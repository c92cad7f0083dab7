import CadTimeline.Proofs.Parameter.Table

/-!
# Definitions in a row

A table grows by one definition after the other, and a definition that fails leaves it as it
is. Every expression has been evaluated among the parameters before it, and keeps its value
among all of them.
-/

namespace CadTimeline

/-- A line that defines a parameter. -/
structure Definition where
  name : String
  expression : String
  line : Nat

/-- The line that a parameter comes from. -/
def Parameter.definition (parameter : Parameter) : Definition :=
  ⟨parameter.name, parameter.expression, parameter.line⟩

namespace ParameterTable

/-- The table after a definition. -/
def attempt (table : ParameterTable) (call : Definition) : ParameterTable :=
  match table.define call.name call.expression call.line with
  | .ok later => later
  | .error _ => table

/-- The table after all these definitions. -/
def after (calls : List Definition) : ParameterTable :=
  calls.foldl attempt empty

/-- The definitions that do not fail. -/
def successful (table : ParameterTable) : List Definition → List Definition
  | [] => []
  | call :: calls =>
    match table.define call.name call.expression call.line with
    | .ok later => call :: successful later calls
    | .error _ => successful table calls

variable {table later : ParameterTable}

/-! ## Look-up -/

theorem find?_eq_none {name : String} :
    table.find? name = none ↔ name ∉ table.entries.map Parameter.name := by
  simp [find?]

theorem get?_eq_none {name : String} :
    table.get? name = none ↔ name ∉ table.entries.map Parameter.name := by
  rw [get?, Option.map_eq_none_iff, find?_eq_none]

/-- The names of the parameters are those with a value. -/
theorem exists_get?_iff {name : String} :
    (∃ x, table.get? name = some x) ↔ name ∈ table.entries.map Parameter.name := by
  rw [← Option.isSome_iff_exists, ← Option.ne_none_iff_isSome, Ne, get?_eq_none,
    Classical.not_not]

theorem find?_eq_some {name : String} {parameter : Parameter}
    (h : table.find? name = some parameter) :
    parameter ∈ table.entries ∧ parameter.name = name := by
  rw [find?] at h
  have hname := List.find?_some h
  exact ⟨List.mem_of_find?_eq_some h, beq_iff_eq.mp hname⟩

theorem find?_of_grown (hle : table.entries <+: later.entries) {name : String}
    {parameter : Parameter} (h : table.find? name = some parameter) :
    later.find? name = some parameter := by
  obtain ⟨rest, hentries⟩ := hle
  rw [find?, ← hentries, List.find?_append]
  rw [find?] at h
  rw [h, Option.some_or]

/-- What a table says is still said when it has grown. -/
theorem scope_le_of_grown (hle : table.entries <+: later.entries) (bareNames : BareNames) :
    (table.scope bareNames).Le (later.scope bareNames) := by
  refine Scope.le_of_value? (fun name x hx => ?_) id
  obtain ⟨parameter, hfind, rfl⟩ := Option.map_eq_some_iff.mp hx
  exact congrArg (Option.map Parameter.value) (find?_of_grown hle hfind)

/-! ## The invariant -/

/-- The names are fit and pairwise different, and every parameter has the value that its
expression has among the parameters before it. -/
structure IsBuilt (table : ParameterTable) : Prop where
  accepted : ∀ parameter ∈ table.entries, checkName parameter.name = .ok ()
  names : (table.entries.map Parameter.name).Nodup
  earlier : ∀ before parameter rest, table.entries = before ++ parameter :: rest →
    Expr.evalText (scope ⟨before⟩ .parameters) parameter.expression = .ok parameter.value

theorem isBuilt_empty : empty.IsBuilt :=
  ⟨List.forall_mem_nil _, .nil, fun before parameter rest h => by
    have hlength := congrArg List.length h
    simp [empty] at hlength⟩

/-- The last entry of a list that is cut in front of an entry is this one, or it is behind
it. -/
theorem cut_of_append_singleton {entries before rest : List Parameter} {last parameter : Parameter}
    (h : entries ++ [last] = before ++ parameter :: rest) :
    entries = before ∧ last = parameter ∨
      ∃ others, entries = before ++ parameter :: others := by
  rcases rest.eq_nil_or_concat with rfl | ⟨others, other, rfl⟩
  · obtain ⟨hentries, hlast⟩ := List.append_inj' h rfl
    exact .inl ⟨hentries, List.singleton_inj.mp hlast⟩
  · rw [List.concat_eq_append, ← List.cons_append, ← List.append_assoc] at h
    exact .inr ⟨others, (List.append_inj' h rfl).1⟩

namespace IsBuilt

theorem define (h : table.IsBuilt) {name expression : String} {line : Nat}
    (hdefine : table.define name expression line = .ok later) : later.IsBuilt := by
  obtain ⟨value, hname, hnew, hvalue, rfl⟩ := define_eq_ok.mp hdefine
  refine ⟨?_, ?_, fun before parameter rest hcut => ?_⟩
  · exact List.forall_mem_append.mpr ⟨h.accepted, List.forall_mem_singleton.mpr hname⟩
  · rw [List.map_append]
    refine List.nodup_append.mpr ⟨h.names, List.pairwise_singleton _ _, ?_⟩
    rintro other hother last hlast rfl
    rw [List.mem_singleton.mp hlast] at hother
    exact find?_eq_none.mp hnew hother
  · rcases cut_of_append_singleton hcut with ⟨rfl, rfl⟩ | ⟨others, hothers⟩
    · exact hvalue
    · exact h.earlier before parameter others hothers

theorem attempt (h : table.IsBuilt) (call : Definition) : (table.attempt call).IsBuilt := by
  unfold ParameterTable.attempt
  split
  · rename_i hdefine
    exact h.define hdefine
  · exact h

theorem foldl_attempt (h : table.IsBuilt) (calls : List Definition) :
    (calls.foldl ParameterTable.attempt table).IsBuilt := by
  induction calls generalizing table with
  | nil => exact h
  | cons call calls ih => exact ih (h.attempt call)

variable {before rest : List Parameter} {parameter : Parameter}

theorem find?_of_mem (h : table.IsBuilt) (hmem : parameter ∈ table.entries) :
    table.find? parameter.name = some parameter := by
  obtain ⟨before, rest, hcut⟩ := List.append_of_mem hmem
  have hnames := h.names
  rw [hcut, List.map_append, List.map_cons, List.nodup_append] at hnames
  have hbefore : before.find? (·.name == parameter.name) = none := by
    rw [List.find?_eq_none]
    intro other hother heq
    have hname := List.mem_map_of_mem (f := Parameter.name) hother
    exact hnames.2.2 _ hname _ List.mem_cons_self (beq_iff_eq.mp heq)
  rw [find?, hcut, List.find?_append, hbefore, Option.none_or, List.find?_cons_of_pos]
  exact beq_self_eq_true _

/-- A name that is bound cannot be bound again. -/
theorem define_eq_error (h : table.IsBuilt) (hmem : parameter ∈ table.entries)
    (expression : String) (line : Nat) :
    table.define parameter.name expression line =
      .error (.redefinition parameter.name parameter.line) := by
  rw [ParameterTable.define, h.accepted parameter hmem, h.find?_of_mem hmem]
  rfl

theorem evalText_earlier (h : table.IsBuilt) (hcut : table.entries = before ++ parameter :: rest) :
    Expr.evalText (table.scope .parameters) parameter.expression = .ok parameter.value := by
  have hle : before <+: table.entries := hcut ▸ List.prefix_append _ _
  exact Expr.evalText_le (scope_le_of_grown hle .parameters) (h.earlier _ _ _ hcut)

theorem isFinite (h : table.IsBuilt) : table.IsFinite := by
  intro parameter hmem
  obtain ⟨before, rest, hcut⟩ := List.append_of_mem hmem
  exact Expr.isFinite_of_evalText (h.earlier _ _ _ hcut)

/-- An expression refers to constants and to parameters before its own one. -/
theorem exists_earlier (h : table.IsBuilt) (hcut : table.entries = before ++ parameter :: rest) :
    ∃ e, Expr.parse? parameter.expression.toList = some e ∧
      ∀ name ∈ e.references, Expr.constant? name = none → ∃ other ∈ before, other.name = name := by
  obtain ⟨e, hparse, heval, -⟩ := Expr.evalText_eq_ok.mp (h.earlier _ _ _ hcut)
  refine ⟨e, hparse, fun name hname hconstant => ?_⟩
  obtain ⟨x, hx⟩ := Expr.exists_of_mem_references heval hname hconstant
  obtain ⟨other, hfind, -⟩ := Option.map_eq_some_iff.mp hx
  exact ⟨other, find?_eq_some hfind⟩

end IsBuilt

/-! ## Runs of definitions -/

theorem attempt_grows (table : ParameterTable) (call : Definition) :
    table.entries <+: (table.attempt call).entries := by
  unfold attempt
  split
  · rename_i hdefine
    obtain ⟨value, -, -, -, rfl⟩ := define_eq_ok.mp hdefine
    exact List.prefix_append _ _
  · exact List.prefix_rfl

theorem foldl_attempt_grows (table : ParameterTable) (calls : List Definition) :
    table.entries <+: (calls.foldl attempt table).entries := by
  induction calls generalizing table with
  | nil => exact List.prefix_rfl
  | cons call calls ih => exact (attempt_grows table call).trans (ih _)

theorem map_definition_foldl (table : ParameterTable) (calls : List Definition) :
    (calls.foldl attempt table).entries.map Parameter.definition =
      table.entries.map Parameter.definition ++ successful table calls := by
  induction calls generalizing table with
  | nil => exact (List.append_nil _).symm
  | cons call calls ih =>
      rw [List.foldl_cons, ih, successful, attempt]
      split
      · rename_i hdefine
        obtain ⟨value, -, -, -, rfl⟩ := define_eq_ok.mp hdefine
        rw [List.map_append, List.append_assoc]
        rfl
      · rfl

theorem after_append (calls more : List Definition) :
    after (calls ++ more) = more.foldl attempt (after calls) :=
  List.foldl_append

theorem after_isBuilt (calls : List Definition) : (after calls).IsBuilt :=
  isBuilt_empty.foldl_attempt calls

/-- After any definitions, the table has a parameter for each one that did not fail, in their
order; it is never bound again. Its value is finite, it was found among the parameters
before it, and it is the value of its expression among all of them. -/
theorem after_sound (calls : List Definition) :
    (∀ call issue, (after calls).define call.name call.expression call.line = .error issue →
      after (calls ++ [call]) = after calls) ∧
    (after calls).entries.map Parameter.definition = successful empty calls ∧
    ((after calls).entries.map Parameter.name).Nodup ∧
    (∀ more, (after calls).entries <+: (after (calls ++ more)).entries) ∧
    (∀ parameter ∈ (after calls).entries, checkName parameter.name = .ok () ∧
      (∀ expression line, (after calls).define parameter.name expression line =
        .error (.redefinition parameter.name parameter.line)) ∧
      parameter.value.isFinite = true ∧
      Expr.evalText ((after calls).scope .parameters) parameter.expression =
        .ok parameter.value) ∧
    ∀ before parameter rest, (after calls).entries = before ++ parameter :: rest →
      ∃ e, Expr.parse? parameter.expression.toList = some e ∧
        ∀ name ∈ e.references, Expr.constant? name = none →
          ∃ other ∈ before, other.name = name := by
  have hbuilt := after_isBuilt calls
  refine ⟨fun call issue hfails => ?_, map_definition_foldl empty calls, hbuilt.names,
    fun more => ?_, fun parameter hmem => ?_, fun _ _ _ hcut => hbuilt.exists_earlier hcut⟩
  · rw [after_append, List.foldl_cons, List.foldl_nil, attempt, hfails]
  · rw [after_append]
    exact foldl_attempt_grows _ _
  · obtain ⟨before, rest, hcut⟩ := List.append_of_mem hmem
    exact ⟨hbuilt.accepted parameter hmem, hbuilt.define_eq_error hmem,
      hbuilt.isFinite parameter hmem, hbuilt.evalText_earlier hcut⟩

end ParameterTable

end CadTimeline
