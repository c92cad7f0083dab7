import CadTimeline.Proofs.Parameter.Definitions

/-!
# The order of definitions

Definitions can stand in any order in which each of them succeeds: the names have the same
values in the end.
-/

namespace CadTimeline

/-- What a definition says, wherever it stands. -/
def Definition.content (call : Definition) : String × String :=
  (call.name, call.expression)

namespace ParameterTable

/-- The table after these definitions, if all of them succeed. -/
def defineAll (table : ParameterTable) (calls : List Definition) : Except Issue ParameterTable :=
  calls.foldlM (fun table call => table.define call.name call.expression call.line) table

/-- What the definitions in a table say. -/
def contents (table : ParameterTable) : List (String × String) :=
  table.entries.map fun parameter => parameter.definition.content

variable {table later : ParameterTable} {calls : List Definition}

/-! ## Definitions that all succeed -/

theorem IsBuilt.defineAll (h : table.IsBuilt) (hcalls : table.defineAll calls = .ok later) :
    later.IsBuilt := by
  induction hcalls using foldlM_induction with
  | nil => exact h
  | cons hcall _ ih => exact ih (h.define hcall)

/-- Each definition is in the table, in its place. -/
theorem contents_of_defineAll (h : table.defineAll calls = .ok later) :
    later.contents = table.contents ++ calls.map Definition.content := by
  induction h using foldlM_induction with
  | nil => exact (List.append_nil _).symm
  | cons hcall _ ih =>
      obtain ⟨value, -, -, -, rfl⟩ := define_eq_ok.mp hcall
      rw [ih, contents, contents, List.map_append, List.append_assoc]
      rfl

theorem map_fst_contents (table : ParameterTable) :
    table.contents.map Prod.fst = table.entries.map Parameter.name :=
  List.map_map

/-- The names in a table are those with a value. -/
theorem isSome_get?_iff {name : String} :
    (table.get? name).isSome = true ↔ name ∈ table.contents.map Prod.fst := by
  rw [map_fst_contents, Option.isSome_iff_exists, exists_get?_iff]

/-! ## Tables that say the same -/

/-- What has a value among some entries and one behind them has it among the former, or is the
name of the latter. -/
theorem get?_append_singleton {before : List Parameter} {parameter : Parameter} {name : String}
    {x : Float} (h : get? ⟨before ++ [parameter]⟩ name = some x) :
    get? ⟨before⟩ name = some x ∨ parameter.name = name ∧ parameter.value = x := by
  obtain ⟨other, hfind, rfl⟩ := Option.map_eq_some_iff.mp h
  rw [find?, List.find?_append, Option.or_eq_some_iff] at hfind
  rcases hfind with hbefore | ⟨-, hlast⟩
  · exact .inl (congrArg (Option.map Parameter.value) hbefore)
  · have hfound : find? ⟨[parameter]⟩ name = some other := hlast
    obtain ⟨hmem, hname⟩ := find?_eq_some hfound
    rw [List.mem_singleton] at hmem
    subst hmem
    exact .inr ⟨hname, rfl⟩

/-- A value that a name has at some point of a table it has in every table that says as much: its
expression is evaluated with the names before it, and these have their values there already. -/
theorem IsBuilt.get?_of_contents_subset (h : table.IsBuilt) (hlater : later.IsBuilt)
    (hsubset : table.contents ⊆ later.contents) {before rest : List Parameter}
    (hcut : table.entries = before ++ rest) {name : String} {x : Float}
    (hx : get? ⟨before⟩ name = some x) : later.get? name = some x := by
  induction before using List.reverseRecOn generalizing rest name x with
  | nil => contradiction
  | append_singleton before parameter ih =>
      rw [List.append_assoc, List.singleton_append] at hcut
      rcases get?_append_singleton hx with hbefore | ⟨rfl, rfl⟩
      · exact ih hcut hbefore
      · have hmem : parameter ∈ table.entries := by
          rw [hcut]
          exact List.mem_append_right _ List.mem_cons_self
        obtain ⟨other, hother, hcontent⟩ := List.mem_map.mp
          (hsubset (List.mem_map_of_mem (f := fun p => p.definition.content) hmem))
        have hname : other.name = parameter.name := congrArg Prod.fst hcontent
        have hexpression : other.expression = parameter.expression := congrArg Prod.snd hcontent
        -- The expression has a value among the names before it, and the later table has these.
        have hle : (scope ⟨before⟩ .parameters).Le (later.scope .parameters) :=
          Scope.le_of_value? (fun _ _ => ih hcut) id
        have hvalue := Expr.evalText_le hle (h.earlier _ _ _ hcut)
        obtain ⟨front, back, hplace⟩ := List.append_of_mem hother
        have hsame := hlater.evalText_earlier hplace
        rw [hexpression, hvalue, Except.ok.injEq] at hsame
        rw [get?, ← hname, hlater.find?_of_mem hother, Option.map_some, hsame]

theorem IsBuilt.get?_eq (h : table.IsBuilt) (hlater : later.IsBuilt)
    (hperm : table.contents.Perm later.contents) (name : String) :
    table.get? name = later.get? name := by
  ext x
  constructor
  · exact h.get?_of_contents_subset hlater hperm.subset (List.append_nil _).symm
  · exact hlater.get?_of_contents_subset h hperm.symm.subset (List.append_nil _).symm

/-- Where definitions succeed in two orders, each name that they define has one value, the same
in both, and no other name has a value. -/
theorem defineAll_perm {calls others : List Definition}
    (hperm : (calls.map Definition.content).Perm (others.map Definition.content))
    {table later : ParameterTable} (h : empty.defineAll calls = .ok table)
    (hlater : empty.defineAll others = .ok later) (name : String) :
    table.get? name = later.get? name ∧
      ((table.get? name).isSome = true ↔ ∃ call ∈ calls, call.name = name) := by
  have hcontents : table.contents = calls.map Definition.content := contents_of_defineAll h
  have hothers : later.contents = others.map Definition.content := contents_of_defineAll hlater
  constructor
  · apply (isBuilt_empty.defineAll h).get?_eq (isBuilt_empty.defineAll hlater)
    rwa [hcontents, hothers]
  · rw [isSome_get?_iff, hcontents, List.map_map]
    exact List.mem_map

/-- Four parameters in an order in which each is defined by the ones before it. -/
def fourDefinitions : List Definition :=
  [⟨"a", "2", 1⟩, ⟨"b", "3 / 4", 2⟩, ⟨"c", "pi * ($a + b)", 3⟩, ⟨"d", "b * b - e", 4⟩]

/-- The same parameters in another order, on other lines. -/
def reorderedDefinitions : List Definition :=
  [⟨"b", "3 / 4", 5⟩, ⟨"d", "b * b - e", 6⟩, ⟨"a", "2", 8⟩, ⟨"c", "pi * ($a + b)", 9⟩]

theorem exists_defineAll_reordered : ∃ table later,
    (fourDefinitions.map Definition.content).Perm
        (reorderedDefinitions.map Definition.content) ∧
      empty.defineAll fourDefinitions = .ok table ∧
      empty.defineAll reorderedDefinitions = .ok later ∧
      table.get? "c" = later.get? "c" ∧ (table.get? "c").isSome = true := by
  have hperm : (fourDefinitions.map Definition.content).Perm
      (reorderedDefinitions.map Definition.content) := by decide
  obtain ⟨table, htable⟩ : ∃ table, empty.defineAll fourDefinitions = .ok table :=
    exists_of_isOk (by decide +kernel)
  obtain ⟨later, hlater⟩ : ∃ later, empty.defineAll reorderedDefinitions = .ok later :=
    exists_of_isOk (by decide +kernel)
  obtain ⟨hsame, hbound⟩ := defineAll_perm hperm htable hlater "c"
  have hmem : ⟨"c", "pi * ($a + b)", 3⟩ ∈ fourDefinitions := by simp [fourDefinitions]
  exact ⟨table, later, hperm, htable, hlater, hsame, hbound.mpr ⟨_, hmem, rfl⟩⟩

end ParameterTable

end CadTimeline
