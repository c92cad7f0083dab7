import CadTimeline.Proofs.Parameter.Definitions
import Mathlib.Logic.Function.Iterate

/-!
# Definitions in place of names

An expression that has a value in a table has the same value without one, once every name
in it has been replaced by its definition, over and over. Definitions refer to earlier ones
alone, so this ends.
-/

namespace CadTimeline

namespace Expr

/-- All names are constants, without a `$`. -/
def IsClosed (e : Expr) : Prop :=
  e.AllNames (fun _ => False) fun name => (constant? name).isSome = true

end Expr

namespace ParameterTable

/-- The expression that defines a parameter. -/
def definition? (table : ParameterTable) (name : String) : Option Expr :=
  (table.find? name).bind fun parameter => Expr.parse? parameter.expression.toList

/-- The expression with the definition of every parameter in place of its name. -/
def inline (table : ParameterTable) (e : Expr) : Expr :=
  e.replace (fun name => (table.definition? name).getD (.parameter name)) fun name =>
    if (Expr.constant? name).isSome then .bare name
    else (table.definition? name).getD (.bare name)

variable {table : ParameterTable}

/-- Without names of parameters there is nothing to replace. -/
theorem inline_of_isClosed {e : Expr} (h : e.IsClosed) : table.inline e = e :=
  h.replace_eq (fun _ hname => hname.elim) fun _ hname => if_pos hname

theorem isClosed_of_eval {bareNames : BareNames} {e : Expr} {v : Float}
    (h : Expr.eval (empty.scope bareNames) e = .ok v) : e.IsClosed := by
  refine (Expr.allNames_of_eval h).mono ?_ ?_
  · rintro name ⟨x, hx⟩
    contradiction
  · rintro name ⟨x, hx⟩
    rcases Expr.bareValue?_eq_some.mp hx with hx | ⟨-, -, hx⟩
    · exact Option.isSome_of_mem hx
    · contradiction

/-- What has a value without parameters has it everywhere. -/
theorem empty_scope_le (bareNames : BareNames) (later : Scope) :
    (empty.scope bareNames).Le later := by
  refine ⟨fun name x hx => ?_, fun name x hx => ?_⟩
  · contradiction
  · rcases Expr.bareValue?_eq_some.mp hx with hx | ⟨-, -, hx⟩
    · exact Expr.bareValue?_eq_some.mpr (.inl hx)
    · contradiction

namespace IsBuilt

variable {before rest : List Parameter} {parameter : Parameter}

/-- A parameter that is not behind `before` has the value that its definition has among
`before`. -/
theorem exists_definition (h : table.IsBuilt)
    (hcut : table.entries = before ++ parameter :: rest) {name : String} {x : Float}
    (hx : get? ⟨before ++ [parameter]⟩ name = some x) :
    ∃ e, table.definition? name = some e ∧
      Expr.eval (scope ⟨before⟩ .parameters) e = .ok x := by
  obtain ⟨other, hfind, rfl⟩ := Option.map_eq_some_iff.mp hx
  have hsplit : table.entries = (before ++ [parameter]) ++ rest := by
    rw [hcut, List.append_assoc, List.singleton_append]
  have htable : table.find? name = some other := find?_of_grown ⟨rest, hsplit.symm⟩ hfind
  obtain ⟨first, last, hother⟩ : ∃ first last, before ++ [parameter] = first ++ other :: last :=
    List.append_of_mem (find?_eq_some hfind).1
  have hentries : table.entries = first ++ other :: (last ++ rest) := by
    rw [hsplit, hother, List.append_assoc, List.cons_append]
  obtain ⟨e, hparse, heval, -⟩ := Expr.evalText_eq_ok.mp (h.earlier _ _ _ hentries)
  have hle : first <+: before := by
    rcases cut_of_append_singleton hother with ⟨rfl, -⟩ | ⟨others, rfl⟩
    · exact List.prefix_rfl
    · exact List.prefix_append _ _
  refine ⟨e, ?_, Expr.eval_le (scope_le_of_grown hle .parameters) heval⟩
  rw [definition?, htable]
  exact hparse

/-- One round of replacing makes do with one parameter less. -/
theorem eval_inline (h : table.IsBuilt) (hcut : table.entries = before ++ parameter :: rest)
    {e : Expr} {v : Float}
    (he : Expr.eval (scope ⟨before ++ [parameter]⟩ .parameters) e = .ok v) :
    Expr.eval (scope ⟨before⟩ .parameters) (table.inline e) = .ok v := by
  refine Expr.eval_replace (fun name x hx => ?_) (fun name x hx => ?_) he
  · obtain ⟨other, hother, hvalue⟩ := h.exists_definition hcut hx
    rw [hother]
    exact hvalue
  · rcases Expr.bareValue?_eq_some.mp hx with hx | ⟨hconstant, -, hx⟩
    · rw [if_pos (Option.isSome_of_mem hx)]
      exact Expr.resolve_eq_ok.mpr (Expr.bareValue?_eq_some.mpr (.inl hx))
    · obtain ⟨other, hother, hvalue⟩ := h.exists_definition hcut hx
      have hname : ¬(Expr.constant? name).isSome = true := by simp [hconstant]
      rw [if_neg hname, hother]
      exact hvalue

/-- After a round for each parameter at most, no parameter is left. -/
theorem exists_rounds (h : table.IsBuilt) (hcut : table.entries = before ++ rest) {e : Expr}
    {v : Float} (he : Expr.eval (scope ⟨before⟩ .parameters) e = .ok v) :
    ∃ rounds ≤ before.length,
      Expr.eval (empty.scope .parameters) (table.inline^[rounds] e) = .ok v := by
  induction before using List.reverseRecOn generalizing rest e with
  | nil => exact ⟨0, Nat.le_refl 0, he⟩
  | append_singleton before parameter ih =>
      rw [List.append_assoc, List.singleton_append] at hcut
      obtain ⟨rounds, hrounds, hvalue⟩ := ih hcut (h.eval_inline hcut he)
      refine ⟨rounds + 1, ?_, hvalue⟩
      rw [List.length_append, List.length_singleton]
      omega

end IsBuilt

/-- An expression that has a value after definitions becomes a closed one when the names of
parameters are replaced by their definitions, again and again; replacing ends there, and the
closed expression has the same value without any parameter. -/
theorem exists_inlined (calls : List Definition) (bareNames : BareNames) (text : String)
    (v : Float) (h : Expr.evalText ((after calls).scope bareNames) text = .ok v) :
    ∃ e, Expr.parse? text.toList = some e ∧
      ∃ rounds ≤ (after calls).entries.length,
        ((after calls).inline^[rounds] e).IsClosed ∧
        (∀ more, (after calls).inline^[more + rounds] e = (after calls).inline^[rounds] e) ∧
        ∀ others, Expr.eval (empty.scope others) ((after calls).inline^[rounds] e) = .ok v := by
  obtain ⟨e, hparse, heval, -⟩ := Expr.evalText_eq_ok.mp h
  have hle : ((after calls).scope bareNames).Le ((after calls).scope .parameters) :=
    Scope.le_of_value? (fun _ _ => id) fun _ => rfl
  obtain ⟨rounds, hrounds, hvalue⟩ :=
    (after_isBuilt calls).exists_rounds (List.append_nil _).symm (Expr.eval_le hle heval)
  have hclosed := isClosed_of_eval hvalue
  refine ⟨e, hparse, rounds, hrounds, hclosed, fun more => ?_, fun others => ?_⟩
  · rw [Function.iterate_add_apply]
    exact Function.iterate_fixed (inline_of_isClosed hclosed) more
  · exact Expr.eval_le (empty_scope_le .parameters _) hvalue

/-- Three parameters, each defined by the ones before it. -/
def chain : List Definition :=
  [⟨"a", "2", 1⟩, ⟨"b", "a * 3 + 1", 2⟩, ⟨"c", "$b - a", 3⟩]

theorem exists_inlined_chain : ∃ v,
    Expr.evalText ((after chain).scope .constantsOnly) "pi * ($c + $b)" = .ok v ∧
    ∃ e, Expr.parse? "pi * ($c + $b)".toList = some e ∧
      ∃ rounds ≤ (after chain).entries.length,
        ((after chain).inline^[rounds] e).IsClosed ∧
        (∀ more, (after chain).inline^[more + rounds] e = (after chain).inline^[rounds] e) ∧
        ∀ others, Expr.eval (empty.scope others) ((after chain).inline^[rounds] e) = .ok v := by
  have hkept : (Expr.evalText ((after chain).scope .constantsOnly)
      "pi * ($c + $b)").isOk = true := by decide +kernel
  obtain ⟨v, hvalue⟩ := exists_of_isOk hkept
  exact ⟨v, hvalue, exists_inlined chain .constantsOnly "pi * ($c + $b)" v hvalue⟩

end ParameterTable

end CadTimeline
