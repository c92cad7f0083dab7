import CadTimeline.Expr.Eval
import CadTimeline.Proofs.Except

/-!
# Evaluation and names

The value of an expression depends on its names alone: it is kept where the names keep
their values, and where names are replaced by expressions that have these values.
-/

namespace CadTimeline

/-- Names that have a value in the first scope have the same value in the second one. -/
structure Scope.Le (scope later : Scope) : Prop where
  value? : ∀ name x, scope.value? name = some x → later.value? name = some x
  bareValue? : ∀ name x, Expr.bareValue? scope name = some x →
    Expr.bareValue? later name = some x

variable {scope later : Scope}

theorem Expr.resolve_eq_ok {name : String} {value : Option Float} {x : Float} :
    resolve name value = .ok x ↔ value = some x := by
  cases value <;> simp [resolve]

theorem Expr.resolve_eq_error {name : String} {value : Option Float} {fault : Fault} :
    resolve name value = .error fault ↔ value = none ∧ fault = .undefined name := by
  cases value <;> simp [resolve, eq_comm]

/-- A bare name is a constant, or it has the value of a parameter. -/
theorem Expr.bareValue?_eq_some {name : String} {x : Float} :
    bareValue? scope name = some x ↔ constant? name = some x ∨
      constant? name = none ∧ scope.bareNames = .parameters ∧ scope.value? name = some x := by
  unfold bareValue?
  cases hconstant : constant? name with
  | some y => simp
  | none => cases hmode : scope.bareNames <;> simp

theorem Scope.le_of_value? (h : ∀ name x, scope.value? name = some x → later.value? name = some x)
    (hmode : scope.bareNames = .parameters → later.bareNames = .parameters) :
    scope.Le later := by
  refine ⟨h, fun name x hx => ?_⟩
  rw [Expr.bareValue?_eq_some] at hx ⊢
  exact hx.imp_right fun ⟨hconstant, hbare, hvalue⟩ => ⟨hconstant, hmode hbare, h name x hvalue⟩

namespace Expr

/-! ## The names of an expression -/

mutual

/-- Every `$name` satisfies the first predicate, and every bare name the second one. -/
def AllNames (dollar plain : String → Prop) : Expr → Prop
  | number _ => True
  | parameter name => dollar name
  | bare name => plain name
  | call _ args => AllNamesOf dollar plain args
  | neg operand => AllNames dollar plain operand
  | binary _ left right => AllNames dollar plain left ∧ AllNames dollar plain right

def AllNamesOf (dollar plain : String → Prop) : List Expr → Prop
  | [] => True
  | e :: es => AllNames dollar plain e ∧ AllNamesOf dollar plain es

end

variable {dollar plain : String → Prop}

mutual

/-- The names of an expression that has a value have values. -/
theorem allNames_of_eval {e : Expr} {v : Float} (h : eval scope e = .ok v) :
    e.AllNames (fun name => ∃ x, scope.value? name = some x)
      (fun name => ∃ x, bareValue? scope name = some x) := by
  cases e with
  | number value => trivial
  | parameter name => exact ⟨v, resolve_eq_ok.mp h⟩
  | bare name => exact ⟨v, resolve_eq_ok.mp h⟩
  | call function args =>
      rw [eval] at h
      split at h
      · obtain ⟨values, hvalues, -⟩ := bind_eq_ok.mp h
        exact allNamesOf_of_evalAll hvalues
      · contradiction
  | neg operand =>
      rw [eval] at h
      obtain ⟨x, hx, -⟩ := bind_eq_ok.mp h
      exact allNames_of_eval (e := operand) hx
  | binary op left right =>
      rw [eval] at h
      simp only [bind_eq_ok] at h
      obtain ⟨x, hx, y, hy, -⟩ := h
      exact ⟨allNames_of_eval hx, allNames_of_eval hy⟩

theorem allNamesOf_of_evalAll {es : List Expr} {vs : List Float} (h : evalAll scope es = .ok vs) :
    AllNamesOf (fun name => ∃ x, scope.value? name = some x)
      (fun name => ∃ x, bareValue? scope name = some x) es := by
  cases es with
  | nil => trivial
  | cons e es =>
      rw [evalAll] at h
      simp only [bind_eq_ok] at h
      obtain ⟨x, hx, xs, hxs, -⟩ := h
      exact ⟨allNames_of_eval hx, allNamesOf_of_evalAll hxs⟩

end

mutual

theorem AllNames.mono {others bares : String → Prop} (hdollar : ∀ name, dollar name → others name)
    (hplain : ∀ name, plain name → bares name) {e : Expr} (h : e.AllNames dollar plain) :
    e.AllNames others bares := by
  cases e with
  | number value => trivial
  | parameter name => exact hdollar name h
  | bare name => exact hplain name h
  | call function args => exact AllNamesOf.mono hdollar hplain h
  | neg operand => exact AllNames.mono hdollar hplain (e := operand) h
  | binary op left right =>
      exact ⟨AllNames.mono hdollar hplain h.1, AllNames.mono hdollar hplain h.2⟩

theorem AllNamesOf.mono {others bares : String → Prop}
    (hdollar : ∀ name, dollar name → others name) (hplain : ∀ name, plain name → bares name)
    {es : List Expr} (h : AllNamesOf dollar plain es) : AllNamesOf others bares es := by
  cases es with
  | nil => trivial
  | cons e es => exact ⟨AllNames.mono hdollar hplain h.1, AllNamesOf.mono hdollar hplain h.2⟩

end

mutual

theorem AllNames.of_mem_references {e : Expr} (h : e.AllNames dollar plain) {name : String}
    (hname : name ∈ e.references) : dollar name ∨ plain name := by
  cases e with
  | number value => exact absurd hname List.not_mem_nil
  | parameter other =>
      rw [references, List.mem_singleton] at hname
      exact .inl (hname ▸ h)
  | bare other =>
      rw [references, List.mem_singleton] at hname
      exact .inr (hname ▸ h)
  | call function args =>
      rw [references] at hname
      exact AllNamesOf.of_mem_references h hname
  | neg operand =>
      rw [references] at hname
      exact AllNames.of_mem_references (e := operand) h hname
  | binary op left right =>
      rw [references, List.mem_append] at hname
      exact hname.elim (AllNames.of_mem_references h.1) (AllNames.of_mem_references h.2)

theorem AllNamesOf.of_mem_references {es : List Expr} (h : AllNamesOf dollar plain es)
    {name : String} (hname : name ∈ allReferences es) : dollar name ∨ plain name := by
  cases es with
  | nil => exact absurd hname List.not_mem_nil
  | cons e es =>
      rw [allReferences, List.mem_append] at hname
      exact hname.elim (AllNames.of_mem_references h.1) (AllNamesOf.of_mem_references h.2)

end

/-- An expression refers to constants and to names with a value. -/
theorem exists_of_mem_references {e : Expr} {v : Float} (h : eval scope e = .ok v) {name : String}
    (hname : name ∈ e.references) (hconstant : constant? name = none) :
    ∃ x, scope.value? name = some x := by
  rcases (allNames_of_eval h).of_mem_references hname with hvalue | ⟨x, hx⟩
  · exact hvalue
  · rcases bareValue?_eq_some.mp hx with hx | ⟨-, -, hx⟩
    · rw [hconstant] at hx
      contradiction
    · exact ⟨x, hx⟩

/-! ## Replacing names -/

mutual

/-- The expression with an expression in place of every name. -/
def replace (dollar plain : String → Expr) : Expr → Expr
  | number value => number value
  | parameter name => dollar name
  | bare name => plain name
  | call function args => call function (replaceAll dollar plain args)
  | neg operand => neg (replace dollar plain operand)
  | binary op left right => binary op (replace dollar plain left) (replace dollar plain right)

def replaceAll (dollar plain : String → Expr) : List Expr → List Expr
  | [] => []
  | e :: es => replace dollar plain e :: replaceAll dollar plain es

end

mutual

/-- Nothing changes where names are replaced by themselves. -/
theorem AllNames.replace_eq {f g : String → Expr}
    (hdollar : ∀ name, dollar name → f name = parameter name)
    (hplain : ∀ name, plain name → g name = bare name) {e : Expr}
    (h : e.AllNames dollar plain) : e.replace f g = e := by
  cases e with
  | number value => rfl
  | parameter name => exact hdollar name h
  | bare name => exact hplain name h
  | call function args =>
      rw [replace, AllNamesOf.replaceAll_eq hdollar hplain h]
  | neg operand =>
      rw [replace, AllNames.replace_eq hdollar hplain (e := operand) h]
  | binary op left right =>
      rw [replace, AllNames.replace_eq hdollar hplain h.1, AllNames.replace_eq hdollar hplain h.2]

theorem AllNamesOf.replaceAll_eq {f g : String → Expr}
    (hdollar : ∀ name, dollar name → f name = parameter name)
    (hplain : ∀ name, plain name → g name = bare name) {es : List Expr}
    (h : AllNamesOf dollar plain es) : replaceAll f g es = es := by
  cases es with
  | nil => rfl
  | cons e es =>
      rw [replaceAll, AllNames.replace_eq hdollar hplain h.1,
        AllNamesOf.replaceAll_eq hdollar hplain h.2]

end

mutual

/-- The value is kept where every name is replaced by an expression that has its value. -/
theorem eval_replace {f g : String → Expr}
    (hdollar : ∀ name x, scope.value? name = some x → eval later (f name) = .ok x)
    (hplain : ∀ name x, bareValue? scope name = some x → eval later (g name) = .ok x)
    {e : Expr} {v : Float} (h : eval scope e = .ok v) : eval later (e.replace f g) = .ok v := by
  cases e with
  | number value => exact h
  | parameter name => exact hdollar name v (resolve_eq_ok.mp h)
  | bare name => exact hplain name v (resolve_eq_ok.mp h)
  | call function args =>
      rw [eval] at h
      rw [replace, eval]
      split at h
      · rename_i hfunction
        obtain ⟨values, hvalues, hresult⟩ := bind_eq_ok.mp h
        rw [if_pos hfunction, evalAll_replace hdollar hplain hvalues]
        exact hresult
      · contradiction
  | neg operand =>
      rw [eval] at h
      obtain ⟨x, hx, hv⟩ := bind_eq_ok.mp h
      rw [replace, eval, eval_replace hdollar hplain hx]
      exact hv
  | binary op left right =>
      rw [eval] at h
      simp only [bind_eq_ok] at h
      obtain ⟨x, hx, y, hy, hv⟩ := h
      rw [replace, eval, eval_replace hdollar hplain hx, eval_replace hdollar hplain hy]
      exact hv

theorem evalAll_replace {f g : String → Expr}
    (hdollar : ∀ name x, scope.value? name = some x → eval later (f name) = .ok x)
    (hplain : ∀ name x, bareValue? scope name = some x → eval later (g name) = .ok x)
    {es : List Expr} {vs : List Float} (h : evalAll scope es = .ok vs) :
    evalAll later (replaceAll f g es) = .ok vs := by
  cases es with
  | nil => exact h
  | cons e es =>
      rw [evalAll] at h
      simp only [bind_eq_ok] at h
      obtain ⟨x, hx, xs, hxs, hvs⟩ := h
      rw [replaceAll, evalAll, eval_replace hdollar hplain hx, evalAll_replace hdollar hplain hxs]
      exact hvs

end

/-- Values are kept where names keep theirs. -/
theorem eval_le (hle : scope.Le later) {e : Expr} {v : Float} (h : eval scope e = .ok v) :
    eval later e = .ok v := by
  have hself : e.replace parameter bare = e :=
    (allNames_of_eval h).replace_eq (fun _ _ => rfl) fun _ _ => rfl
  have hdollar : ∀ name x, scope.value? name = some x → eval later (parameter name) = .ok x :=
    fun name x hx => resolve_eq_ok.mpr (hle.value? name x hx)
  have hplain : ∀ name x, bareValue? scope name = some x → eval later (bare name) = .ok x :=
    fun name x hx => resolve_eq_ok.mpr (hle.bareValue? name x hx)
  rw [← hself]
  exact eval_replace hdollar hplain h

theorem evalText_eq_ok {text : String} {v : Float} :
    evalText scope text = .ok v ↔
      ∃ e, parse? text.toList = some e ∧ eval scope e = .ok v ∧ v.isFinite = true := by
  unfold evalText
  cases parse? text.toList with
  | none => simp
  | some e =>
      simp only [bind_eq_ok, Option.some.injEq, exists_eq_left']
      constructor
      · rintro ⟨x, hx, h⟩
        split at h
        · rename_i hfinite
          cases h
          exact ⟨hx, hfinite⟩
        · contradiction
      · rintro ⟨hv, hfinite⟩
        exact ⟨v, hv, if_pos hfinite⟩

theorem evalText_le (hle : scope.Le later) {text : String} {v : Float}
    (h : evalText scope text = .ok v) : evalText later text = .ok v := by
  obtain ⟨e, hparse, heval, hfinite⟩ := evalText_eq_ok.mp h
  exact evalText_eq_ok.mpr ⟨e, hparse, eval_le hle heval, hfinite⟩

end Expr

end CadTimeline
