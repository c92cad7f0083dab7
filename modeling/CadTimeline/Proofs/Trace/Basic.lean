import CadTimeline.Proofs.Alike
import CadTimeline.Proofs.Expr.Evaluation
import CadTimeline.Record.Value

/-!
# Traces

A computation together with the expressions that it evaluates and the texts in which it
replaces references. What it comes to depends on the values of the names in these alone.
-/

namespace CadTimeline

/-- What is done with a text. -/
inductive Use where
  /-- It is evaluated as an expression. -/
  | evaluated (text : String)
  /-- The references in it are replaced. -/
  | substituted (text : String)

/-- The names that a text refers to where it is used. An expression that cannot be read refers
to none. -/
def Use.names : Use → List String
  | evaluated text => ((Expr.parse? text.toList).map Expr.references).getD []
  | substituted text => (Substitution.pieces text.toList).filterMap fun
    | .reference name => some name
    | .char _ => none

/-- A computation that can fail, with what it used up to its end. -/
structure Traced (ε α : Type) where
  uses : List Use
  result : Except ε α

namespace Traced

variable {ε ε' α β γ : Type}

instance : Monad (Traced ε) where
  pure a := ⟨[], .ok a⟩
  bind x f :=
    match x.result with
    | .ok a => ⟨x.uses ++ (f a).uses, (f a).result⟩
    | .error e => ⟨x.uses, .error e⟩

instance : MonadExceptOf ε (Traced ε) where
  throw e := ⟨[], .error e⟩
  tryCatch x handle :=
    match x.result with
    | .ok _ => x
    | .error e => ⟨x.uses ++ (handle e).uses, (handle e).result⟩

theorem uses_bind (x : Traced ε α) (f : α → Traced ε β) :
    (x >>= f).uses = x.uses ++ x.result.toOption.elim [] fun a => (f a).uses := by
  obtain ⟨uses, e | a⟩ := x
  · exact (List.append_nil uses).symm
  · rfl

theorem result_bind (x : Traced ε α) (f : α → Traced ε β) :
    (x >>= f).result = x.result >>= fun a => (f a).result := by
  obtain ⟨uses, e | a⟩ := x <;> rfl

instance : LawfulMonad (Traced ε) := LawfulMonad.mk' (Traced ε)
  (by
    rintro α ⟨uses, e | a⟩
    · rfl
    · exact congrArg (Traced.mk · (.ok a)) (List.append_nil uses))
  (fun _ _ => rfl)
  (by
    rintro α β γ ⟨uses, e | a⟩ f g
    · rfl
    · cases hf : f a with
      | mk more result => cases result <;> simp [Bind.bind, hf])

/-- A computation that uses nothing. -/
def lift (result : Except ε α) : Traced ε α :=
  ⟨[], result⟩

def mapError (f : ε → ε') (x : Traced ε α) : Traced ε' α :=
  ⟨x.uses, x.result.mapError f⟩

/-- Nothing that is used refers to a hidden name. -/
def Avoids (hidden : String → Prop) (x : Traced ε α) : Prop :=
  ∀ use ∈ x.uses, ∀ name ∈ use.names, ¬hidden name

/-- The computations come to the same, up to a relation, unless the first one refers to a
hidden name. -/
def Agrees (hidden : String → Prop) (R : α → β → Prop) (x : Traced ε α) (y : Except ε β) : Prop :=
  x.Avoids hidden → Alike Eq R x.result y

namespace Agrees

variable {δ : Type} {hidden : String → Prop} {R : α → β → Prop} {x : Traced ε α} {y : Except ε β}

theorem lift {result : Except ε α} (h : Alike Eq R result y) :
    Agrees hidden R (Traced.lift result) y :=
  fun _ => h

theorem pure {a : α} {b : β} (h : R a b) :
    Agrees hidden R (Pure.pure a : Traced ε α) (Pure.pure b) :=
  fun _ => .ok h

theorem throw (e : ε) :
    Agrees hidden R (MonadExcept.throw e : Traced ε α) (MonadExcept.throw e) :=
  fun _ => .error rfl

theorem bind {S : γ → δ → Prop} {f : α → Traced ε γ} {g : β → Except ε δ}
    (h : Agrees hidden R x y) (hf : ∀ a b, R a b → Agrees hidden S (f a) (g b)) :
    Agrees hidden S (x >>= f) (y >>= g) := by
  intro havoids
  rw [Avoids, uses_bind, List.forall_mem_append] at havoids
  obtain ⟨hfirst, hrest⟩ := havoids
  have hx := h hfirst
  rw [result_bind]
  obtain ⟨uses, result⟩ := x
  cases hx with
  | error he => exact .error he
  | ok hab => exact hf _ _ hab hrest

theorem bind_eq {S : γ → δ → Prop} {y : Except ε α} {f : α → Traced ε γ} {g : α → Except ε δ}
    (h : Agrees hidden Eq x y) (hf : ∀ a, Agrees hidden S (f a) (g a)) :
    Agrees hidden S (x >>= f) (y >>= g) :=
  h.bind fun a _ hab => hab ▸ hf a

/-- A computation that uses nothing may stand in front. -/
theorem lift_bind {S : γ → δ → Prop} {result : Except ε α} {f : α → Traced ε γ}
    {g : α → Except ε δ} (hf : ∀ a, Agrees hidden S (f a) (g a)) :
    Agrees hidden S (Traced.lift result >>= f) (result >>= g) :=
  bind_eq (lift (.of_eq rfl)) hf

theorem mapError {f : ε → ε'} (h : Agrees hidden R x y) :
    Agrees hidden R (x.mapError f) (y.mapError f) :=
  fun havoids => (h havoids).mapError fun _ _ he => congrArg f he

theorem ite {c : Prop} [Decidable c] {x' : Traced ε α} {y' : Except ε β}
    (h : c → Agrees hidden R x y) (h' : ¬c → Agrees hidden R x' y') :
    Agrees hidden R (if c then x else x') (if c then y else y') := by
  by_cases hc : c
  · rw [if_pos hc, if_pos hc]
    exact h hc
  · rw [if_neg hc, if_neg hc]
    exact h' hc

theorem mapM {f : γ → Traced ε α} {g : γ → Except ε α} {xs : List γ}
    (h : ∀ c ∈ xs, Agrees hidden Eq (f c) (g c)) :
    Agrees hidden Eq (xs.mapM f) (xs.mapM g) := by
  induction xs with
  | nil => exact pure rfl
  | cons c xs ih =>
      rw [List.forall_mem_cons] at h
      rw [List.mapM_cons, List.mapM_cons]
      exact h.1.bind_eq fun a => (ih h.2).bind_eq fun as => pure rfl

theorem foldlM {f : α → γ → Traced ε α} {g : β → γ → Except ε β} {xs : List γ}
    (h : ∀ a b c, R a b → Agrees hidden R (f a c) (g b c)) {a : α} {b : β} (hab : R a b) :
    Agrees hidden R (xs.foldlM f a) (xs.foldlM g b) := by
  induction xs generalizing a b with
  | nil => exact pure hab
  | cons c xs ih =>
      rw [List.foldlM_cons, List.foldlM_cons]
      exact (h a b c hab).bind fun a b hab => ih hab

end Agrees

end Traced

/-! ## Values of names -/

/-- The scopes have the same values, but for those of hidden names. -/
structure Scope.AgreeOff (hidden : String → Prop) (scope other : Scope) : Prop where
  bareNames : other.bareNames = scope.bareNames
  value? : ∀ name, ¬hidden name → other.value? name = scope.value? name

variable {hidden : String → Prop} {scope other : Scope}

namespace Expr

theorem bareValue?_congr (h : scope.AgreeOff hidden other) {name : String} (hname : ¬hidden name) :
    bareValue? other name = bareValue? scope name := by
  rw [bareValue?, bareValue?, h.bareNames, h.value? name hname]

mutual

/-- The value of an expression is that of its names. -/
theorem eval_congr (h : scope.AgreeOff hidden other) {e : Expr}
    (he : ∀ name ∈ e.references, ¬hidden name) : eval other e = eval scope e := by
  cases e with
  | number value => rfl
  | parameter name =>
      rw [eval, eval, h.value? name (he name (List.mem_singleton_self name))]
  | bare name =>
      rw [eval, eval, bareValue?_congr h (he name (List.mem_singleton_self name))]
  | call function args => rw [eval, eval, evalAll_congr h he]
  | neg operand =>
      have hoperand : eval other operand = eval scope operand := eval_congr h he
      rw [eval, eval, hoperand]
  | binary op left right =>
      rw [references, List.forall_mem_append] at he
      rw [eval, eval, eval_congr h he.1, eval_congr h he.2]

theorem evalAll_congr (h : scope.AgreeOff hidden other) {es : List Expr}
    (hes : ∀ name ∈ allReferences es, ¬hidden name) : evalAll other es = evalAll scope es := by
  cases es with
  | nil => rfl
  | cons e es =>
      rw [allReferences, List.forall_mem_append] at hes
      rw [evalAll, evalAll, eval_congr h hes.1, evalAll_congr h hes.2]

end

end Expr

namespace Scope

variable {text : String}

theorem evaluate_congr (h : scope.AgreeOff hidden other)
    (ht : ∀ name ∈ (Use.evaluated text).names, ¬hidden name) :
    other.evaluate text = scope.evaluate text := by
  rw [evaluate, evaluate, Expr.evalText, Expr.evalText]
  rw [Use.names] at ht
  cases hparse : Expr.parse? text.toList with
  | none => rfl
  | some e =>
      rw [hparse] at ht
      dsimp only
      rw [Expr.eval_congr h ht]

theorem substitute_congr (h : scope.AgreeOff hidden other)
    (ht : ∀ name ∈ (Use.substituted text).names, ¬hidden name) :
    other.substitute text = scope.substitute text := by
  have hfill : ∀ pieces : List Substitution.Piece, (∀ piece ∈ pieces, ∀ name,
      piece = .reference name → ¬hidden name) →
      pieces.mapM (Substitution.fill other.value?) =
        pieces.mapM (Substitution.fill scope.value?) := by
    intro pieces hpieces
    induction pieces with
    | nil => rfl
    | cons piece pieces ih =>
        rw [List.forall_mem_cons] at hpieces
        rw [List.mapM_cons, List.mapM_cons, ih hpieces.2]
        cases piece with
        | char c => rfl
        | reference name =>
            rw [Substitution.fill, Substitution.fill, h.value? name (hpieces.1 name rfl)]
  rw [substitute, substitute, Substitution.substitute, Substitution.substitute, hfill]
  rintro piece hpiece name rfl
  exact ht name (List.mem_filterMap.mpr ⟨_, hpiece, rfl⟩)

/-- `evaluate` with its trace. -/
def traceEvaluate (scope : Scope) (text : String) : Traced Issue Float :=
  ⟨[.evaluated text], scope.evaluate text⟩

/-- `substitute` with its trace. -/
def traceSubstitute (scope : Scope) (text : String) : Traced Issue String :=
  ⟨[.substituted text], scope.substitute text⟩

theorem AgreeOff.evaluate (h : scope.AgreeOff hidden other) (text : String) :
    Traced.Agrees hidden Eq (scope.traceEvaluate text) (other.evaluate text) := by
  intro havoids
  rw [evaluate_congr h (havoids _ (List.mem_singleton_self _))]
  exact .of_eq rfl

theorem AgreeOff.substitute (h : scope.AgreeOff hidden other) (text : String) :
    Traced.Agrees hidden Eq (scope.traceSubstitute text) (other.substitute text) := by
  intro havoids
  rw [substitute_congr h (havoids _ (List.mem_singleton_self _))]
  exact .of_eq rfl

end Scope

end CadTimeline
