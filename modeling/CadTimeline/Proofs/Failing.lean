import CadTimeline.Proofs.Except

/-!
# Failing computations

Of two computations in a row, the error is that of the first one if it fails. The error of a
traversal is that of the first element at which it fails.
-/

namespace CadTimeline

variable {ε α β : Type}

/-- The error of a computation, if it fails. -/
def error? : Except ε α → Option ε
  | .ok _ => none
  | .error e => some e

theorem error?_eq_some {x : Except ε α} {e : ε} : error? x = some e ↔ x = .error e := by
  cases x <;> simp [error?]

theorem error?_eq_none {x : Except ε α} : error? x = none ↔ ∃ a, x = .ok a := by
  cases x <;> simp [error?]

theorem error?_map {x : Except ε α} {f : α → β} : error? (x.map f) = error? x := by
  cases x <;> rfl

/-- Whatever the result of the first computation, the second one fails in the same way. -/
theorem error?_bind {x : Except ε α} {f : α → Except ε β} {e? : Option ε}
    (hf : ∀ a, x = .ok a → error? (f a) = e?) : error? (x >>= f) = (error? x).or e? := by
  cases x with
  | error e => rfl
  | ok a => exact hf a rfl

theorem error?_bind_pure {x : Except ε α} {f : α → β} :
    error? (x >>= fun a => pure (f a)) = error? x := by
  cases x <;> rfl

theorem error?_mapM {f : α → Except ε β} {xs : List α} :
    error? (xs.mapM f) = xs.findSome? fun x => error? (f x) := by
  induction xs with
  | nil => rfl
  | cons x xs ih =>
      have hrest : ∀ y, error? (xs.mapM f >>= fun ys => pure (y :: ys)) =
          xs.findSome? fun x => error? (f x) := by
        intro y
        rw [error?_bind_pure, ih]
      rw [List.mapM_cons, error?_bind fun y _ => hrest y, List.findSome?_cons]
      cases error? (f x) <;> rfl

/-! ## Where the error comes from -/

theorem bind_eq_error {x : Except ε α} {f : α → Except ε β} {e : ε} :
    x >>= f = .error e ↔ x = .error e ∨ ∃ a, x = .ok a ∧ f a = .error e := by
  cases x with
  | error e' => simp [bind, Except.bind]
  | ok a => simp [bind, Except.bind]

theorem mapError_eq_error {ε' : Type} {x : Except ε α} {f : ε → ε'} {e' : ε'} :
    x.mapError f = .error e' ↔ ∃ e, x = .error e ∧ f e = e' := by
  cases x <;> simp [Except.mapError]

theorem exists_of_mapM_eq_error {f : α → Except ε β} {xs : List α} {e : ε}
    (h : xs.mapM f = .error e) : ∃ x ∈ xs, f x = .error e := by
  rw [← error?_eq_some, error?_mapM] at h
  obtain ⟨x, hx, he⟩ := List.exists_of_findSome?_eq_some h
  exact ⟨x, hx, error?_eq_some.mp he⟩

end CadTimeline
