import CadTimeline.Proofs.Except

/-!
# Computations that correspond

Two computations that can fail are alike when both have a result or both fail, and the
results, or the faults, are related. Computations made of alike parts are alike.
-/

namespace CadTimeline

variable {ε ε' η η' α β γ δ : Type}

/-- Both have results that are related, or both fail with faults that are. -/
inductive Alike (E : ε → ε' → Prop) (R : α → β → Prop) : Except ε α → Except ε' β → Prop
  | ok {a : α} {b : β} (h : R a b) : Alike E R (.ok a) (.ok b)
  | error {e : ε} {e' : ε'} (h : E e e') : Alike E R (.error e) (.error e')

namespace Alike

variable {E : ε → ε' → Prop} {R : α → β → Prop} {x : Except ε α} {y : Except ε' β}

theorem isOk_eq (h : Alike E R x y) : x.isOk = y.isOk := by
  cases h <;> rfl

theorem imp {E' : ε → ε' → Prop} {R' : α → β → Prop} (h : Alike E R x y)
    (he : ∀ e e', E e e' → E' e e') (hr : ∀ a b, R a b → R' a b) : Alike E' R' x y := by
  cases h with
  | ok h => exact .ok (hr _ _ h)
  | error h => exact .error (he _ _ h)

/-- A computation is like itself. -/
theorem refl {E : ε → ε → Prop} {R : α → α → Prop} (he : ∀ e, E e e) (hr : ∀ a, R a a)
    (x : Except ε α) : Alike E R x x := by
  cases x with
  | ok a => exact .ok (hr a)
  | error e => exact .error (he e)

theorem of_eq {x y : Except ε α} (h : x = y) : Alike Eq Eq x y :=
  h ▸ refl (fun _ => rfl) (fun _ => rfl) x

theorem bind_of_ok {S : γ → δ → Prop} {f : α → Except ε γ} {g : β → Except ε' δ}
    (h : Alike E R x y) (hf : ∀ a b, x = .ok a → y = .ok b → R a b → Alike E S (f a) (g b)) :
    Alike E S (x >>= f) (y >>= g) := by
  cases h with
  | ok h => exact hf _ _ rfl rfl h
  | error h => exact .error h

theorem bind {S : γ → δ → Prop} {f : α → Except ε γ} {g : β → Except ε' δ} (h : Alike E R x y)
    (hf : ∀ a b, R a b → Alike E S (f a) (g b)) : Alike E S (x >>= f) (y >>= g) :=
  h.bind_of_ok fun a b _ _ hab => hf a b hab

/-- Behind computations with the same result, it is enough to go on from each result. -/
theorem bind_eq {S : γ → δ → Prop} {y : Except ε' α} {f : α → Except ε γ} {g : α → Except ε' δ}
    (h : Alike E Eq x y) (hf : ∀ a, Alike E S (f a) (g a)) : Alike E S (x >>= f) (y >>= g) :=
  h.bind fun a _ hab => hab ▸ hf a

/-- Where `r` takes each result to the other one, it is enough to go on from each result. -/
theorem bind_map {S : γ → δ → Prop} {f : α → Except ε γ} {g : β → Except ε' δ} {r : α → β}
    (h : Alike E (fun a b => b = r a) x y) (hf : ∀ a, Alike E S (f a) (g (r a))) :
    Alike E S (x >>= f) (y >>= g) :=
  h.bind fun a _ hab => hab ▸ hf a

theorem map {S : γ → δ → Prop} {f : α → γ} {g : β → δ} (h : Alike E R x y)
    (hf : ∀ a b, R a b → S (f a) (g b)) : Alike E S (x.map f) (y.map g) := by
  cases h with
  | ok h => exact .ok (hf _ _ h)
  | error h => exact .error h

theorem mapError {H : η → η' → Prop} {f : ε → η} {g : ε' → η'} (h : Alike E R x y)
    (hf : ∀ e e', E e e' → H (f e) (g e')) : Alike H R (x.mapError f) (y.mapError g) := by
  cases h with
  | ok h => exact .ok h
  | error h => exact .error (hf _ _ h)

theorem ite {c : Prop} [Decidable c] {x' : Except ε α} {y' : Except ε' β}
    (h : c → Alike E R x y) (h' : ¬c → Alike E R x' y') :
    Alike E R (if c then x else x') (if c then y else y') := by
  by_cases hc : c
  · rw [if_pos hc, if_pos hc]
    exact h hc
  · rw [if_neg hc, if_neg hc]
    exact h' hc

variable {xs : List γ} {k : γ → δ}

/-- Elements that are read alike, where `r` takes each result to the other one. -/
theorem mapM_map {f : γ → Except ε α} {g : δ → Except ε' β} {r : α → β}
    (h : ∀ c, Alike E (fun a b => b = r a) (f c) (g (k c))) :
    Alike E (fun as bs => bs = as.map r) (xs.mapM f) ((xs.map k).mapM g) := by
  induction xs with
  | nil => exact .ok rfl
  | cons c xs ih =>
      rw [List.map_cons, List.mapM_cons, List.mapM_cons]
      exact (h c).bind_map fun a => ih.bind_map fun as => .ok rfl

/-- A run whose every step `r` takes to a step of the other one. -/
theorem foldlM_map {f : α → γ → Except ε α} {g : β → δ → Except ε' β} {r : α → β}
    (h : ∀ a c, Alike E (fun a b => b = r a) (f a c) (g (r a) (k c))) (a : α) :
    Alike E (fun a b => b = r a) (xs.foldlM f a) ((xs.map k).foldlM g (r a)) := by
  induction xs generalizing a with
  | nil => exact .ok rfl
  | cons c xs ih =>
      rw [List.map_cons, List.foldlM_cons, List.foldlM_cons]
      exact (h a c).bind_map ih

end Alike

end CadTimeline
