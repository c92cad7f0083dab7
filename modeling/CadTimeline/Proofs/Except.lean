import Mathlib.Data.List.Forall2

/-!
# Successful computations

What must have happened when a computation that can fail has a result.
-/

namespace CadTimeline

variable {ε ε' α β : Type}

theorem bind_eq_ok {x : Except ε α} {f : α → Except ε β} {b : β} :
    x >>= f = .ok b ↔ ∃ a, x = .ok a ∧ f a = .ok b := by
  cases x with
  | error e => simp [bind, Except.bind]
  | ok a => simp [bind, Except.bind]

theorem bind_ne_error {x : Except ε α} {f : α → Except ε β} {e : ε} (hx : x ≠ .error e)
    (hf : ∀ a, f a ≠ .error e) : x >>= f ≠ .error e := by
  cases x with
  | error e' => simpa [bind, Except.bind] using hx
  | ok a => exact hf a

theorem mapError_ne_error {x : Except ε α} {f : ε → ε'} {e' : ε'}
    (h : ∀ e, x = .error e → f e ≠ e') : x.mapError f ≠ .error e' := by
  cases x with
  | error e => simpa [Except.mapError] using h e rfl
  | ok a => simp [Except.mapError]

theorem pure_eq_ok {a b : α} : (pure a : Except ε α) = .ok b ↔ a = b := by
  simp [pure, Except.pure]

/-- A check that fails leaves no result. -/
theorem check_eq_ok {c : Bool} {e : ε} {f : α → Except ε β} {x : Except ε β} {b : β} :
    (if c = true then throw e >>= f else x) = .ok b ↔ c = false ∧ x = .ok b := by
  cases c with
  | true => simp [throw, throwThe, MonadExceptOf.throw, bind, Except.bind]
  | false => simp

theorem check_ne_error {c : Bool} {e e' : ε} {f : α → Except ε β} {x : Except ε β} (he : e ≠ e')
    (hx : c = false → x ≠ .error e') :
    (if c = true then throw e >>= f else x) ≠ .error e' := by
  cases c with
  | true => simpa [throw, throwThe, MonadExceptOf.throw, bind, Except.bind] using he
  | false => simpa using hx rfl

theorem exists_of_isOk {x : Except ε α} (h : x.isOk = true) : ∃ a, x = .ok a := by
  cases x with
  | ok a => exact ⟨a, rfl⟩
  | error e => contradiction

theorem toOption_eq_some {x : Except ε α} {a : α} : x.toOption = some a ↔ x = .ok a := by
  cases x <;> simp [Except.toOption]

theorem exists_of_toOption_any {x : Except ε α} {p : α → Bool} (h : x.toOption.any p = true) :
    ∃ a, x = .ok a ∧ p a = true := by
  cases x with
  | error e => contradiction
  | ok a => exact ⟨a, rfl, h⟩

/-- What holds of the result, if there is one. -/
theorem of_toOption_all {x : Except ε α} {p : α → Bool} (h : x.toOption.all p = true) {a : α}
    (ha : x = .ok a) : p a = true := by
  rwa [ha] at h

theorem map_eq_ok {x : Except ε α} {f : α → β} {b : β} :
    x.map f = .ok b ↔ ∃ a, x = .ok a ∧ f a = b := by
  cases x <;> simp [Except.map]

theorem mapError_eq_ok {x : Except ε α} {f : ε → ε'} {a : α} :
    x.mapError f = .ok a ↔ x = .ok a := by
  cases x <;> simp [Except.mapError]

/-- Every element was read, in order. -/
theorem mapM_eq_ok {f : α → Except ε β} {xs : List α} {ys : List β} :
    xs.mapM f = .ok ys ↔ List.Forall₂ (fun x y => f x = .ok y) xs ys := by
  induction xs generalizing ys with
  | nil => simp [pure, Except.pure, eq_comm]
  | cons x xs ih =>
      rw [List.mapM_cons, List.forall₂_cons_left_iff]
      simp only [bind_eq_ok, pure_eq_ok, ih]
      constructor
      · rintro ⟨y, hy, ys, hys, rfl⟩
        exact ⟨y, ys, hy, hys, rfl⟩
      · rintro ⟨y, ys, hy, hys, rfl⟩
        exact ⟨y, hy, ys, hys, rfl⟩

theorem mapM_ne_error {f : α → Except ε β} {xs : List α} {e : ε}
    (h : ∀ x ∈ xs, f x ≠ .error e) : xs.mapM f ≠ .error e := by
  induction xs with
  | nil => exact nofun
  | cons x xs ih =>
      rw [List.forall_mem_cons] at h
      rw [List.mapM_cons]
      exact bind_ne_error h.1 fun _ => bind_ne_error (ih h.2) nofun

theorem foldlM_ne_error {f : β → α → Except ε β} {b : β} {xs : List α} {e : ε}
    (h : ∀ b x, f b x ≠ .error e) : xs.foldlM f b ≠ .error e := by
  induction xs generalizing b with
  | nil => exact nofun
  | cons x xs ih =>
      rw [List.foldlM_cons]
      exact bind_ne_error (h b x) fun _ => ih

theorem exists_of_mem_forall₂ {R : α → β → Prop} {xs : List α} {ys : List β}
    (h : List.Forall₂ R xs ys) {x : α} (hx : x ∈ xs) : ∃ y ∈ ys, R x y := by
  induction h with
  | nil => exact absurd hx List.not_mem_nil
  | cons hxy _ ih =>
      rcases List.mem_cons.mp hx with rfl | hx
      · exact ⟨_, List.mem_cons_self, hxy⟩
      · obtain ⟨y, hmem, hy⟩ := ih hx
        exact ⟨y, List.mem_cons_of_mem _ hmem, hy⟩

theorem exists_of_mem_right_forall₂ {R : α → β → Prop} {xs : List α} {ys : List β}
    (h : List.Forall₂ R xs ys) {y : β} (hy : y ∈ ys) : ∃ x ∈ xs, R x y :=
  exists_of_mem_forall₂ (R := fun y x => R x y) h.flip hy

/-- Where each element has an image, the list has one. -/
theorem forall_exists_iff_forall₂ {R : α → β → Prop} {xs : List α} :
    (∀ x ∈ xs, ∃ y, R x y) ↔ ∃ ys, List.Forall₂ R xs ys := by
  constructor
  · intro h
    induction xs with
    | nil => exact ⟨[], .nil⟩
    | cons x xs ih =>
        rw [List.forall_mem_cons] at h
        obtain ⟨⟨y, hy⟩, hrest⟩ := h
        obtain ⟨ys, hys⟩ := ih hrest
        exact ⟨y :: ys, .cons hy hys⟩
  · rintro ⟨ys, h⟩ x hx
    obtain ⟨y, -, hy⟩ := exists_of_mem_forall₂ h hx
    exact ⟨y, hy⟩

theorem exists_of_mem_mapM {f : α → Except ε β} {xs : List α} {ys : List β}
    (h : xs.mapM f = .ok ys) {y : β} (hy : y ∈ ys) : ∃ x ∈ xs, f x = .ok y :=
  exists_of_mem_right_forall₂ (mapM_eq_ok.mp h) hy

theorem foldlM_cons_eq_ok {f : β → α → Except ε β} {b c : β} {x : α} {xs : List α} :
    (x :: xs).foldlM f b = .ok c ↔ ∃ a, f b x = .ok a ∧ xs.foldlM f a = .ok c := by
  rw [List.foldlM_cons, bind_eq_ok]

/-- Induction over a fold with a result, where each step comes before those of the rest. -/
@[elab_as_elim]
theorem foldlM_induction {f : β → α → Except ε β} {c : β}
    {motive : ∀ b (xs : List α), xs.foldlM f b = .ok c → Prop}
    (nil : motive c [] rfl)
    (cons : ∀ {b x a xs} (hx : f b x = .ok a) (hxs : xs.foldlM f a = .ok c), motive a xs hxs →
      motive b (x :: xs) (foldlM_cons_eq_ok.mpr ⟨a, hx, hxs⟩))
    {b : β} {xs : List α} (h : xs.foldlM f b = .ok c) : motive b xs h := by
  induction xs generalizing b with
  | nil =>
      cases h
      exact nil
  | cons x xs ih =>
      obtain ⟨a, hx, hxs⟩ := foldlM_cons_eq_ok.mp h
      exact cons hx hxs (ih hxs)

end CadTimeline
