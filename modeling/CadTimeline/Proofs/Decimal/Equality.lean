import CadTimeline.Proofs.Binary64.Equality
import CadTimeline.Proofs.Decimal.Finite

/-!
# Numbers of one text

Two numbers are written alike only if they are one number, or if both are zero.
-/

namespace CadTimeline.Number

open Binary64

/-- The numbers are one, but for the sign of a zero. -/
def Coincide (x y : Float) : Prop :=
  x = y ∨ (x == 0) = true ∧ (y == 0) = true

theorem Coincide.symm {x y : Float} (h : Coincide x y) : Coincide y x :=
  h.imp Eq.symm And.symm

theorem Coincide.trans {x y z : Float} (hxy : Coincide x y) (hyz : Coincide y z) :
    Coincide x z := by
  rcases hxy with rfl | ⟨hx, hy⟩
  · exact hyz
  · rcases hyz with rfl | ⟨-, hz⟩
    · exact .inr ⟨hx, hy⟩
    · exact .inr ⟨hx, hz⟩

theorem plain_eq_of_coincide {x y : Float} (h : Coincide x y) : plain x = plain y := by
  rcases h with rfl | ⟨hx, hy⟩
  · rfl
  · rw [plain, plain, if_pos hx, if_pos hy]

/-- A finite number is read back from its text, but for the sign of a zero. -/
theorem coincide_of_finite {x y : Float} (hx : x.isFinite = true) (hy : y.isFinite = true)
    (h : plain x = plain y) : Coincide x y := by
  have hread : ∀ {x : Float}, x.isFinite = true → Coincide x (unsignedZero x) :=
    eq_unsignedZero_or
  have hsame : unsignedZero x = unsignedZero y := by
    have hvalue := evalText_plain hx ⟨fun _ => none, .constantsOnly⟩
    rw [h, evalText_plain hy] at hvalue
    exact (Except.ok.inj hvalue).symm
  have hback := (hread hy).symm
  rw [← hsame] at hback
  exact (hread hx).trans hback

/-- The doubles that are not finite. -/
def specials : List Float :=
  [ofUnpacked .notANumber, ofUnpacked (.infinity .positive), ofUnpacked (.infinity .negative)]

theorem mem_specials {x : Float} (h : x.isFinite = false) : x ∈ specials := by
  have hstatus : x.toModel.unpack.isFinite = false := h
  rw [← ofUnpacked_unpack x]
  cases hx : x.toModel.unpack with
  | notANumber => simp [specials]
  | infinity s => cases s <;> simp [specials]
  | zero s =>
      rw [hx] at hstatus
      contradiction
  | finite s m e hm =>
      rw [hx] at hstatus
      contradiction

/-- Numbers are written alike exactly when they are one, but for the sign of a zero. -/
theorem plain_eq_iff {x y : Float} : plain x = plain y ↔ Coincide x y := by
  refine ⟨fun h => ?_, plain_eq_of_coincide⟩
  have hfinite : x.isFinite = true ↔ y.isFinite = true := by
    rw [← isPlainDecimal_plain_iff, h, isPlainDecimal_plain_iff]
  by_cases hx : x.isFinite = true
  · exact coincide_of_finite hx (hfinite.mp hx) h
  · have hspecials : ∀ x ∈ specials, ∀ y ∈ specials, plain x = plain y → x = y := by
      decide +kernel
    have hy := mt hfinite.mpr hx
    rw [Bool.not_eq_true] at hx hy
    exact .inl (hspecials x (mem_specials hx) y (mem_specials hy) h)

end CadTimeline.Number
