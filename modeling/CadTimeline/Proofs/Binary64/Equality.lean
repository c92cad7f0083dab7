import CadTimeline.Proofs.Binary64.Bits

/-!
# Equal numbers

Numbers are equal when they are taken apart alike or are both zero. What is not a number is equal
to nothing, so equality is not reflexive; but it is transitive. A double is known by its parts,
whether it is finite or not.
-/

namespace CadTimeline.Binary64

open Float.Model (Format UnpackedFloat)
open Float.Model.UnpackedFloat

theorem compare_sign_eq {s t : Sign} : compare s t = .eq ↔ s = t := by
  cases s <;> cases t <;> simp [compare]

theorem finite_eq_of_compare {s : Sign} {m n : Nat} {e f : Int} {hm : 0 < m} {hn : 0 < n}
    (h : (compare e f).then (compare m n) = .eq) :
    UnpackedFloat.finite s m e hm = UnpackedFloat.finite s n f hn := by
  obtain ⟨hexponent, hmantissa⟩ := Ordering.then_eq_eq.mp h
  exact finite_congr (Nat.compare_eq_eq.mp hmantissa) (Int.compare_eq_eq.mp hexponent)

/-- Numbers that are equal are taken apart alike, or both are zero. -/
theorem eq_of_unpacked_beq {u v : UnpackedFloat} (h : u.beq v = true) :
    (∃ s t, u = .zero s ∧ v = .zero t) ∨ u = v := by
  have hcompare : u.compare v = some .eq := beq_iff_eq.mp h
  cases u with
  | notANumber => contradiction
  | infinity s =>
      cases v with
      | infinity t =>
          exact .inr (congrArg _ (compare_sign_eq.mp (Option.some.inj hcompare)))
      | _ => cases s <;> contradiction
  | zero s =>
      cases v with
      | notANumber => contradiction
      | zero t => exact .inl ⟨s, t, rfl, rfl⟩
      | infinity t => cases t <;> contradiction
      | finite t => cases t <;> contradiction
  | finite s =>
      cases v with
      | notANumber => contradiction
      | zero t => cases s <;> contradiction
      | infinity t => cases s <;> cases t <;> contradiction
      | finite t =>
          cases s with
          | positive =>
              cases t with
              | positive => exact .inr (finite_eq_of_compare (Option.some.inj hcompare))
              | negative => contradiction
          | negative =>
              cases t with
              | positive => contradiction
              | negative =>
                  have hswapped := Ordering.swap_eq_eq.mp (Option.some.inj hcompare)
                  exact .inr (finite_eq_of_compare hswapped)

theorem beq_trans {x y z : Float} (hxy : (x == y) = true) (hyz : (y == z) = true) :
    (x == z) = true := by
  have hmodel : ∀ w : Float, (w == z) = w.toModel.unpack.beq z.toModel.unpack := fun _ => rfl
  rw [hmodel] at hyz ⊢
  rcases eq_of_unpacked_beq hxy with ⟨s, t, hx, hy⟩ | hsame
  · -- Zeros of either sign compare alike with the third number.
    rcases eq_of_unpacked_beq hyz with ⟨_, u, -, hz⟩ | hz
    · rw [hx, hz]
      rfl
    · rw [hx, ← hz, hy]
      rfl
  · rwa [hsame]

/-! ## Doubles and their parts -/

/-- The double that is put together from its parts. -/
def ofUnpacked (u : UnpackedFloat) : Float :=
  .ofModel (Float.Model.pack u)

theorem packComponents_unpack (b : BitVec 64) :
    packComponents Format.binary64 (Sign.ofBitVec (@unpackSign Format.binary64 b))
      (@unpackExponent Format.binary64 b) (@unpackMantissa Format.binary64 b) = b := by
  have hsign : ∀ v : BitVec 1, (Sign.ofBitVec v).toBitVec = v := by decide
  have hbound := b.isLt
  apply BitVec.eq_of_toNat_eq
  rw [toNat_packComponents, hsign, toNat_unpackSign, toNat_unpackExponent, toNat_unpackMantissa]
  omega

theorem pack_unpack (x : Float) :
    UnpackedFloat.pack Format.binary64 x.toModel.unpack = x.toBits.toBitVec := by
  by_cases hfinite : rank x < infinityRank
  · rw [unpack_toModel, unpack_pattern hfinite, pack_unpacked hfinite, toBits_eq_pattern]
  · have hexponent := unpackExponent_of_le (Nat.le_of_not_lt hfinite)
    have hunpack : x.toModel.unpack = UnpackedFloat.unpack Format.binary64 x.toBits.toBitVec := rfl
    rw [← toBits_eq_pattern] at hexponent
    rw [hunpack]
    unfold UnpackedFloat.unpack
    dsimp only
    rw [if_pos hexponent]
    split
    · rename_i hmantissa
      have hbits := packComponents_unpack x.toBits.toBitVec
      rw [hexponent, hmantissa] at hbits
      exact hbits
    · -- A pattern of what is not a number is the one that was chosen for it.
      rename_i hmantissa
      exact (x.toModel.valid.eq_packedNaN hexponent hmantissa).symm

theorem ofUnpacked_unpack (x : Float) : ofUnpacked x.toModel.unpack = x := by
  apply eq_of_toBits
  apply UInt64.toBitVec_inj.mp
  exact pack_unpack x

end CadTimeline.Binary64
