import CadTimeline.Binary64.Whole
import CadTimeline.Proofs.Binary64.Bits
import CadTimeline.Proofs.Decimal.RoundTrip

/-!
# Finite results

Two operations that leave the finite doubles to themselves: rounding to a whole number, and
dividing by one hundred.
-/

namespace CadTimeline.Binary64

open Float.Model (Format UnpackedFloat)
open Float.Model.UnpackedFloat

/-! ## Packed doubles -/

theorem isFinite_unpack_iff (b : BitVec 64) :
    (UnpackedFloat.unpack Format.binary64 b).isFinite = true ↔
      @unpackExponent Format.binary64 b ≠ -1#_ := by
  unfold UnpackedFloat.unpack
  dsimp only
  by_cases htop : @unpackExponent Format.binary64 b = -1#_
  · rw [if_pos htop]
    refine iff_of_false ?_ fun hne => hne htop
    split
    · exact Bool.false_ne_true
    · exact Bool.false_ne_true
  · rw [if_neg htop]
    refine iff_of_true ?_ htop
    by_cases hzero : @unpackExponent Format.binary64 b = 0#_
    · rw [if_pos hzero]
      by_cases hmantissa : @unpackMantissa Format.binary64 b = 0#_
      · rw [dif_pos hmantissa]
        rfl
      · rw [dif_neg hmantissa]
        rfl
    · rw [if_neg hzero]
      rfl

/-- What is packed as a finite double. -/
def IsPackable : UnpackedFloat → Prop
  | .zero _ => True
  | .finite _ _ e _ => e ≤ 971
  | _ => False

theorem isFinite_pack_iff (u : UnpackedFloat) :
    (UnpackedFloat.unpack Format.binary64 (UnpackedFloat.pack Format.binary64 u)).isFinite = true ↔
      IsPackable u := by
  have htop : ∀ sign m, ¬@unpackExponent Format.binary64
      (packComponents Format.binary64 sign (-1#_) m) ≠ -1#_ := by
    intro sign m hne
    exact hne unpackExponent_packComponents
  rw [isFinite_unpack_iff]
  cases u with
  | notANumber => exact iff_of_false (htop _ _) id
  | infinity sign => exact iff_of_false (htop _ _) id
  | zero sign =>
      unfold UnpackedFloat.pack packedZero
      rw [unpackExponent_packComponents]
      exact iff_of_true (by decide) trivial
  | finite sign m e hm =>
      have hbiased : (e + Format.binary64.exponentBias +
          Format.binary64.mantissaBitsWithoutImplicit).toNat = (e + 1075).toNat := by
        show (e + (1023 : Nat) + (52 : Nat)).toNat = _
        omega
      have hpackable : IsPackable (.finite sign m e hm) ↔ e ≤ 971 := Iff.rfl
      rw [hpackable]
      unfold UnpackedFloat.pack
      dsimp only
      rw [hbiased]
      by_cases hlarge : 2 ^ 11 ≤ (e + 1075).toNat + 1
      · rw [if_pos hlarge]
        exact iff_of_false (htop _ _) (by omega)
      · rw [if_neg hlarge]
        refine iff_of_true ?_ (by omega)
        split
        · rw [unpackExponent_packComponents]
          intro heq
          have hnat := congrArg BitVec.toNat heq
          have hlt : (e + 1075).toNat < 2 ^ 11 := by omega
          rw [BitVec.toNat_ofNat, Nat.mod_eq_of_lt hlt] at hnat
          change _ = 2047 at hnat
          omega
        · rw [unpackExponent_packComponents]
          decide

/-- The parts of a finite double that is not zero lie below `2 ^ 1024`. -/
theorem log2_unpacked_le {negative : Bool} {rank m : Nat} {e : Int} {sign : Sign} {hm : 0 < m}
    (hr : rank < infinityRank) (h : unpacked negative rank = .finite sign m e hm) :
    (m.log2 : Int) + e ≤ 1023 := by
  rw [infinityRank_eq] at hr
  unfold unpacked at h
  by_cases hrank : 0 < rank
  · rw [dif_pos hrank] at h
    by_cases hsmall : rank < 2 ^ 52
    · rw [if_pos hsmall] at h
      cases h
      have hlog := (Nat.log2_lt (Nat.ne_of_gt hm)).mpr hsmall
      omega
    · rw [if_neg hsmall] at h
      cases h
      have hlog := (Nat.log2_lt (Nat.ne_of_gt hm)).mpr
        (show 2 ^ 52 + rank % 2 ^ 52 < 2 ^ 53 by omega)
      omega
  · rw [dif_neg hrank] at h
    contradiction

/-! ## Rounding a mantissa -/

theorem mantissa_shiftRight (extended : ExtendedMantissa) (n : Nat) :
    (extended >>> n).mantissa = extended.mantissa / 2 ^ n := by
  show (n.repeat ExtendedMantissa.shiftRightOne extended).mantissa = _
  induction n with
  | zero => simp [Nat.repeat]
  | succ n ih =>
      rw [Nat.repeat, ExtendedMantissa.shiftRightOne, ih, Nat.div_div_eq_div_mul, Nat.pow_succ]

theorem mantissa_ofMantissaAndAccuracy (m : Nat) (accuracy : Accuracy) :
    (ExtendedMantissa.ofMantissaAndAccuracy m accuracy).mantissa = m := by
  unfold ExtendedMantissa.ofMantissaAndAccuracy
  split <;> rfl

theorem roundedMantissa_le (extended : ExtendedMantissa) :
    extended.roundedMantissa ≤ extended.mantissa + 1 := by
  unfold ExtendedMantissa.roundedMantissa Accuracy.roundToNearestEven
  split <;> omega

/-- Where a shift moves the exponent to. -/
theorem exponent_shiftToTargetExponent (m : Nat) (e : Int) (accuracy : Accuracy) :
    (shiftToTargetExponent Format.binary64 m e accuracy).2 =
      max e (max ((m.log2 : Int) + e - 52) (-1074)) := by
  have htarget : Format.binary64.targetExponent (Float.Model.totalExponent m e) =
      max ((m.log2 : Int) + e - 52) (-1074) := by
    show max ((m.log2 : Int) + 1 + e - (53 : Nat)) (-1074) = _
    omega
  unfold shiftToTargetExponent shiftToExponent
  dsimp only
  rw [htarget]
  omega

/-- The mantissa loses as many bits as the exponent grows. -/
theorem exists_mantissa_shiftToTargetExponent (m : Nat) (e : Int) (accuracy : Accuracy) :
    ∃ s : Nat, (shiftToTargetExponent Format.binary64 m e accuracy).2 = e + s ∧
      (shiftToTargetExponent Format.binary64 m e accuracy).1.mantissa = m / 2 ^ s := by
  refine ⟨_, rfl, ?_⟩
  unfold shiftToTargetExponent shiftToExponent
  rw [mantissa_shiftRight, mantissa_ofMantissaAndAccuracy]

theorem log2_succ_div_le (m s : Nat) : (m / 2 ^ s + 1).log2 ≤ m.log2 + 1 - s := by
  have hm : m < 2 ^ s * 2 ^ (m.log2 + 1 - s) := by
    rw [← Nat.pow_add]
    exact Nat.lt_log2_self.trans_le (Nat.pow_le_pow_right (by decide) (by omega))
  have hquotient : m / 2 ^ s < 2 ^ (m.log2 + 1 - s) := Nat.div_lt_of_lt_mul hm
  rw [← Nat.lt_succ_iff, Nat.log2_lt (Nat.succ_ne_zero _)]
  exact Nat.lt_of_le_of_lt hquotient (Nat.pow_lt_pow_succ (by decide))

theorem log2_le_of_le {m n : Nat} (h : m ≤ n + 1) : m.log2 ≤ (n + 1).log2 := by
  by_cases hzero : m = 0
  · rw [hzero, Nat.log2_zero]
    exact Nat.zero_le _
  · rw [Nat.le_log2 (Nat.succ_ne_zero n)]
    exact (Nat.log2_self_le hzero).trans h

/-- What lies below `2 ^ 1023` is still finite when it is rounded. -/
theorem isPackable_roundWithAccuracy {sign : Sign} {m : Nat} {e : Int} {accuracy : Accuracy}
    (he : e ≤ 970) (hm : (m.log2 : Int) + e ≤ 1022) :
    IsPackable (roundWithAccuracy Format.binary64 sign m e accuracy) := by
  obtain ⟨s, hexponent, hmantissa⟩ := exists_mantissa_shiftToTargetExponent m e accuracy
  have htarget := exponent_shiftToTargetExponent m e accuracy
  unfold roundWithAccuracy
  dsimp only
  generalize shiftToTargetExponent Format.binary64 m e accuracy = shifted at *
  have hrounded := roundedMantissa_le shifted.1
  rw [hmantissa] at hrounded
  have hlog := (log2_le_of_le hrounded).trans (log2_succ_div_le m s)
  by_cases hzero : (shiftToTargetExponent Format.binary64 shifted.1.roundedMantissa shifted.2
      Accuracy.exact).1.mantissa = 0
  · rw [dif_pos hzero]
    trivial
  · rw [dif_neg hzero]
    show (shiftToTargetExponent _ _ _ _).2 ≤ 971
    rw [exponent_shiftToTargetExponent]
    omega

/-! ## One hundredth -/

/-- One hundred taken apart. -/
theorem unpack_hundred :
    (100.0 : Float).toModel.unpack = .finite .positive (100 * 2 ^ 46) (-46) (by decide) :=
  rfl

theorem isFinite_div (x y : Float) : (x / y).isFinite =
    (UnpackedFloat.unpack Format.binary64 (UnpackedFloat.pack Format.binary64
      (UnpackedFloat.div Format.binary64 x.toModel.unpack y.toModel.unpack))).isFinite :=
  rfl

theorem log2_div_le {m n j k : Nat} (hm : m < 2 ^ j) (hn : 2 ^ k ≤ n) :
    (m / n).log2 ≤ j - k := by
  have hproduct : m < n * 2 ^ (j - k) :=
    calc m < 2 ^ j := hm
      _ ≤ 2 ^ (k + (j - k)) := Nat.pow_le_pow_right (by decide) (by omega)
      _ = 2 ^ k * 2 ^ (j - k) := Nat.pow_add 2 k (j - k)
      _ ≤ n * 2 ^ (j - k) := Nat.mul_le_mul_right _ hn
  by_cases hzero : m / n = 0
  · rw [hzero, Nat.log2_zero]
    exact Nat.zero_le _
  · exact Nat.le_of_lt ((Nat.log2_lt hzero).mpr (Nat.div_lt_of_lt_mul hproduct))

theorem isPackable_div_hundred {sign : Sign} {m : Nat} {e : Int} {hm : 0 < m}
    (h : (m.log2 : Int) + e ≤ 1023) :
    IsPackable (UnpackedFloat.div Format.binary64 (.finite sign m e hm)
      (.finite .positive (100 * 2 ^ 46) (-46) (by decide))) := by
  have hexponent : Float.Model.totalExponent (100 * 2 ^ 46) (-46) = 7 := by decide
  have htarget : Format.binary64.targetExponent
      (Float.Model.totalExponent m e - Float.Model.totalExponent (100 * 2 ^ 46) (-46)) ≤ 964 := by
    rw [hexponent]
    show max ((m.log2 : Int) + 1 + e - 7 - (53 : Nat)) (-1074) ≤ 964
    omega
  unfold UnpackedFloat.div divCore
  dsimp only
  generalize Format.binary64.targetExponent _ = target at htarget ⊢
  have hlog : ∀ s : Nat, (m <<< s / (100 * 2 ^ 46)).log2 ≤ m.log2 + 1 + s - 52 := by
    intro s
    refine log2_div_le ?_ (by decide)
    rw [Nat.shiftLeft_eq, Nat.pow_add]
    exact Nat.mul_lt_mul_of_pos_right Nat.lt_log2_self (Nat.two_pow_pos s)
  apply isPackable_roundWithAccuracy
  · omega
  · have hbits := hlog (e - -46 - min (e - -46) target).toNat
    omega

/-- A hundredth of a finite double is finite, and that of no other one is. -/
theorem isFinite_div_hundred_iff {x : Float} :
    (x / 100.0).isFinite = true ↔ x.isFinite = true := by
  rw [isFinite_div, isFinite_pack_iff, unpack_hundred]
  constructor
  · intro h
    by_contra hfinite
    have hunpacked : x.toModel.unpack.isFinite = false := Bool.not_eq_true _ ▸ hfinite
    cases hx : x.toModel.unpack with
    | notANumber =>
        rw [hx] at h
        exact h
    | infinity sign =>
        rw [hx] at h
        exact h
    | zero sign =>
        rw [hx] at hunpacked
        contradiction
    | finite sign m e hm =>
        rw [hx] at hunpacked
        contradiction
  · intro h
    have hr := isFinite_iff.mp h
    rw [unpack_toModel, unpack_pattern hr]
    rcases Nat.eq_zero_or_pos (rank x) with hzero | hpos
    · rw [hzero, unpacked_zero]
      trivial
    · obtain ⟨m, e, hm, hunpacked⟩ := exists_unpacked hpos
      rw [hunpacked]
      exact isPackable_div_hundred (log2_unpacked_le hr (hunpacked (isNegative x)))

/-! ## Whole numbers -/

theorem roundHalfEven_le (num den : Nat) : roundHalfEven num den ≤ num / den + 1 := by
  unfold roundHalfEven
  dsimp only
  split
  · omega
  · split <;> omega

/-- The double nearest to a whole number far from the greatest one is finite. -/
theorem nearest_lt {n : Nat} (h : (n * one).log2 ≤ 2000) : nearest n 1 < infinityRank := by
  have hnearest : nearest n 1 = min (((n * one / 1).log2 - 52) * 2 ^ 52 +
      roundHalfEven (n * one) (1 * 2 ^ ((n * one / 1).log2 - 52))) infinityRank := rfl
  rw [hnearest, Nat.div_one, Nat.one_mul, infinityRank_eq]
  generalize n * one = units at h ⊢
  have hquotient : units / 2 ^ (units.log2 - 52) < 2 ^ 53 := by
    refine Nat.div_lt_of_lt_mul ?_
    rw [← Nat.pow_add]
    exact Nat.lt_log2_self.trans_le (Nat.pow_le_pow_right (by decide) (by omega))
  have hrounded := roundHalfEven_le units (2 ^ (units.log2 - 52))
  generalize roundHalfEven units (2 ^ (units.log2 - 52)) = rounded at hrounded ⊢
  omega

/-- A double with a fraction is not large. -/
theorem units_lt_of_mod_ne {r : Nat} (h : units r % one ≠ 0) : units r < 2 ^ 52 * one := by
  by_cases hsmall : r < 2 ^ 52
  · rw [units_of_lt hsmall]
    exact hsmall.trans_le (Nat.le_mul_of_pos_right _ one_pos)
  · rw [units_of_not_lt hsmall] at h ⊢
    generalize r / 2 ^ 52 - 1 = places at h ⊢
    have hplaces : places + 1 ≤ 1074 := by
      by_contra hle
      have hlarge : 1074 ≤ places := by omega
      have hpower : one ∣ 2 ^ places := Nat.pow_dvd_pow 2 hlarge
      exact h (Nat.mod_eq_zero_of_dvd (Nat.dvd_trans hpower (Nat.dvd_mul_left _ _)))
    calc (2 ^ 52 + r % 2 ^ 52) * 2 ^ places
        < (2 ^ 52 * 2) * 2 ^ places :=
          Nat.mul_lt_mul_of_pos_right (by omega) (Nat.two_pow_pos places)
      _ = 2 ^ 52 * 2 ^ (places + 1) := by rw [Nat.mul_assoc, @Nat.pow_succ 2 places, Nat.mul_comm 2]
      _ ≤ 2 ^ 52 * one := Nat.mul_le_mul_left _ (Nat.pow_le_pow_right (by decide) hplaces)

theorem isFinite_ofRank {negative : Bool} {r : Nat} (h : r < infinityRank) :
    (ofRank negative r).isFinite = true := by
  rw [isFinite_iff, rank_ofRank h]
  exact h

/-- The whole number nearest to a finite double is finite. -/
theorem nearest_round_lt {r : Nat} (hr : r < infinityRank) :
    nearest ((2 * units r + one) / (2 * one)) 1 < infinityRank := by
  by_cases hwhole : units r % one = 0
  · obtain ⟨n, hn⟩ := Nat.dvd_of_mod_eq_zero hwhole
    have hround : (2 * units r + one) / (2 * one) = n := by
      have hsum : 2 * units r + one = one * (2 * n + 1) := by
        rw [hn, Nat.mul_add, Nat.mul_one, Nat.mul_left_comm]
      rw [hsum, Nat.mul_comm 2 one, Nat.mul_div_mul_left _ _ one_pos]
      omega
    have hexact : n * one = units r * 1 := by rw [hn, Nat.mul_one, Nat.mul_comm]
    rw [hround, nearest_of_exact (by decide) hr hexact]
    exact hr
  · apply nearest_lt
    have hsmall : (2 * units r + one) / (2 * one) < 2 ^ 53 := by
      refine Nat.div_lt_of_lt_mul ?_
      have hunits := units_lt_of_mod_ne hwhole
      have hone := one_pos
      generalize units r = n at hunits
      generalize one = unit at hunits hone ⊢
      omega
    have hproduct : (2 * units r + one) / (2 * one) * one < 2 ^ 53 * one :=
      Nat.mul_lt_mul_of_pos_right hsmall one_pos
    have hone : 2 ^ 53 * one ≤ 2 ^ 2000 := by
      unfold one
      rw [Nat.pow_eq, ← Nat.pow_add]
      exact Nat.pow_le_pow_right (by decide) (by decide)
    generalize (2 * units r + one) / (2 * one) * one = units at hproduct
    by_cases hzero : units = 0
    · rw [hzero, Nat.log2_zero]
      exact Nat.zero_le _
    · exact Nat.le_of_lt ((Nat.log2_lt hzero).mpr (hproduct.trans_le hone))

/-- A finite double rounded to a whole number is finite, and no other one is. -/
theorem isFinite_round_iff {x : Float} : (round x).isFinite = true ↔ x.isFinite = true := by
  unfold round mapWhole
  constructor
  · intro h
    by_contra hfinite
    rw [if_neg hfinite] at h
    exact hfinite h
  · intro h
    rw [if_pos h]
    exact isFinite_ofRank (nearest_round_lt (isFinite_iff.mp h))

end CadTimeline.Binary64
