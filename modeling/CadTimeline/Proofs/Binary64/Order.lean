import CadTimeline.Proofs.Binary64.Quotient
import Mathlib.Algebra.Order.Field.Rat
import Mathlib.Algebra.Order.Ring.Cast
import Mathlib.Data.Int.CharZero

/-!
# Doubles as numbers

A finite double stands for a rational number, a whole number of units of `2 ^ -1074`. Doubles are
compared as the numbers are that they stand for, and are cut to the whole parts of these.
-/

namespace CadTimeline.Binary64

open Float.Model (UnpackedFloat)
open Float.Model.UnpackedFloat

/-- The number that a finite double stands for. Other doubles stand for none; they are given
zero. -/
def toRat (x : Float) : ℚ :=
  match x.toModel.unpack with
  | .finite sign mantissa exponent _ => sign.apply mantissa * 2 ^ exponent
  | _ => 0

/-! ## Mantissas and exponents -/

def mantissa (rank : Nat) : Nat :=
  if rank < 2 ^ 52 then rank else 2 ^ 52 + rank % 2 ^ 52

def exponent (rank : Nat) : Int :=
  if rank < 2 ^ 52 then -1074 else rank / 2 ^ 52 - 1075

theorem mantissa_pos {r : Nat} (h : 0 < r) : 0 < mantissa r := by
  unfold mantissa
  split <;> omega

theorem unpacked_of_pos {r : Nat} (h : 0 < r) (negative : Bool) :
    unpacked negative r = .finite (signOf negative) (mantissa r) (exponent r) (mantissa_pos h) := by
  rw [unpacked, dif_pos h]
  by_cases hsmall : r < 2 ^ 52
  · rw [if_pos hsmall]
    exact finite_congr (if_pos hsmall).symm (if_pos hsmall).symm
  · rw [if_neg hsmall]
    exact finite_congr (if_neg hsmall).symm (if_neg hsmall).symm

theorem exponent_ge (r : Nat) : -1074 ≤ exponent r := by
  unfold exponent
  split <;> omega

theorem units_eq (r : Nat) : units r = mantissa r * 2 ^ (exponent r + 1074).toNat := by
  by_cases hsmall : r < 2 ^ 52
  · rw [units_of_lt hsmall, mantissa, exponent, if_pos hsmall, if_pos hsmall]
    exact (Nat.mul_one r).symm
  · have hplaces : ((r : Int) / 2 ^ 52 - 1075 + 1074).toNat = r / 2 ^ 52 - 1 := by omega
    rw [units_of_not_lt hsmall, mantissa, exponent, if_neg hsmall, if_neg hsmall, hplaces]

theorem units_zero : units 0 = 0 :=
  units_of_lt (by decide)

theorem apply_units_zero (sign : Sign) : sign.apply (units 0) = 0 := by
  rw [units_zero]
  cases sign <;> rfl

/-! ## Order -/

theorem units_lt_succ (r : Nat) : units r < units (r + 1) := by
  by_cases hsmall : r + 1 < 2 ^ 52
  · rw [units_of_lt (Nat.lt_of_succ_lt hsmall), units_of_lt hsmall]
    exact Nat.lt_succ_self r
  · by_cases hlast : r < 2 ^ 52
    · have hquotient : (r + 1) / 2 ^ 52 - 1 = 0 := by omega
      rw [units_of_lt hlast, units_of_not_lt hsmall, hquotient, Nat.pow_zero]
      omega
    · rw [units_of_not_lt hlast, units_of_not_lt hsmall]
      by_cases hcarry : (r + 1) % 2 ^ 52 = 0
      · have hquotient : (r + 1) / 2 ^ 52 - 1 = (r / 2 ^ 52 - 1) + 1 := by omega
        have hdouble : 2 ^ ((r + 1) / 2 ^ 52 - 1) = 2 ^ (r / 2 ^ 52 - 1) * 2 := by
          rw [hquotient]
          exact Nat.pow_succ _ _
        have hpower := Nat.two_pow_pos (r / 2 ^ 52 - 1)
        rw [hcarry, hdouble]
        generalize 2 ^ (r / 2 ^ 52 - 1) = power at hpower
        calc (2 ^ 52 + r % 2 ^ 52) * power < (2 ^ 52 * 2) * power :=
              Nat.mul_lt_mul_of_pos_right (by omega) hpower
          _ = (2 ^ 52 + 0) * (power * 2) := by omega
      · have hquotient : (r + 1) / 2 ^ 52 = r / 2 ^ 52 := by omega
        rw [hquotient]
        exact Nat.mul_lt_mul_of_pos_right (by omega) (Nat.two_pow_pos _)

theorem units_strictMono : StrictMono units :=
  strictMono_nat_of_lt_succ units_lt_succ

theorem compare_parts_of_lt {r s : Nat} (h : r < s) :
    (compare (exponent r) (exponent s)).then (compare (mantissa r) (mantissa s)) = .lt := by
  rw [Ordering.then_eq_lt, Int.compare_eq_lt, Int.compare_eq_eq, Nat.compare_eq_lt]
  unfold exponent mantissa
  split <;> split <;> omega

theorem compare_parts_of_gt {r s : Nat} (h : s < r) :
    (compare (exponent r) (exponent s)).then (compare (mantissa r) (mantissa s)) = .gt := by
  rw [Ordering.then_eq_gt, Int.compare_eq_gt, Int.compare_eq_eq, Nat.compare_eq_gt]
  unfold exponent mantissa
  split <;> split <;> omega

theorem compare_parts (r s : Nat) :
    (compare (exponent r) (exponent s)).then (compare (mantissa r) (mantissa s)) =
      compare (units r : Int) (units s) := by
  rcases Nat.lt_trichotomy r s with h | rfl | h
  · rw [compare_parts_of_lt h, Int.compare_eq_lt.mpr (Int.ofNat_lt.mpr (units_strictMono h))]
  · rw [Int.compare_eq_eq.mpr rfl, Int.compare_eq_eq.mpr rfl, Nat.compare_eq_eq.mpr rfl]
    rfl
  · rw [compare_parts_of_gt h, Int.compare_eq_gt.mpr (Int.ofNat_lt.mpr (units_strictMono h))]

theorem units_cast_pos {r : Nat} (h : 0 < r) : (0 : Int) < units r :=
  Int.natCast_pos.mpr (Decimal.units_pos h)

theorem compare_unpacked_of_pos (negative other : Bool) {r s : Nat} (hr : 0 < r) (hs : 0 < s) :
    (unpacked negative r).compare (unpacked other s) =
      some (compare ((signOf negative).apply (units r)) ((signOf other).apply (units s))) := by
  have hleft := units_cast_pos hr
  have hright := units_cast_pos hs
  rw [unpacked_of_pos hr, unpacked_of_pos hs]
  cases negative with
  | false =>
      cases other with
      | false => exact congrArg some (compare_parts r s)
      | true =>
          have hlt : -(units s : Int) < units r := by omega
          exact congrArg some (Int.compare_eq_gt.mpr hlt).symm
  | true =>
      cases other with
      | false =>
          have hlt : -(units r : Int) < units s := by omega
          exact congrArg some (Int.compare_eq_lt.mpr hlt).symm
      | true =>
          have hswap : (compare (units r : Int) (units s)).swap =
              compare (-(units r : Int)) (-(units s : Int)) := by
            rw [Int.compare_swap, Int.compare_eq_ite_lt, Int.compare_eq_ite_lt]
            simp only [Int.neg_lt_neg_iff]
          rw [← compare_parts] at hswap
          exact congrArg some hswap

/-- Doubles are compared as their numbers of units are; zero is compared alike with either sign. -/
theorem compare_unpacked (negative other : Bool) (r s : Nat) :
    (unpacked negative r).compare (unpacked other s) =
      some (compare ((signOf negative).apply (units r)) ((signOf other).apply (units s))) := by
  rcases Nat.eq_zero_or_pos r with rfl | hr
  · rcases Nat.eq_zero_or_pos s with rfl | hs
    · rw [unpacked_zero, unpacked_zero, apply_units_zero, apply_units_zero]
      rfl
    · have hpos := units_cast_pos hs
      rw [unpacked_zero, apply_units_zero, unpacked_of_pos hs]
      cases other with
      | false => exact congrArg some (Int.compare_eq_lt.mpr hpos).symm
      | true => exact congrArg some (Int.compare_eq_gt.mpr (Int.neg_neg_of_pos hpos)).symm
  · rcases Nat.eq_zero_or_pos s with rfl | hs
    · have hpos := units_cast_pos hr
      rw [unpacked_zero, apply_units_zero, unpacked_of_pos hr]
      cases negative with
      | false => exact congrArg some (Int.compare_eq_gt.mpr hpos).symm
      | true => exact congrArg some (Int.compare_eq_lt.mpr (Int.neg_neg_of_pos hpos)).symm
    · exact compare_unpacked_of_pos negative other hr hs

/-! ## Numbers -/

/-- The number of units that a finite double stands for. -/
def signedUnits (x : Float) : Int :=
  (signOf (isNegative x)).apply (magnitude x)

variable {x y : Float}

theorem unpack_eq (h : x.isFinite = true) :
    x.toModel.unpack = unpacked (isNegative x) (rank x) := by
  rw [unpack_toModel, unpack_pattern (isFinite_iff.mp h)]

theorem one_eq {n : Nat} (h : 1074 = n) : one = 2 ^ n := by
  rw [one, h, Nat.pow_eq]

theorem one_cast : (one : ℚ) = 2 ^ 1074 := by
  simp only [one, Nat.pow_eq, Nat.cast_pow, Nat.cast_ofNat]

theorem one_cast_pos : (0 : ℚ) < one :=
  Nat.cast_pos.mpr one_pos

theorem toRat_eq (h : x.isFinite = true) : toRat x = signedUnits x / one := by
  unfold toRat signedUnits magnitude
  rw [unpack_eq h]
  rcases Nat.eq_zero_or_pos (rank x) with hzero | hpos
  · rw [hzero, unpacked_zero, apply_units_zero, Int.cast_zero, zero_div]
  · have hplaces : ((exponent (rank x) + 1074).toNat : Int) = exponent (rank x) + 1074 :=
      Int.toNat_of_nonneg (by have := exponent_ge (rank x); omega)
    have hpower : (2 : ℚ) ^ (exponent (rank x) + 1074).toNat = 2 ^ exponent (rank x) * one := by
      rw [← zpow_natCast, hplaces, zpow_add₀ two_ne_zero, one_cast, zpow_ofNat]
    have happly : ∀ (sign : Sign) (n : Nat), ((sign.apply n : Int) : ℚ) = sign.apply 1 * n := by
      intro sign n
      cases sign <;> simp [Sign.apply]
    rw [unpacked_of_pos hpos, happly _ (units _), units_eq, Nat.cast_mul, Nat.cast_pow,
      Nat.cast_ofNat, hpower, eq_div_iff one_cast_pos.ne']
    dsimp only
    rw [happly]
    simp only [mul_assoc]

theorem toRat_lt_iff (hx : x.isFinite = true) (hy : y.isFinite = true) :
    toRat x < toRat y ↔ signedUnits x < signedUnits y := by
  rw [toRat_eq hx, toRat_eq hy, div_lt_div_iff_of_pos_right one_cast_pos, Int.cast_lt]

theorem compare_unpack (hx : x.isFinite = true) (hy : y.isFinite = true) :
    x.toModel.unpack.compare y.toModel.unpack =
      some (compare (signedUnits x) (signedUnits y)) := by
  rw [unpack_eq hx, unpack_eq hy]
  exact compare_unpacked _ _ _ _

/-- Finite doubles are compared as the numbers that they stand for. -/
theorem lt_iff (hx : x.isFinite = true) (hy : y.isFinite = true) : x < y ↔ toRat x < toRat y := by
  have hmodel : x < y ↔ x.toModel.unpack.lt y.toModel.unpack = true := decide_eq_true_iff
  rw [hmodel, UnpackedFloat.lt, compare_unpack hx hy, toRat_lt_iff hx hy, beq_iff_eq,
    Option.some_inj, Int.compare_eq_lt]

theorem le_iff (hx : x.isFinite = true) (hy : y.isFinite = true) : x ≤ y ↔ toRat x ≤ toRat y := by
  have hmodel : x ≤ y ↔ x.toModel.unpack.le y.toModel.unpack = true := decide_eq_true_iff
  rw [hmodel, UnpackedFloat.le, compare_unpack hx hy, ← not_lt, toRat_lt_iff hy hx, not_lt]
  exact Int.isLE_compare

/-! ## Whole numbers -/

theorem toInt_eq (x : Float) :
    toInt x = (signOf (isNegative x)).apply (magnitude x / one : Nat) := by
  unfold toInt
  cases isNegative x <;> rfl

theorem signedUnits_eq (hwhole : isWhole x = true) : signedUnits x = toInt x * one := by
  have hmagnitude : magnitude x / one * one = magnitude x :=
    Nat.div_mul_cancel (Nat.dvd_of_mod_eq_zero (beq_iff_eq.mp hwhole))
  have happly : ∀ (sign : Sign) (n : Nat),
      sign.apply (n * one : Nat) = sign.apply (n : Nat) * (one : Int) := by
    intro sign n
    cases sign with
    | positive => exact Int.natCast_mul _ _
    | negative => exact (congrArg _ (Int.natCast_mul _ _)).trans (Int.neg_mul _ _).symm
  rw [toInt_eq, signedUnits, ← happly, hmagnitude]

theorem toRat_toInt (hx : x.isFinite = true) (hwhole : isWhole x = true) : toRat x = toInt x := by
  rw [toRat_eq hx, signedUnits_eq hwhole, Int.cast_mul, Int.cast_natCast,
    mul_div_cancel_right₀ _ one_cast_pos.ne']

/-- A double is whole exactly when it stands for a whole number. -/
theorem isWhole_iff (hx : x.isFinite = true) : isWhole x = true ↔ ∃ n : Int, toRat x = n := by
  refine ⟨fun hwhole => ⟨toInt x, toRat_toInt hx hwhole⟩, ?_⟩
  rintro ⟨n, hn⟩
  rw [toRat_eq hx, div_eq_iff one_cast_pos.ne', ← Int.cast_natCast one, ← Int.cast_mul,
    Int.cast_inj] at hn
  have hsigned : (one : Int) ∣ signedUnits x := hn ▸ Int.dvd_mul_left _ _
  have hdvd : one ∣ magnitude x := by
    unfold signedUnits at hsigned
    cases hnegative : isNegative x with
    | false =>
        rw [hnegative] at hsigned
        exact Int.natCast_dvd_natCast.mp hsigned
    | true =>
        rw [hnegative] at hsigned
        exact Int.natCast_dvd_natCast.mp (Int.dvd_neg.mp hsigned)
  exact beq_iff_eq.mpr (Nat.mod_eq_zero_of_dvd hdvd)

theorem roundToInt_eq (sign : Sign) (m : Nat) (e : Int) :
    roundToInt sign m e = sign.apply (m * 2 ^ e.toNat / 2 ^ (-e).toNat : Nat) := by
  have hdown : (0 - (e - (e.toNat : Int))).toNat = (-e).toNat := by omega
  unfold roundToInt decreaseExponent shiftToExponent
  dsimp only
  rw [mantissa_shiftRight, mantissa_ofMantissaAndAccuracy, Int.sub_zero, Nat.shiftLeft_eq, hdown]

/-- Units are shifted away as the exponent says. -/
theorem units_div_one (r : Nat) :
    mantissa r * 2 ^ (exponent r).toNat / 2 ^ (-exponent r).toNat = units r / one := by
  have hge := exponent_ge r
  -- The power of two stays folded, under a name for its exponent.
  obtain ⟨places, hplaces⟩ : ∃ n, 1074 = n := ⟨_, rfl⟩
  rw [units_eq, one_eq hplaces]
  generalize exponent r = e at hge
  by_cases he : 0 ≤ e
  · have hup : (e + 1074).toNat = e.toNat + places := by omega
    have hdown : (-e).toNat = 0 := by omega
    rw [hup, hdown, Nat.pow_zero, Nat.div_one, Nat.pow_add, ← Nat.mul_assoc,
      Nat.mul_div_cancel _ (Nat.two_pow_pos _)]
  · have hup : e.toNat = 0 := by omega
    have hdown : places = (-e).toNat + (e + 1074).toNat := by omega
    rw [hup, hdown, Nat.pow_zero, Nat.mul_one, Nat.pow_add,
      Nat.mul_div_mul_right _ _ (Nat.two_pow_pos _)]

/-- A finite double is cut to an integer without regard to the bounds for infinities. -/
theorem toInt_unpack (hx : x.isFinite = true) (lowest highest : Int) :
    x.toModel.unpack.toInt lowest highest = toInt x := by
  rw [toInt_eq, unpack_eq hx, magnitude]
  rcases Nat.eq_zero_or_pos (rank x) with hzero | hpos
  · rw [hzero, unpacked_zero, units_zero, Nat.zero_div]
    cases isNegative x <;> rfl
  · rw [unpacked_of_pos hpos, ← units_div_one]
    exact roundToInt_eq _ _ _

/-- In the range of 64 bits a double is cut, but not clamped. -/
theorem toInt_toInt64 (hx : x.isFinite = true) (hleast : -2 ^ 63 ≤ toInt x)
    (hgreatest : toInt x < 2 ^ 63) : x.toModel.toInt64.toInt = toInt x := by
  have hcut : x.toModel.toInt64 = Int64.ofIntClamp (toInt x) :=
    congrArg Int64.ofIntClamp (toInt_unpack hx _ _)
  rw [hcut]
  apply Int64.toInt_ofIntClamp
  · rw [Int64.toInt_minValue]
    exact hleast
  · rw [Int64.toInt_maxValue]
    omega

/-! ## The range of 64 bits -/

/-- The double nearest to an integer. -/
def ofInt (n : Int) : Float :=
  ofRank (decide (n < 0)) (nearest n.natAbs 1)

theorem toRat_ofRank {negative : Bool} {r : Nat} (h : r < infinityRank) :
    toRat (ofRank negative r) = ((signOf negative).apply (units r) : Int) / one := by
  rw [toRat_eq (isFinite_ofRank h), signedUnits, isNegative_ofRank h, magnitude, rank_ofRank h]

/-- The rank of `2 ^ 63`. -/
def rank63 : Nat := 1086 * 2 ^ 52

theorem rank63_lt_infinityRank : rank63 < infinityRank := by
  decide

theorem units_rank63 : (units rank63 : ℚ) = 2 ^ 63 * one := by
  have hunits : units rank63 = 2 ^ 63 * one := by decide +kernel
  rw [hunits, Nat.cast_mul, Nat.cast_pow, Nat.cast_ofNat]

theorem ofInt_least : ofInt Int64.minValue.toInt = ofRank true rank63 := by
  have hnearest : nearest (2 ^ 63) 1 = rank63 := by decide +kernel
  rw [Int64.toInt_minValue]
  exact congrArg (ofRank true) hnearest

/-- The greatest integer of 64 bits is no double: the nearest one is one greater. -/
theorem ofInt_greatest : ofInt Int64.maxValue.toInt = ofRank false rank63 := by
  have hnearest : nearest (2 ^ 63 - 1) 1 = rank63 := by decide +kernel
  rw [Int64.toInt_maxValue]
  exact congrArg (ofRank false) hnearest

theorem toRat_least : toRat (ofInt Int64.minValue.toInt) = -2 ^ 63 := by
  rw [ofInt_least, toRat_ofRank rank63_lt_infinityRank, div_eq_iff one_cast_pos.ne', neg_mul,
    ← units_rank63]
  exact Int.cast_neg _

theorem toRat_greatest : toRat (ofInt Int64.maxValue.toInt) = 2 ^ 63 := by
  rw [ofInt_greatest, toRat_ofRank rank63_lt_infinityRank, div_eq_iff one_cast_pos.ne',
    ← units_rank63]
  exact Int.cast_natCast _

theorem lt_least_iff (hx : x.isFinite = true) :
    x < ofInt Int64.minValue.toInt ↔ toRat x < -2 ^ 63 := by
  have hfinite : (ofRank true rank63).isFinite = true := isFinite_ofRank rank63_lt_infinityRank
  rw [lt_iff hx (ofInt_least ▸ hfinite), toRat_least]

theorem greatest_le_iff (hx : x.isFinite = true) :
    ofInt Int64.maxValue.toInt ≤ x ↔ 2 ^ 63 ≤ toRat x := by
  have hfinite : (ofRank false rank63).isFinite = true := isFinite_ofRank rank63_lt_infinityRank
  rw [le_iff (ofInt_greatest ▸ hfinite) hx, toRat_greatest]

end CadTimeline.Binary64
