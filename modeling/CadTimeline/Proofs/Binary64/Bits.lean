import CadTimeline.Binary64.Basic
import Mathlib.Algebra.Group.Int.Defs
import Mathlib.Algebra.Group.Nat.Defs

/-!
# Doubles and their bits

A finite double is its sign and its rank: the two are read off the bits, and negation,
finiteness and being zero are what they should be on them.
-/

namespace CadTimeline.Binary64

open Float.Model (Format UnpackedFloat)
open Float.Model.UnpackedFloat

/-! ## Fields of a bit pattern -/

theorem infinityRank_eq : infinityRank = 2047 * 2 ^ 52 :=
  rfl

theorem rank_eq (x : Float) : rank x = x.toBits.toNat % 2 ^ 63 :=
  rfl

theorem isNegative_eq (x : Float) : isNegative x = decide (2 ^ 63 ≤ x.toBits.toNat) :=
  rfl

def signOf (negative : Bool) : Sign :=
  if negative then .negative else .positive

/-- The bit pattern of a sign and a rank. -/
def pattern (negative : Bool) (rank : Nat) : BitVec 64 :=
  BitVec.ofNat 64 (if negative then 2 ^ 63 + rank else rank)

theorem toNat_unpackMantissa (b : BitVec 64) :
    (@unpackMantissa Format.binary64 b).toNat = b.toNat % 2 ^ 52 := by
  simp [unpackMantissa]

theorem toNat_unpackExponent (b : BitVec 64) :
    (@unpackExponent Format.binary64 b).toNat = b.toNat / 2 ^ 52 % 2 ^ 11 := by
  simp [unpackExponent, Nat.shiftRight_eq_div_pow]

theorem toNat_unpackSign (b : BitVec 64) :
    (@unpackSign Format.binary64 b).toNat = b.toNat / 2 ^ 63 % 2 := by
  change (BitVec.cast _ (b.extractLsb 63 63)).toNat = _
  simp [Nat.shiftRight_eq_div_pow]

theorem toNat_packComponents (sign : Sign) (e : BitVec 11) (m : BitVec 52) :
    (packComponents Format.binary64 sign e m).toNat =
      sign.toBitVec.toNat * 2 ^ 63 + e.toNat * 2 ^ 52 + m.toNat := by
  have hm := m.isLt
  have he := e.isLt
  have hfront : (sign.toBitVec ++ e).toNat = sign.toBitVec.toNat * 2 ^ 11 + e.toNat := by
    rw [BitVec.toNat_append, ← Nat.shiftLeft_add_eq_or_of_lt he, Nat.shiftLeft_eq]
  have hall : (sign.toBitVec ++ e ++ m).toNat = (sign.toBitVec ++ e).toNat * 2 ^ 52 + m.toNat := by
    rw [BitVec.toNat_append, ← Nat.shiftLeft_add_eq_or_of_lt hm, Nat.shiftLeft_eq]
  show (sign.toBitVec ++ e ++ m).toNat = _
  rw [hall, hfront]
  omega

section

variable {negative : Bool} {rank : Nat}

theorem toNat_pattern (h : rank < 2 ^ 63) :
    (pattern negative rank).toNat = (if negative then 2 ^ 63 else 0) + rank := by
  unfold pattern
  rw [BitVec.toNat_ofNat]
  cases negative with
  | true => exact Nat.mod_eq_of_lt (by simp only [if_true]; omega)
  | false =>
      simp only [Bool.false_eq_true, if_false, Nat.zero_add]
      exact Nat.mod_eq_of_lt (by omega)

theorem sign_pattern (h : rank < 2 ^ 63) :
    Sign.ofBitVec (@unpackSign Format.binary64 (pattern negative rank)) =
      signOf negative := by
  have hsign := toNat_unpackSign (pattern negative rank)
  rw [toNat_pattern h] at hsign
  unfold Sign.ofBitVec signOf
  cases negative with
  | true =>
      rw [if_neg, if_pos rfl]
      intro hzero
      rw [hzero] at hsign
      simp only [if_true, BitVec.toNat_ofNat] at hsign
      omega
  | false =>
      rw [if_pos]
      · rfl
      · apply BitVec.eq_of_toNat_eq
        rw [hsign]
        simp only [Bool.false_eq_true, if_false, BitVec.toNat_ofNat]
        omega

theorem toNat_mantissa_pattern (h : rank < 2 ^ 63) :
    (@unpackMantissa Format.binary64 (pattern negative rank)).toNat = rank % 2 ^ 52 := by
  rw [toNat_unpackMantissa, toNat_pattern h]
  cases negative with
  | true => simp only [if_true]; omega
  | false => simp only [Bool.false_eq_true, if_false, Nat.zero_add]

theorem toNat_exponent_pattern (h : rank < 2 ^ 63) :
    (@unpackExponent Format.binary64 (pattern negative rank)).toNat = rank / 2 ^ 52 := by
  rw [toNat_unpackExponent, toNat_pattern h]
  cases negative with
  | true => simp only [if_true]; omega
  | false => simp only [Bool.false_eq_true, if_false, Nat.zero_add]; omega

/-- A finite double taken apart. -/
def unpacked (negative : Bool) (rank : Nat) : UnpackedFloat :=
  if hrank : 0 < rank then
    if rank < 2 ^ 52 then .finite (signOf negative) rank (-1074) hrank
    else .finite (signOf negative) (2 ^ 52 + rank % 2 ^ 52) (rank / 2 ^ 52 - 1075 : Int) (by omega)
  else .zero (signOf negative)

theorem unpacked_zero (negative : Bool) : unpacked negative 0 = .zero (signOf negative) :=
  rfl

/-- But for zero, the mantissa and the exponent do not depend on the sign. -/
theorem exists_unpacked {rank : Nat} (hrank : 0 < rank) : ∃ m e, ∃ hm : 0 < m, ∀ negative,
    unpacked negative rank = .finite (signOf negative) m e hm := by
  by_cases hsmall : rank < 2 ^ 52
  · refine ⟨rank, -1074, hrank, fun negative => ?_⟩
    rw [unpacked, dif_pos hrank, if_pos hsmall]
  · refine ⟨2 ^ 52 + rank % 2 ^ 52, (rank / 2 ^ 52 - 1075 : Int), by omega, fun negative => ?_⟩
    rw [unpacked, dif_pos hrank, if_neg hsmall]

/-- What is taken apart is a zero or a finite number. -/
theorem unpacked_cases {P : UnpackedFloat → Prop} (hzero : ∀ sign, P (.zero sign))
    (hfinite : ∀ sign m e hm, P (.finite sign m e hm)) (negative : Bool) (rank : Nat) :
    P (unpacked negative rank) := by
  rcases Nat.eq_zero_or_pos rank with rfl | hpos
  · exact hzero _
  · obtain ⟨m, e, hm, hunpacked⟩ := exists_unpacked hpos
    rw [hunpacked]
    exact hfinite _ m e hm

theorem finite_congr {sign : Sign} {m m' : Nat} {e e' : Int} {hm : 0 < m} {hm' : 0 < m'}
    (hmantissa : m = m') (hexponent : e = e') :
    UnpackedFloat.finite sign m e hm = UnpackedFloat.finite sign m' e' hm' := by
  subst hmantissa hexponent
  rfl

theorem unpack_pattern (h : rank < infinityRank) :
    UnpackedFloat.unpack Format.binary64 (pattern negative rank) = unpacked negative rank := by
  rw [infinityRank_eq] at h
  have hbound : rank < 2 ^ 63 := by omega
  have hmantissa := @toNat_mantissa_pattern negative rank hbound
  have hexponent := @toNat_exponent_pattern negative rank hbound
  have htop : @unpackExponent Format.binary64 (pattern negative rank) ≠ -1#_ := by
    intro heq
    rw [heq] at hexponent
    change 2047 = rank / 2 ^ 52 at hexponent
    omega
  unfold UnpackedFloat.unpack
  dsimp only
  rw [if_neg htop, sign_pattern hbound]
  by_cases hexp : rank / 2 ^ 52 = 0
  · have hzero : @unpackExponent Format.binary64 (pattern negative rank) = 0#_ :=
      BitVec.eq_of_toNat_eq (show _ = 0 from hexponent.trans hexp)
    rw [if_pos hzero]
    by_cases hrank : 0 < rank
    · have hne : @unpackMantissa Format.binary64 (pattern negative rank) ≠ 0#_ := by
        intro heq
        rw [heq] at hmantissa
        change 0 = rank % 2 ^ 52 at hmantissa
        omega
      rw [dif_neg hne, unpacked, dif_pos hrank, if_pos (by omega)]
      refine finite_congr (hmantissa.trans (by omega)) ?_
      rw [hexponent, hexp]
      rfl
    · have heq : @unpackMantissa Format.binary64 (pattern negative rank) = 0#_ :=
        BitVec.eq_of_toNat_eq (show _ = 0 from hmantissa.trans (by omega))
      rw [dif_pos heq, unpacked, dif_neg hrank]
  · have hne : @unpackExponent Format.binary64 (pattern negative rank) ≠ 0#_ := by
      intro heq
      rw [heq] at hexponent
      exact hexp hexponent.symm
    rw [if_neg hne, unpacked, dif_pos (by omega), if_neg (by omega)]
    refine finite_congr ?_ ?_
    · rw [BitVec.toNat_append, ← Nat.shiftLeft_add_eq_or_of_lt (BitVec.isLt _), Nat.shiftLeft_eq,
        hmantissa]
      rfl
    · rw [hexponent]
      rfl

/-- Every finite double is written back as it was. -/
theorem pack_unpacked (h : rank < infinityRank) :
    UnpackedFloat.pack Format.binary64 (unpacked negative rank) = pattern negative rank := by
  rw [infinityRank_eq] at h
  have hsign : (signOf negative).toBitVec.toNat * 2 ^ 63 = if negative then 2 ^ 63 else 0 := by
    cases negative <;> rfl
  apply BitVec.eq_of_toNat_eq
  rw [toNat_pattern (by omega), ← hsign]
  by_cases hrank : 0 < rank
  · rw [unpacked, dif_pos hrank]
    by_cases hsmall : rank < 2 ^ 52
    · have hlog : rank.log2 < 52 := (Nat.log2_lt (by omega)).mpr hsmall
      rw [if_pos hsmall]
      unfold UnpackedFloat.pack
      dsimp only
      have hwidth : ¬rank.log2 + 1 = Format.binary64.mantissaBits := by
        change ¬rank.log2 + 1 = 53
        omega
      rw [if_neg (by decide), if_neg hwidth, toNat_packComponents, BitVec.toNat_ofNat,
        BitVec.toNat_ofNat, Nat.mod_eq_of_lt (b := 2 ^ 52) hsmall, Nat.zero_mod, Nat.zero_mul,
        Nat.add_zero]
    · have hlog : (2 ^ 52 + rank % 2 ^ 52).log2 = 52 :=
        (Nat.log2_eq_iff (by omega)).mpr ⟨by omega, by omega⟩
      have hbiased : ((rank / 2 ^ 52 - 1075 : Int) + Format.binary64.exponentBias +
          Format.binary64.mantissaBitsWithoutImplicit).toNat = rank / 2 ^ 52 := by
        show ((rank / 2 ^ 52 - 1075 : Int) + (1023 : Nat) + (52 : Nat)).toNat = _
        omega
      rw [if_neg hsmall]
      unfold UnpackedFloat.pack
      dsimp only
      have hwidth : 52 + 1 = Format.binary64.mantissaBits := rfl
      rw [hbiased, hlog, if_neg (show ¬2 ^ 11 ≤ rank / 2 ^ 52 + 1 by omega), if_pos hwidth,
        toNat_packComponents, BitVec.toNat_ofNat, BitVec.toNat_ofNat,
        Nat.mod_eq_of_lt (show rank / 2 ^ 52 < 2 ^ 11 by omega), Nat.add_mod_left, Nat.mod_mod,
        Nat.add_assoc, Nat.div_add_mod']
  · rw [unpacked, dif_neg hrank]
    unfold UnpackedFloat.pack packedZero
    rw [toNat_packComponents]
    simp
    omega

/-! ## Finite doubles -/

theorem toBits_ofRank (h : rank < infinityRank) :
    (ofRank negative rank).toBits.toBitVec = pattern negative rank := by
  show UnpackedFloat.pack Format.binary64
    (UnpackedFloat.unpack Format.binary64 (pattern negative rank)) = pattern negative rank
  rw [unpack_pattern h, pack_unpacked h]

theorem unpack_ofRank (h : rank < infinityRank) :
    (ofRank negative rank).toModel.unpack = unpacked negative rank := by
  rw [← unpack_pattern h, ← toBits_ofRank h]
  rfl

theorem toNat_toBits_ofRank (h : rank < infinityRank) :
    (ofRank negative rank).toBits.toNat = (if negative then 2 ^ 63 else 0) + rank := by
  have hbound : rank < 2 ^ 63 := by
    rw [infinityRank_eq] at h
    omega
  rw [← toNat_pattern hbound, ← toBits_ofRank h]
  rfl

theorem rank_ofRank (h : rank < infinityRank) : Binary64.rank (ofRank negative rank) = rank := by
  rw [infinityRank_eq] at h
  rw [rank_eq, toNat_toBits_ofRank h]
  cases negative with
  | true => simp only [if_true]; omega
  | false => simp only [Bool.false_eq_true, if_false, Nat.zero_add]; omega

theorem isNegative_ofRank (h : rank < infinityRank) :
    isNegative (ofRank negative rank) = negative := by
  rw [infinityRank_eq] at h
  rw [isNegative_eq, toNat_toBits_ofRank h]
  cases negative with
  | true => simp
  | false => simp only [Bool.false_eq_true, if_false, Nat.zero_add, decide_eq_false_iff_not]; omega

end

theorem eq_of_toBits {x y : Float} (h : x.toBits = y.toBits) : x = y := by
  cases x with
  | ofModel x =>
      cases y with
      | ofModel y =>
          cases x
          cases y
          cases h
          rfl

theorem toNat_toBits (x : Float) :
    x.toBits.toNat = (if isNegative x then 2 ^ 63 else 0) + rank x := by
  have hbound := x.toBits.toNat_lt
  rw [isNegative_eq, rank_eq]
  split
  · rename_i hneg
    rw [decide_eq_true_eq] at hneg
    omega
  · rename_i hneg
    rw [decide_eq_true_eq] at hneg
    omega

theorem rank_lt (x : Float) : rank x < 2 ^ 63 :=
  Nat.mod_lt _ (by decide)

theorem toBits_eq_pattern (x : Float) : x.toBits.toBitVec = pattern (isNegative x) (rank x) := by
  apply BitVec.eq_of_toNat_eq
  rw [toNat_pattern (rank_lt x), ← toNat_toBits]
  rfl

theorem unpack_toModel (x : Float) :
    x.toModel.unpack = UnpackedFloat.unpack Format.binary64 (pattern (isNegative x) (rank x)) := by
  rw [← toBits_eq_pattern]
  rfl

/-- From the rank of infinity on, all bits of the exponent are set. -/
theorem unpackExponent_of_le {x : Float} (hle : infinityRank ≤ rank x) :
    @unpackExponent Format.binary64 (pattern (isNegative x) (rank x)) = -1#_ := by
  have hbound := rank_lt x
  apply BitVec.eq_of_toNat_eq
  rw [toNat_exponent_pattern hbound]
  change _ = 2047
  rw [infinityRank_eq] at hle
  omega

theorem isFinite_iff {x : Float} : x.isFinite = true ↔ rank x < infinityRank := by
  have hfinite : x.isFinite = x.toModel.unpack.isFinite := rfl
  rw [hfinite, unpack_toModel]
  constructor
  · intro hx
    refine Nat.lt_of_not_le fun hle => ?_
    have htop := unpackExponent_of_le hle
    unfold UnpackedFloat.unpack at hx
    dsimp only at hx
    rw [if_pos htop] at hx
    split at hx
    · contradiction
    · contradiction
  · intro hx
    rw [unpack_pattern hx]
    exact unpacked_cases (P := fun u => u.isFinite = true) (fun _ => rfl)
      (fun _ _ _ _ => rfl) _ _

theorem isNaN_eq_false {x : Float} (h : x.isFinite = true) : x.isNaN = false := by
  have hnan : x.isNaN = x.toModel.unpack.isNaN := rfl
  rw [hnan, unpack_toModel, unpack_pattern (isFinite_iff.mp h)]
  exact unpacked_cases (P := fun u => u.isNaN = false) (fun _ => rfl)
    (fun _ _ _ _ => rfl) _ _

theorem isInf_eq_false {x : Float} (h : x.isFinite = true) : x.isInf = false := by
  have hinf : x.isInf = x.toModel.unpack.isInf := rfl
  rw [hinf, unpack_toModel, unpack_pattern (isFinite_iff.mp h)]
  exact unpacked_cases (P := fun u => u.isInf = false) (fun _ => rfl)
    (fun _ _ _ _ => rfl) _ _

theorem ofRank_rank {x : Float} (h : x.isFinite = true) : ofRank (isNegative x) (rank x) = x := by
  apply eq_of_toBits
  apply UInt64.toBitVec_inj.mp
  rw [toBits_ofRank (isFinite_iff.mp h), toBits_eq_pattern]

theorem neg_ofRank {negative : Bool} {rank : Nat} (h : rank < infinityRank) :
    -ofRank negative rank = ofRank (!negative) rank := by
  apply eq_of_toBits
  apply UInt64.toBitVec_inj.mp
  have hneg : (unpacked negative rank).neg = unpacked (!negative) rank := by
    have hsign : -signOf negative = signOf (!negative) := by cases negative <;> rfl
    rcases Nat.eq_zero_or_pos rank with rfl | hpos
    · rw [unpacked_zero, unpacked_zero, ← hsign]
      rfl
    · obtain ⟨m, e, hm, hunpacked⟩ := exists_unpacked hpos
      rw [hunpacked, hunpacked, ← hsign]
      rfl
  have hbits : (-ofRank negative rank).toBits.toBitVec =
      UnpackedFloat.pack Format.binary64 (ofRank negative rank).toModel.unpack.neg := rfl
  rw [hbits, unpack_ofRank h, hneg, pack_unpacked h, toBits_ofRank h]

theorem beq_zero_iff {x : Float} (h : x.isFinite = true) : (x == 0) = true ↔ rank x = 0 := by
  have hzero : (0 : Float).toModel.unpack = .zero .positive := rfl
  have hbeq : (x == 0) = (x.toModel.unpack.beq (0 : Float).toModel.unpack) := rfl
  rw [hbeq, hzero, unpack_toModel, unpack_pattern (isFinite_iff.mp h)]
  rcases Nat.eq_zero_or_pos (rank x) with hrank | hpos
  · rw [hrank, unpacked_zero]
    exact iff_of_true rfl rfl
  · obtain ⟨m, e, hm, hunpacked⟩ := exists_unpacked hpos
    rw [hunpacked]
    refine iff_of_false ?_ (Nat.ne_of_gt hpos)
    cases isNegative x <;> exact Bool.false_ne_true

end CadTimeline.Binary64
