import CadTimeline.Decimal.Plain
import CadTimeline.Proofs.Decimal.Spelling
import Mathlib.Algebra.Group.Nat.Defs

/-!
# Plain decimals read back

The shortest decimal of a finite double has the double's rank, and its plain text is a
numeral of the same rank.
-/

namespace CadTimeline

namespace Binary64

theorem one_pos : 0 < one := by
  unfold one
  exact Nat.pow_pos (by decide)

theorem units_of_not_lt {r : Nat} (h : ¬r < 2 ^ 52) :
    units r = (2 ^ 52 + r % 2 ^ 52) * 2 ^ (r / 2 ^ 52 - 1) :=
  if_neg h

/-- A quotient that is a finite double has that double's rank. -/
theorem nearest_of_exact {num den r : Nat} (hden : 0 < den) (hr : r < infinityRank)
    (h : num * one = units r * den) : nearest num den = r := by
  have hquotient : num * one / den = units r := by rw [h, Nat.mul_div_cancel _ hden]
  have hnearest : nearest num den = min (((num * one / den).log2 - 52) * 2 ^ 52 +
      roundHalfEven (num * one) (den * 2 ^ ((num * one / den).log2 - 52))) infinityRank := rfl
  rw [hnearest, hquotient, h]
  by_cases hsmall : r < 2 ^ 52
  · have hlog : r.log2 - 52 = 0 := by
      rcases Nat.eq_zero_or_pos r with rfl | hpos
      · rfl
      · have := (Nat.log2_lt (Nat.ne_of_gt hpos)).mpr hsmall
        omega
    rw [units_of_lt hsmall, hlog, Nat.pow_zero, Nat.mul_one, roundHalfEven_mul_right r hden,
      Nat.zero_mul, Nat.zero_add, Nat.min_eq_left (Nat.le_of_lt hr)]
  · have hunits := units_of_not_lt hsmall
    have hpos : 0 < 2 ^ (r / 2 ^ 52 - 1) := Nat.two_pow_pos _
    have hlog : (units r).log2 = 52 + (r / 2 ^ 52 - 1) := by
      rw [hunits, Nat.log2_eq_iff (Nat.ne_of_gt (Nat.mul_pos (by omega) hpos)), Nat.pow_add,
        Nat.add_right_comm, Nat.pow_add]
      exact ⟨Nat.mul_le_mul_right _ (by omega), Nat.mul_lt_mul_of_pos_right (by omega) hpos⟩
    have hround : roundHalfEven (units r * den) (den * 2 ^ (r / 2 ^ 52 - 1)) =
        2 ^ 52 + r % 2 ^ 52 := by
      rw [hunits, Nat.mul_assoc, Nat.mul_comm den,
        roundHalfEven_mul_right _ (Nat.mul_pos hpos hden)]
    have hsum : (r / 2 ^ 52 - 1) * 2 ^ 52 + (2 ^ 52 + r % 2 ^ 52) = r := by omega
    rw [hlog, Nat.add_sub_cancel_left, hround, hsum, Nat.min_eq_left (Nat.le_of_lt hr)]

end Binary64

open Binary64

namespace Decimal

/-! ## The shortest form -/

theorem units_pos {r : Nat} (h : 0 < r) : 0 < units r := by
  by_cases hsmall : r < 2 ^ 52
  · rw [units_of_lt hsmall]
    exact h
  · rw [units_of_not_lt hsmall]
    exact Nat.mul_pos (by omega) (Nat.two_pow_pos _)

theorem nearest_of_power {r k : Nat} (hr : r < infinityRank) (hone : one = Nat.pow 2 k) :
    nearest (units r * 5 ^ k) (10 ^ k) = r := by
  apply nearest_of_exact (Nat.pow_pos (by decide)) hr
  rw [hone, Nat.pow_eq, Nat.mul_assoc, ← Nat.mul_pow]

theorem rank_exact {r : Nat} (hpos : 0 < r) (hr : r < infinityRank) : (exact r).rank = r := by
  have hnearest : nearest (units r * 5 ^ 1074) (10 ^ 1074) = r :=
    nearest_of_power hr (by rw [one])
  have hlower : 2 ^ 2148 ≤ units r * 5 ^ 1074 :=
    calc 2 ^ 2148 = (2 ^ 2) ^ 1074 := Nat.pow_mul 2 2 1074
      _ ≤ 5 ^ 1074 := Nat.pow_le_pow_left (by decide) _
      _ ≤ units r * 5 ^ 1074 := Nat.le_mul_of_pos_left _ (units_pos hpos)
  rw [exact, Nat.pow_eq]
  unfold rank
  dsimp only
  -- The digits are too many to be computed with.
  generalize units r * 5 ^ 1074 = digits at hnearest hlower ⊢
  have hdigits : digits ≠ 0 := Nat.ne_of_gt (Nat.lt_of_lt_of_le (Nat.two_pow_pos _) hlower)
  have hlog : 2148 ≤ digits.log2 := (Nat.le_log2 hdigits).mpr hlower
  have hsmall : ¬(digits.log2 : Int) + 3 * -1074 < -1100 := by
    clear hnearest hlower
    omega
  rw [if_neg hdigits, if_neg (by decide), if_neg hsmall]
  rw [Nat.pow_eq, Nat.pow_eq, show (-1074 : Int).toNat = 0 from rfl, Nat.pow_zero, Nat.mul_one]
  exact hnearest

/-- The shortest form of a finite double reads back as the double. -/
theorem rank_shortest (tie : Tie) {r : Nat} (hpos : 0 < r) (hr : r < infinityRank) :
    (shortest tie r).rank = r := by
  unfold shortest
  dsimp only
  cases hfind : List.find? (fun d => d.rank == r)
      ((List.range 17).flatMap fun n => neighbours tie (exact r) (n + 1)) with
  | none =>
      rw [Option.getD_none]
      exact rank_exact hpos hr
  | some d =>
      rw [Option.getD_some]
      have hrank := List.find?_some hfind
      exact eq_of_beq hrank

/-! ## The plain text -/

theorem rank_whole (n : Nat) : rank ⟨n, 0⟩ = nearest n 1 := by
  unfold rank
  dsimp only
  split
  · rename_i hzero
    subst hzero
    refine (nearest_of_exact (by decide) (by decide) ?_).symm
    rw [Nat.zero_mul, units_of_lt (by decide), Nat.zero_mul]
  · rw [if_neg (by decide), if_neg (by omega)]
    simp

/-- Zeros after the last digit go over to the digits. -/
theorem rank_of_whole {digits : Nat} {exponent : Int} (hexponent : 0 ≤ exponent)
    (hr : rank ⟨digits, exponent⟩ < infinityRank) :
    rank ⟨digits * 10 ^ exponent.toNat, 0⟩ = rank ⟨digits, exponent⟩ := by
  unfold rank at hr ⊢
  dsimp only at hr ⊢
  by_cases hzero : digits = 0
  · rw [if_pos hzero, if_pos (by rw [hzero, Nat.zero_mul])]
  · have hne : digits * 10 ^ exponent.toNat ≠ 0 := Nat.mul_ne_zero hzero (by simp)
    rw [if_neg hzero] at hr
    rw [if_neg hzero, if_neg hne]
    have hlarge : ¬400 < exponent := by
      intro hlt
      rw [if_pos hlt] at hr
      exact Nat.lt_irrefl _ hr
    have hden : (-exponent).toNat = 0 := by omega
    rw [if_neg hlarge, if_neg (show ¬(digits.log2 : Int) + 3 * exponent < -1100 by omega), hden,
      if_neg (show ¬400 < (0 : Int) by decide), if_neg (by omega)]
    simp

theorem spelled_digits {digits : List Char} (h : ∀ c ∈ digits, c.isDigit = true)
    (hne : digits ≠ []) : Numeral.Spelled ⟨digits, [], 0⟩ digits := by
  have := Numeral.Spelled.mk h .absent .absent (.inl hne)
  rwa [List.append_nil, List.append_nil] at this

theorem spelled_point {whole fraction : List Char} (hwhole : ∀ c ∈ whole, c.isDigit = true)
    (hfraction : ∀ c ∈ fraction, c.isDigit = true) (hne : whole ≠ []) :
    Numeral.Spelled ⟨whole, fraction, 0⟩ (whole ++ '.' :: fraction) := by
  have := Numeral.Spelled.mk hwhole (.point hfraction) .absent (.inl hne)
  rwa [List.append_nil] at this

theorem isDigit_of_mem_toDigits {n : Nat} : ∀ c ∈ Nat.toDigits 10 n, c.isDigit = true :=
  fun _ h => Nat.isDigit_of_mem_toDigits (by decide) (by decide) h

theorem isDigit_of_mem_zeros {n : Nat} : ∀ c ∈ List.replicate n '0', c.isDigit = true := by
  intro c hc
  rw [List.eq_of_mem_replicate hc]
  rfl

/-- Places are counted off the digits, with zeros in front if they are too few. -/
theorem exists_numeral_withPoint {digits : List Char} (h : ∀ c ∈ digits, c.isDigit = true)
    {places : Nat} (hplaces : places ≠ 0) :
    ∃ n : Numeral, n.Spelled (withPoint digits places) ∧
      n.toDecimal = ⟨Numeral.ofDigits digits, -(places : Int)⟩ := by
  unfold withPoint
  dsimp only
  rw [if_neg hplaces]
  by_cases hwhole : digits.length - places = 0
  · rw [if_pos hwhole]
    refine ⟨_, @spelled_point ['0'] _ (by simp) ?_ (by simp), ?_⟩
    · exact List.forall_mem_append.mpr ⟨isDigit_of_mem_zeros, h⟩
    · have hdigits : Numeral.ofDigits (['0'] ++ (List.replicate (places - digits.length) '0' ++
          digits)) = Numeral.ofDigits digits := by
        unfold Numeral.ofDigits
        rw [List.singleton_append, ← List.cons_append, ← List.replicate_succ,
          Nat.ofDigitChars_append, Nat.ofDigitChars_replicate_zero, Nat.mul_zero]
      unfold Numeral.toDecimal
      refine congrArg₂ Decimal.mk hdigits ?_
      simp only [List.append_eq, List.length_append, List.length_replicate]
      omega
  · rw [if_neg hwhole]
    refine ⟨_, spelled_point (fun c hc => h c (List.mem_of_mem_take hc))
      (fun c hc => h c (List.mem_of_mem_drop hc)) ?_, ?_⟩
    · intro hnil
      have := congrArg List.length hnil
      simp only [List.length_take, List.length_nil] at this
      omega
    · unfold Numeral.toDecimal
      rw [List.take_append_drop]
      congr 1
      simp only [List.length_drop]
      omega

/-- The plain text of a finite decimal is a numeral of the same rank. -/
theorem exists_numeral_plain {d : Decimal} (hr : d.rank < infinityRank) :
    ∃ n : Numeral, n.Spelled d.plain ∧ n.toDecimal.rank = d.rank := by
  obtain ⟨digits, exponent⟩ := d
  unfold plain
  dsimp only
  by_cases hwhole : (-exponent).toNat = 0
  · have htext : withPoint (Nat.toDigits 10 digits ++ List.replicate exponent.toNat '0')
        (-exponent).toNat = Nat.toDigits 10 digits ++ List.replicate exponent.toNat '0' :=
      if_pos hwhole
    rw [htext]
    refine ⟨_, spelled_digits (List.forall_mem_append.mpr
      ⟨isDigit_of_mem_toDigits, isDigit_of_mem_zeros⟩) ?_, ?_⟩
    · exact List.append_ne_nil_of_left_ne_nil Nat.toDigits_ne_nil _
    · rw [← rank_of_whole (by omega) hr]
      unfold Numeral.toDecimal Numeral.ofDigits
      dsimp only
      rw [List.append_nil, Nat.ofDigitChars_append, Nat.ofDigitChars_ten_toDigits,
        Nat.ofDigitChars_replicate_zero, Nat.mul_comm]
      rfl
  · have hzeros : exponent.toNat = 0 := by omega
    have hexponent : -((-exponent).toNat : Int) = exponent := by omega
    obtain ⟨n, hspelled, hn⟩ := exists_numeral_withPoint
      (isDigit_of_mem_toDigits (n := digits)) hwhole
    rw [hexponent, Numeral.ofDigits, Nat.ofDigitChars_ten_toDigits] at hn
    rw [hzeros, List.replicate_zero, List.append_nil]
    exact ⟨n, hspelled, congrArg rank hn⟩

theorem rank_le (d : Decimal) : d.rank ≤ infinityRank := by
  unfold rank
  split
  · exact Nat.zero_le _
  · split
    · exact Nat.le_refl _
    · split
      · exact Nat.zero_le _
      · exact Nat.min_le_right _ _

end Decimal

namespace Number

theorem exists_numeral_magnitudeText {r : Nat} (hr : r < infinityRank) :
    ∃ n : Numeral, n.Spelled (magnitudeText r) ∧ n.toDecimal.rank = r := by
  unfold magnitudeText
  split
  · rename_i hzero
    subst hzero
    exact ⟨_, Decimal.spelled_digits (by simp) (by simp), rfl⟩
  · rename_i hne
    have hrank := Decimal.rank_shortest .up (Nat.pos_of_ne_zero hne) hr
    obtain ⟨n, hspelled, hn⟩ :=
      Decimal.exists_numeral_plain (d := Decimal.shortest .up r) (hrank.symm ▸ hr)
    exact ⟨n, hspelled, hn.trans hrank⟩

/-- Every double that is neither negative nor undefined is the value of a numeral. -/
theorem exists_numeral {r : Nat} (hr : r ≤ infinityRank) :
    ∃ (n : Numeral) (cs : List Char), n.Spelled cs ∧ n.toDecimal.rank = r := by
  rcases Nat.lt_or_eq_of_le hr with hlt | rfl
  · obtain ⟨n, hspelled, hn⟩ := exists_numeral_magnitudeText hlt
    exact ⟨n, _, hspelled, hn⟩
  · have hwhole : ∀ c ∈ ['1'], c.isDigit = true := by simp
    have hdigits : ∀ c ∈ ['9', '9', '9'], c.isDigit = true := by simp
    exact ⟨_, _, .mk hwhole .absent (.power (.inl rfl) .absent hdigits (by simp)) (.inl (by simp)),
      rfl⟩

end Number

end CadTimeline
