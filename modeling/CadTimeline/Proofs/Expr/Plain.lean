import CadTimeline.Proofs.Binary64.Bits
import CadTimeline.Proofs.Decimal.RoundTrip
import CadTimeline.Proofs.Expr.Parsing

/-!
# Plain numbers as expressions

The text of a finite number, read as an expression, has that number as its value; only
the sign of a zero is lost.
-/

namespace CadTimeline

open Binary64

namespace Expr

theorem parse?_numeral {n : Numeral} {cs : List Char} (h : n.Spelled cs) :
    parse? cs = some (.number n.toFloat) := by
  have hspells : Token.Spells (Layout.number n).tokens cs := Token.Lexeme.spells (.number h)
  exact parse?_of_layout hspells

theorem parse?_minus_numeral {n : Numeral} {cs : List Char} (h : n.Spelled cs) :
    parse? ('-' :: cs) = some (.neg (.number n.toFloat)) := by
  have hspells : Token.Spells (Layout.neg (.number n)).tokens ('-' :: cs) :=
    .token .minus (Token.Lexeme.spells (.number h))
  exact parse?_of_layout hspells

/-- A numeral of a finite rank, with a minus or without one. -/
theorem evalText_numeral {n : Numeral} {cs : List Char} (h : n.Spelled cs)
    (hr : n.toDecimal.rank < infinityRank) (scope : Scope) (negative : Bool) :
    evalText scope (String.ofList (if negative then '-' :: cs else cs)) =
      .ok (ofRank negative n.toDecimal.rank) := by
  have hfinite : ∀ negative, (ofRank negative n.toDecimal.rank).isFinite = true := by
    intro negative
    rw [isFinite_iff, rank_ofRank hr]
    exact hr
  have hvalue : n.toFloat = ofRank false n.toDecimal.rank := rfl
  unfold evalText
  rw [String.toList_ofList]
  cases negative with
  | false =>
      simp only [Bool.false_eq_true, if_false, parse?_numeral h, eval, hvalue]
      show (if (ofRank false _).isFinite = true then _ else _) = _
      rw [if_pos (hfinite false)]
      rfl
  | true =>
      simp only [if_true, parse?_minus_numeral h, eval, hvalue]
      show (if (-ofRank false _).isFinite = true then pure (-ofRank false _) else _) = _
      rw [neg_ofRank hr, Bool.not_false, if_pos (hfinite true)]
      rfl

end Expr

namespace Number

theorem plain_of_finite {x : Float} (h : x.isFinite = true) :
    plain x = String.ofList (if isNegative x && rank x != 0 then '-' :: magnitudeText (rank x)
      else magnitudeText (rank x)) := by
  unfold plain display
  by_cases hzero : rank x = 0
  · rw [if_pos ((beq_zero_iff h).mpr hzero), hzero]
    simp [magnitudeText]
  · rw [if_neg (mt (beq_zero_iff h).mp hzero)]
    rw [if_neg (Bool.eq_false_iff.mp (isNaN_eq_false h)), bne_iff_ne.mpr hzero, Bool.and_true]
    dsimp only
    rw [if_neg (Bool.eq_false_iff.mp (isInf_eq_false h))]

/-- A number without the sign that its text does not have. -/
def unsignedZero (x : Float) : Float :=
  if rank x = 0 then ofRank false 0 else x

theorem evalText_plain {x : Float} (h : x.isFinite = true) (scope : Scope) :
    Expr.evalText scope (plain x) = .ok (unsignedZero x) := by
  have hr := isFinite_iff.mp h
  obtain ⟨n, hspelled, hn⟩ := exists_numeral_magnitudeText hr
  rw [plain_of_finite h, Expr.evalText_numeral hspelled (hn ▸ hr), hn]
  unfold unsignedZero
  by_cases hzero : rank x = 0
  · simp [hzero]
  · rw [if_neg hzero, bne_iff_ne.mpr hzero, Bool.and_true, ofRank_rank h]

theorem eq_unsignedZero_or {x : Float} (h : x.isFinite = true) :
    x = unsignedZero x ∨ x == 0 ∧ unsignedZero x == 0 := by
  unfold unsignedZero
  split
  · rename_i hzero
    have hrank : rank (ofRank false 0) = 0 := rank_ofRank (by decide)
    have hfinite : (ofRank false 0).isFinite = true := isFinite_iff.mpr (hrank ▸ by decide)
    exact .inr ⟨(beq_zero_iff h).mpr hzero, (beq_zero_iff hfinite).mpr hrank⟩
  · exact .inl rfl

/-! ## Integers -/

theorem toString_integer (n : Int) : toString n = String.ofList
    (if decide (n < 0) then '-' :: Nat.toDigits 10 n.natAbs else Nat.toDigits 10 n.natAbs) := by
  rw [Int.toString_eq_repr, Int.repr_eq_if, Nat.repr_eq_ofList_toDigits,
    Nat.repr_eq_ofList_toDigits]
  by_cases hn : n < 0
  · have habs : (-n).toNat = n.natAbs := by omega
    rw [if_neg (by omega), if_pos (decide_eq_true hn), habs, ← List.singleton_append,
      String.ofList_append]
  · have habs : n.toNat = n.natAbs := by omega
    rw [if_pos (by omega), if_neg (by simpa using hn), habs]

/-- The text of an integer that is a double. -/
theorem evalText_integer {n : Int} (hr : nearest n.natAbs 1 < infinityRank) (scope : Scope) :
    Expr.evalText scope (toString n) = .ok (ofRank (decide (n < 0)) (nearest n.natAbs 1)) := by
  have hspelled : Numeral.Spelled ⟨Nat.toDigits 10 n.natAbs, [], 0⟩ (Nat.toDigits 10 n.natAbs) :=
    Decimal.spelled_digits Decimal.isDigit_of_mem_toDigits Nat.toDigits_ne_nil
  have hrank : (Numeral.toDecimal ⟨Nat.toDigits 10 n.natAbs, [], 0⟩).rank = nearest n.natAbs 1 := by
    unfold Numeral.toDecimal Numeral.ofDigits
    rw [← Decimal.rank_whole, List.append_nil, Nat.ofDigitChars_ten_toDigits]
    rfl
  rw [toString_integer, Expr.evalText_numeral hspelled (hrank ▸ hr), hrank]

variable {x : Float}

theorem natAbs_toInt (hwhole : isWhole x = true) : (toInt x).natAbs * one = magnitude x := by
  have hmod : magnitude x % one = 0 := beq_iff_eq.mp hwhole
  have habs : (toInt x).natAbs = magnitude x / one := by
    unfold toInt
    split
    · rw [Int.natAbs_neg, Int.natAbs_natCast]
    · rw [Int.natAbs_natCast]
  rw [habs, Nat.div_mul_cancel (Nat.dvd_of_mod_eq_zero hmod)]

/-- The integer of a whole double has that double as its nearest one. -/
theorem nearest_toInt (hfinite : x.isFinite = true) (hwhole : isWhole x = true) :
    nearest (toInt x).natAbs 1 = rank x := by
  apply nearest_of_exact (by decide) (isFinite_iff.mp hfinite)
  rw [natAbs_toInt hwhole, Nat.mul_one, magnitude]

/-- The text of the integer of a whole double has a whole value with the same integer. -/
theorem exists_evalText_toInt (hfinite : x.isFinite = true) (hwhole : isWhole x = true)
    (scope : Scope) : ∃ y, Expr.evalText scope (toString (toInt x)) = .ok y ∧
      isWhole y = true ∧ toInt y = toInt x := by
  have hr := isFinite_iff.mp hfinite
  have hnearest := nearest_toInt hfinite hwhole
  refine ⟨ofRank (decide (toInt x < 0)) (rank x), ?_, ?_, ?_⟩
  · rw [evalText_integer (hnearest ▸ hr), hnearest]
  · rw [isWhole, magnitude, rank_ofRank hr]
    exact hwhole
  · have habs : magnitude x / one = (toInt x).natAbs := by
      rw [← natAbs_toInt hwhole, Nat.mul_div_cancel _ Binary64.one_pos]
    generalize toInt x = n at habs
    rw [toInt, isNegative_ofRank hr, magnitude, rank_ofRank hr, ← magnitude, habs]
    split
    · rename_i hneg
      rw [decide_eq_true_eq] at hneg
      omega
    · rename_i hneg
      rw [decide_eq_true_eq] at hneg
      omega

end Number

end CadTimeline
