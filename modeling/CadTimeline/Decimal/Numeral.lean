import CadTimeline.Decimal.Basic

/-!
# Numerals

The spelling of a number in an expression: digits with an optional point and an
optional exponent, read as far as they go.
-/

namespace CadTimeline

/-- A numeral taken apart: the digits before the point, those after it, and the
exponent. -/
structure Numeral where
  whole : List Char
  fraction : List Char
  exponent : Int
deriving DecidableEq, Repr

namespace Numeral

def ofDigits (digits : List Char) : Nat :=
  Nat.ofDigitChars 10 digits 0

def toDecimal (n : Numeral) : Decimal :=
  ⟨ofDigits (n.whole ++ n.fraction), n.exponent - n.fraction.length⟩

def toFloat (n : Numeral) : Float :=
  n.toDecimal.toFloat

/-- A point with the digits after it. A point needs a digit on one of its sides. -/
def takeFraction (whole : List Char) : List Char → List Char × List Char
  | '.' :: cs =>
    let digits := cs.takeWhile Char.isDigit
    if whole.isEmpty && digits.isEmpty then ([], '.' :: cs) else (digits, cs.dropWhile Char.isDigit)
  | cs => ([], cs)

/-- The digits of an exponent with its sign, if there is at least one digit. -/
def takePower : List Char → Option (Int × List Char)
  | '-' :: cs => digitsOf cs fun n => -(n : Int)
  | '+' :: cs => digitsOf cs Int.ofNat
  | cs => digitsOf cs Int.ofNat
where
  digitsOf (cs : List Char) (sign : Nat → Int) : Option (Int × List Char) :=
    let digits := cs.takeWhile Char.isDigit
    if digits.isEmpty then none else some (sign (ofDigits digits), cs.dropWhile Char.isDigit)

/-- An exponent; an `e` that no digits follow is not part of the numeral. -/
def takeExponent (cs : List Char) : Int × List Char :=
  match cs with
  | c :: rest => if c == 'e' || c == 'E' then (takePower rest).getD (0, cs) else (0, cs)
  | [] => (0, [])

/-- The longest numeral at the start of the text, with what follows it. -/
def scan (cs : List Char) : Option (Numeral × List Char) :=
  let whole := cs.takeWhile Char.isDigit
  let (fraction, rest) := takeFraction whole (cs.dropWhile Char.isDigit)
  if whole.isEmpty && fraction.isEmpty then none
  else
    let (exponent, rest) := takeExponent rest
    some (⟨whole, fraction, exponent⟩, rest)

/-- The digits after the point come off the text. -/
theorem length_takeFraction_le (whole cs : List Char) :
    (takeFraction whole cs).1.length + (takeFraction whole cs).2.length ≤ cs.length := by
  unfold takeFraction
  split
  · rename_i cs
    have := congrArg List.length (List.takeWhile_append_dropWhile (p := Char.isDigit) (l := cs))
    simp only [List.length_append] at this
    dsimp only
    split
    · simp
    · simp only [List.length_cons]
      omega
  · simp

theorem length_takePower_le {cs rest : List Char} {n : Int} (h : takePower cs = some (n, rest)) :
    rest.length ≤ cs.length := by
  have digits : ∀ {cs sign}, takePower.digitsOf cs sign = some (n, rest) →
      rest.length ≤ cs.length := by
    intro cs sign h
    simp only [takePower.digitsOf] at h
    split at h
    · contradiction
    · cases h
      exact (List.dropWhile_sublist _).length_le
  unfold takePower at h
  split at h
  · exact Nat.le_succ_of_le (digits h)
  · exact Nat.le_succ_of_le (digits h)
  · exact digits h

theorem length_takeExponent_le (cs : List Char) : (takeExponent cs).2.length ≤ cs.length := by
  unfold takeExponent
  split
  · rename_i c rest
    split
    · cases h : takePower rest with
      | none => simp
      | some p => exact Nat.le_succ_of_le (length_takePower_le (n := p.1) (by simp [h]))
    · simp
  · simp

theorem length_scan_lt {cs rest : List Char} {n : Numeral} (h : scan cs = some (n, rest)) :
    rest.length < cs.length := by
  have split_length := congrArg List.length
    (List.takeWhile_append_dropWhile (p := Char.isDigit) (l := cs))
  simp only [List.length_append] at split_length
  have fraction := length_takeFraction_le (cs.takeWhile Char.isDigit) (cs.dropWhile Char.isDigit)
  simp only [scan] at h
  split at h
  · contradiction
  · rename_i nonempty
    cases h
    have exponent := length_takeExponent_le
      (takeFraction (cs.takeWhile Char.isDigit) (cs.dropWhile Char.isDigit)).2
    simp only [Bool.and_eq_true, List.isEmpty_iff, Classical.not_and_iff_not_or_not,
      ← List.length_eq_zero_iff] at nonempty
    omega

end Numeral

end CadTimeline
