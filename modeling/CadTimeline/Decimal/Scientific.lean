import CadTimeline.Decimal.Plain

/-!
# Numbers in reports

The text of a number in a JSON report. It always shows a point or an exponent,
and goes over to an exponent from `1e+16` on and below `1e-5`.
-/

namespace CadTimeline.Decimal

/-- `d`, `d.ddd` followed by the exponent of the first digit, whose sign is always
written. -/
def scientific (digits : List Char) (power : Int) : List Char :=
  let fraction := digits.drop 1
  let mantissa := digits.take 1 ++ if fraction.isEmpty then [] else '.' :: fraction
  let sign := if 0 ≤ power then ['+'] else []
  mantissa ++ 'e' :: sign ++ (toString power).toList

/-- The layout by the power of ten of the first digit. -/
def reported (d : Decimal) : List Char :=
  let digits := Nat.toDigits 10 d.digits
  let power := d.exponent + digits.length - 1
  if 16 ≤ power || power < -5 then scientific digits power
  else if 0 ≤ d.exponent then d.plain ++ ['.', '0']
  else d.plain

end CadTimeline.Decimal

namespace CadTimeline.Number

open Binary64

/-- A number in a JSON report: of two equally near shortest decimals the even one.
JSON has no word for a value that is not finite. -/
def reported (x : Float) : String :=
  if !x.isFinite then "null"
  else
    let size := if rank x = 0 then "0.0".toList else (Decimal.shortest .toEven (rank x)).reported
    String.ofList (if isNegative x then '-' :: size else size)

end CadTimeline.Number
