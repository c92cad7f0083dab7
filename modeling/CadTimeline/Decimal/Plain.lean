import CadTimeline.Decimal.Shortest

/-!
# Plain decimals

The text of a number without an exponent, as it stands in an action file.
-/

namespace CadTimeline.Decimal

/-- Digits with the point before the last `places` of them, padded with zeros so
that one digit stands before the point. -/
def withPoint (digits : List Char) (places : Nat) : List Char :=
  let whole := digits.length - places
  if places = 0 then digits
  else if whole = 0 then '0' :: '.' :: List.replicate (places - digits.length) '0' ++ digits
  else digits.take whole ++ '.' :: digits.drop whole

/-- The number written out without an exponent. -/
def plain (d : Decimal) : List Char :=
  withPoint (Nat.toDigits 10 d.digits ++ List.replicate d.exponent.toNat '0') (-d.exponent).toNat

end CadTimeline.Decimal

namespace CadTimeline.Number

open Binary64

/-- The text of a magnitude: its shortest plain decimal, of two equally near ones
the greater. -/
def magnitudeText (rank : Nat) : List Char :=
  if rank = 0 then ['0'] else (Decimal.shortest .up rank).plain

/-- A number as messages show it; a set sign is always written. -/
def display (x : Float) : String :=
  if x.isNaN then "NaN"
  else
    let size := if x.isInf then "inf".toList else magnitudeText (rank x)
    String.ofList (if isNegative x then '-' :: size else size)

/-- A number as action files show it: zero has no sign. -/
def plain (x : Float) : String :=
  if x == 0 then "0" else display x

end CadTimeline.Number
