import CadTimeline.Binary64.Basic

/-!
# Decimal numbers

A non-negative decimal number and the double nearest to it.
-/

namespace CadTimeline

open Binary64

/-- The number `digits * 10 ^ exponent`. -/
structure Decimal where
  digits : Nat
  exponent : Int
deriving DecidableEq, Repr

namespace Decimal

/-- The rank of the nearest double. The two tests before the division settle
exponents so large or so small that the powers of ten need not be computed. -/
def rank (d : Decimal) : Nat :=
  if d.digits = 0 then 0
  else if 400 < d.exponent then infinityRank
  else if d.digits.log2 + 3 * d.exponent < -1100 then 0
  else nearest (d.digits * Nat.pow 10 d.exponent.toNat) (Nat.pow 10 (-d.exponent).toNat)

def toFloat (d : Decimal) : Float :=
  ofRank false d.rank

/-- The finite double of a rank written out in full. -/
def exact (rank : Nat) : Decimal :=
  ⟨units rank * Nat.pow 5 1074, -1074⟩

end Decimal

end CadTimeline
