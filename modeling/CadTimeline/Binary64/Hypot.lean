import CadTimeline.Binary64.Basic

/-!
# Length of the hypotenuse

The square root of a sum of two squares, rounded once from the exact value.
-/

namespace CadTimeline.Binary64

/-- The greatest whole number whose square is not above `n`. -/
def root (n : Nat) : Nat :=
  if h : n = 0 then 0
  else
    let r := 2 * root (n / 4)
    if (r + 1) * (r + 1) ≤ n then r + 1 else r
termination_by n
decreasing_by omega

/-- An infinite side makes the result infinite, even beside a side that is not a
number. The square root is taken to a half unit; a remainder counts as a quarter,
so that it never reads as a tie. -/
def hypot (x y : Float) : Float :=
  if x.isInf || y.isInf then ofRank false infinityRank
  else if x.isNaN || y.isNaN then x + y
  else
    let square := 4 * (magnitude x * magnitude x + magnitude y * magnitude y)
    let half := root square
    let quarters := if half * half = square then 2 * half else 2 * half + 1
    ofRank false (nearest quarters (4 * one))

end CadTimeline.Binary64
