import CadTimeline.Binary64.Basic

/-!
# Whole numbers among the doubles

Rounding a double to a whole number in the three ways that expressions and rail
sketches use, and reading a whole double as an integer. All of it is exact: a
whole number between two doubles of one sign is a double itself or the double
has no fraction to lose.
-/

namespace CadTimeline.Binary64

/-- Replaces the magnitude of a finite double, in units, by a whole number and
keeps the sign. -/
def mapWhole (f : Bool → Nat → Nat) (x : Float) : Float :=
  if x.isFinite then ofRank (isNegative x) (nearest (f (isNegative x) (magnitude x)) 1) else x

def divUp (num den : Nat) : Nat :=
  (num + den - 1) / den

/-- The greatest whole number not above `x`. -/
def floor (x : Float) : Float :=
  mapWhole (fun negative n => if negative then divUp n one else n / one) x

/-- The least whole number not below `x`; the ceiling of a value above `-1` and
below zero is `-0`. -/
def ceil (x : Float) : Float :=
  mapWhole (fun negative n => if negative then n / one else divUp n one) x

/-- The whole number nearest to `x`, a half going away from zero. -/
def round (x : Float) : Float :=
  mapWhole (fun _ n => (2 * n + one) / (2 * one)) x

def isWhole (x : Float) : Bool :=
  magnitude x % one == 0

/-- The integer that a finite double stands for when it is whole; otherwise its
fraction is dropped. -/
def toInt (x : Float) : Int :=
  if isNegative x then -((magnitude x / one : Nat) : Int) else ((magnitude x / one : Nat) : Int)

end CadTimeline.Binary64
