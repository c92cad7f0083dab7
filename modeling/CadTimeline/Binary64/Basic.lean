/-!
# Binary64 values as whole numbers

A finite double is a sign and a whole number of units of `2 ^ -1074`. The
non-negative doubles in increasing order are numbered by their *rank*, which is
also their bit pattern. `nearest` finds the rank of the double closest to a
quotient in exact arithmetic.
-/

namespace CadTimeline.Binary64

/-- The number of units in one. -/
def one : Nat := Nat.pow 2 1074

/-- The rank after the last finite one. -/
def infinityRank : Nat := 2047 * Nat.pow 2 52

/-- The value, in units, of the double of a finite rank. -/
def units (rank : Nat) : Nat :=
  if rank < Nat.pow 2 52 then rank
  else (Nat.pow 2 52 + rank % Nat.pow 2 52) * Nat.pow 2 (rank / Nat.pow 2 52 - 1)

/-- The quotient rounded to a whole number, a half going to the even neighbour. -/
def roundHalfEven (num den : Nat) : Nat :=
  let quotient := num / den
  let twice := 2 * (num % den)
  if twice < den then quotient
  else if den < twice then quotient + 1
  else quotient + quotient % 2

/-- The rank of the double nearest to `num / den`, a tie going to the even rank.
Values too large for a finite double have the rank of infinity. -/
def nearest (num den : Nat) : Nat :=
  let num := num * one
  let shift := (num / den).log2 - 52
  min (shift * Nat.pow 2 52 + roundHalfEven num (den * Nat.pow 2 shift)) infinityRank

def rank (x : Float) : Nat :=
  x.toBits.toNat % Nat.pow 2 63

/-- Whether the sign bit is set, so true of `-0.0`. -/
def isNegative (x : Float) : Bool :=
  Nat.pow 2 63 ≤ x.toBits.toNat

def ofRank (negative : Bool) (rank : Nat) : Float :=
  Float.ofBits (UInt64.ofNat (if negative then Nat.pow 2 63 + rank else rank))

/-- The whole number of units that a finite double stands for, without its sign. -/
def magnitude (x : Float) : Nat :=
  units (rank x)

/-- A rank of at most `2 ^ 52` is its own value. -/
theorem units_of_lt {r : Nat} (h : r < Nat.pow 2 52) : units r = r := by
  simp only [units, if_pos h]

theorem roundHalfEven_mul_right (n : Nat) {d : Nat} (hd : 0 < d) : roundHalfEven (n * d) d = n := by
  simp [roundHalfEven, Nat.mul_div_cancel n hd, hd]

end CadTimeline.Binary64
