import CadTimeline.Decimal.Basic

/-!
# The fewest digits that read back

For one, two, … seventeen digits the decimal numbers with that many digits next
to a double are tried, the nearer one first. The first that reads back as the
double is its shortest form.
-/

namespace CadTimeline.Decimal

/-- Which of two equally near decimal numbers is taken. -/
inductive Tie where
  | up
  | toEven
deriving DecidableEq, Repr

/-- The number of decimal digits of `n`. The binary logarithm bounds it to within two. -/
def digitCount (n : Nat) : Nat :=
  let count := n.log2 * 1233 / 4096
  if n < Nat.pow 10 count then count
  else if n < Nat.pow 10 (count + 1) then count + 1
  else count + 2

/-- The neighbour above, with `count` digits. A carry out of all of them leaves a
one in front, whose zeros belong to the exponent. -/
def above (low : Nat) (count : Nat) (exponent : Int) : Decimal :=
  if low + 1 = Nat.pow 10 count then ⟨1, exponent + count⟩ else ⟨low + 1, exponent⟩

/-- The numbers with `count` digits on the two sides of `d`, the nearer one first. -/
def neighbours (tie : Tie) (d : Decimal) (count : Nat) : List Decimal :=
  let dropped := digitCount d.digits - count
  let unit := Nat.pow 10 dropped
  let exponent := d.exponent + dropped
  let low := d.digits / unit
  let twice := 2 * (d.digits % unit)
  if twice = 0 then [⟨low, exponent⟩]
  else if twice < unit || (twice == unit && tie == .toEven && low % 2 == 0) then
    [⟨low, exponent⟩, above low count exponent]
  else [above low count exponent, ⟨low, exponent⟩]

/-- The shortest decimal number that reads back as the double of a finite rank.
Seventeen digits always suffice; all places are the answer should they not. -/
def shortest (tie : Tie) (rank : Nat) : Decimal :=
  let whole := exact rank
  let candidates := (List.range 17).flatMap fun n => neighbours tie whole (n + 1)
  (candidates.find? (·.rank == rank)).getD whole

end CadTimeline.Decimal
