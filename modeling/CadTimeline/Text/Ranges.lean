/-!
# Ranges of characters

A class of characters given by closed ranges of code points.
-/

namespace CadTimeline.Text

/-- Closed ranges of code points. -/
abbrev Ranges := List (Nat × Nat)

/-- Whether the character lies in one of the ranges. -/
def Ranges.holds (ranges : Ranges) (c : Char) : Bool :=
  ranges.any fun range => range.1 ≤ c.toNat && c.toNat ≤ range.2

end CadTimeline.Text
