/-!
# Ranges of code points

A class of characters is a list of ranges of code points, each given by its ends, both included.
-/

namespace SimplexMethod.Text

/-- Whether the code point of a character lies in one of the ranges. -/
def inRanges (ranges : List (Nat × Nat)) (c : Char) : Bool :=
  ranges.any fun range => range.1 ≤ c.toNat && c.toNat ≤ range.2

end SimplexMethod.Text
