/-!
# Sets of code points

A property of characters is kept as its closed ranges of code points.
-/

namespace Offside.Text

/-- Whether the code point of `c` is in one of the ranges, ends included. -/
def inRanges (ranges : List (Nat × Nat)) (c : Char) : Bool :=
  ranges.any fun range => range.1 ≤ c.toNat && c.toNat ≤ range.2

end Offside.Text
