/-!
# Ranges of code points

A class of characters is given by closed ranges of code points.
-/

namespace LedPattern.Text

/-- Whether the code point of a character lies in one of some closed ranges. -/
def inRanges (ranges : List (Nat × Nat)) (c : Char) : Bool :=
  ranges.any fun (low, high) => low ≤ c.toNat && c.toNat ≤ high

end LedPattern.Text
