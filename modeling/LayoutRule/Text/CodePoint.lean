/-! # Ranges of code points

A class of characters is a list of ranges, each given by its first and last code point. -/

namespace LayoutRule.Text

/-- Whether a character lies in one of the ranges. -/
def inRanges (ranges : List (Nat × Nat)) (c : Char) : Bool :=
  ranges.any fun r => r.1 ≤ c.toNat && c.toNat ≤ r.2

end LayoutRule.Text
