/-!
# Text/Ranges — sets of characters given by ranges of code points

A property of the Unicode standard is a sorted list of closed ranges; `inRanges` reads it.
-/

namespace Scriptlet.Text

/-- The code point of `c` lies in one of the closed ranges. -/
def inRanges (ranges : List (Nat × Nat)) (c : Char) : Bool :=
  ranges.any fun range => range.1 ≤ c.toNat && c.toNat ≤ range.2

end Scriptlet.Text
