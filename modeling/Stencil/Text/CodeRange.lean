/-!
# Ranges of code points

Character classes are kept as ascending lists of closed ranges.

- `CodeRange` : a closed range of code points
- `inRanges`  : membership in a list of ranges
-/

namespace Stencil
namespace Text

/-- The code points from the first to the second number, both included. -/
abbrev CodeRange := Nat × Nat

/-- Whether a code point lies in one of the ranges. -/
def inRanges (ranges : List CodeRange) (n : Nat) : Bool :=
  ranges.any fun r => r.1 ≤ n && n ≤ r.2

end Text
end Stencil
