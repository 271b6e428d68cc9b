/-!
# Positions in a template

- `Span` : the line and column where a construct starts
-/

namespace Stencil
namespace Template

/-- Line and column, both counted from one; zero where the position is unknown. -/
structure Span where
  line : Nat := 0
  column : Nat := 0
  deriving DecidableEq, Repr

end Template
end Stencil
