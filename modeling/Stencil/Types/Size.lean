import Stencil.Text.Unsigned
import Stencil.Types.Store

/-!
# Static sizes

- `Store.staticSize?` : how many bits a node always takes, up to a greatest number
-/

namespace Stencil
namespace Types

/-- The greatest size that is told apart; larger ones count as this. -/
def maxSize : Nat := Text.bound64 - 1

/-- A size, at most the greatest one. -/
def capSize (n : Nat) : Nat := min n maxSize

namespace Store

/-- The size of a node, down to the given depth. -/
def staticSizeUpTo (s : Store) : Nat → NodeId → Option Nat
  | 0, _ => none
  | depth + 1, id =>
    match s.get id with
    | .unknown => none
    | .string length => length.map (8 * ·)
    | .uint length | .int length => some (length.getD 256)
    | .bool => some 8
    | .array length element => do
      let n ← length
      return capSize ((← s.staticSizeUpTo depth element) * n)
    | .struct members =>
      members.foldlM (fun sum (_, member) => do
        return capSize (sum + (← s.staticSizeUpTo depth member))) 0

/-- How many bits a node always takes; nothing for data of varying size. -/
def staticSize? (s : Store) (id : NodeId) : Option Nat :=
  s.staticSizeUpTo s.size id

end Store
end Types
end Stencil
