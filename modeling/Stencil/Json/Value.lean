import Stencil.Decimal.Shortest

/-!
# JSON values

- `Number` : an integer of at most 64 bits, or a binary floating-point number
- `Value`  : a value; objects keep their members in order, repeated keys included
- `Number.text` : how a number is written
-/

namespace Stencil
namespace Json

open Decimal (Binary64)

/-- A number as it was read. -/
inductive Number where
  | integer (n : Int)
  | float (negative : Bool) (magnitude : Binary64)
  deriving DecidableEq, Repr

inductive Value where
  | null
  | boolean (b : Bool)
  | number (n : Number)
  | string (s : String)
  | array (items : List Value)
  | object (members : List (String × Value))

/-- Numbers from `10 ^ -5` up to below `10 ^ 16` are written positionally. -/
def isPositional (d : Decimal.Digits) : Bool :=
  d.digits.isEmpty || (-4 ≤ d.point && d.point ≤ 16)

/-- A sign in front of a magnitude. -/
def signed (negative : Bool) (cs : List Char) : String :=
  String.ofList (if negative then '-' :: cs else cs)

/-- The text of a number: the fewest digits that read back. -/
def Number.text : Number → String
  | .integer n => signed (n < 0) (Nat.toDigits 10 n.natAbs)
  | .float negative magnitude =>
    let d := Decimal.shortest magnitude
    signed negative (if isPositional d then Decimal.positional d else Decimal.scientific d)

end Json
end Stencil
