import Stencil.Types.Store

/-!
# Types in messages

- `Store.display` : a node as a type expression such as `{ name: string, scores: uint8[] }`
-/

namespace Stencil
namespace Types
namespace Store

def lengthText : Option Nat → String
  | none => ""
  | some n => Nat.repr n

/-- A node as a type expression, down to the given depth. -/
def displayUpTo (s : Store) : Nat → NodeId → String
  | 0, _ => "?"
  | depth + 1, id =>
    match s.get id with
    | .unknown => "?"
    | .string none => "string"
    | .string (some n) => "bytes" ++ Nat.repr n
    | .uint length => "uint" ++ lengthText length
    | .int length => "int" ++ lengthText length
    | .bool => "bool"
    | .array length element => s.displayUpTo depth element ++ "[" ++ lengthText length ++ "]"
    | .struct members =>
      if members.isEmpty then "\x7b\x7d"
      else
        let shown := members.map fun (name, member) => name ++ ": " ++ s.displayUpTo depth member
        "\x7b " ++ ", ".intercalate shown ++ " \x7d"

/-- A node as a type expression. -/
def display (s : Store) (id : NodeId) : String :=
  s.displayUpTo s.size id

end Store
end Types
end Stencil
