/-!
# Kinds of input data

- `Kind`           : what a piece of the render input can be
- `Kind.hasLength` : the kinds that carry a width, a byte count or an element count
-/

namespace Stencil
namespace Types

/-- What a piece of the render input can be. -/
inductive Kind where
  | string
  | uint
  | int
  | bool
  | array
  | struct
  deriving DecidableEq, Repr

/-- The name of a kind in messages. -/
def Kind.word : Kind → String
  | .string => "string"
  | .uint => "uint"
  | .int => "int"
  | .bool => "bool"
  | .array => "array"
  | .struct => "struct"

/-- Whether data of this kind may have a fixed length. -/
def Kind.hasLength : Kind → Bool
  | .string | .uint | .int | .array => true
  | .bool | .struct => false

end Types
end Stencil
