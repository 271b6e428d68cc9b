import Stencil.AccessPath
import Stencil.Error

/-!
# The store of inferred types

What is known about the render input is kept as nodes that refer to each other by number, so that
scopes, partials and names can all speak of the same node while more about it becomes known.

- `Node`  : what is known about one piece of data
- `Store` : all nodes
- `Store.widen`, `Store.step` : the two ways in which a store grows
-/

namespace Stencil
namespace Types

/-- The number of a node in its store. -/
abbrev NodeId := Nat

/-- What is known about one piece of data. -/
inductive Node where
  | unknown
  /-- Text, of a fixed number of bytes if there is a length. -/
  | string (length : Option Nat)
  /-- A number, of a fixed number of bits if there is a length. -/
  | uint (length : Option Nat)
  | int (length : Option Nat)
  | bool
  | array (length : Option Nat) (element : NodeId)
  /-- Members in the order in which they became known. -/
  | struct (members : List (String × NodeId))
  deriving DecidableEq, Repr

namespace Node

/-- The kind of a node, once it is known. -/
def kind? : Node → Option Kind
  | .unknown => none
  | .string _ => some .string
  | .uint _ => some .uint
  | .int _ => some .int
  | .bool => some .bool
  | .array _ _ => some .array
  | .struct _ => some .struct

/-- The length of a node, if it has one. -/
def length? : Node → Option Nat
  | .string length | .uint length | .int length | .array length _ => length
  | .unknown | .bool | .struct _ => none

/-- The node with its length raised to at least `n`, if nodes of its kind have lengths. -/
def raiseLength? (n : Nat) : Node → Option Node
  | .string length => some (.string (some (raise length)))
  | .uint length => some (.uint (some (raise length)))
  | .int length => some (.int (some (raise length)))
  | .array length element => some (.array (some (raise length)) element)
  | .unknown | .bool | .struct _ => none
where
  /-- The greater of `n` and a length that may be missing. -/
  raise : Option Nat → Nat
    | none => n
    | some m => max m n

/-- The nodes that a node refers to. -/
def children : Node → List NodeId
  | .array _ element => [element]
  | .struct members => members.map (·.2)
  | _ => []

end Node

structure Store where
  nodes : Array Node := #[]
  deriving DecidableEq, Repr

namespace Store

/-- The node of a number; nothing is known about a number that is not in use. -/
def get (s : Store) (id : NodeId) : Node :=
  s.nodes.getD id .unknown

def set (s : Store) (id : NodeId) (node : Node) : Store :=
  ⟨s.nodes.setIfInBounds id node⟩

def size (s : Store) : Nat := s.nodes.size

def alloc (s : Store) (node : Node) : NodeId × Store :=
  (s.size, ⟨s.nodes.push node⟩)

/-- Adds a struct without members, the input of a template. -/
def newRoot (s : Store) : NodeId × Store :=
  s.alloc (.struct [])

/-- Makes an unknown node an empty node of the given kind. -/
def widen (s : Store) (id : NodeId) : Kind → Store
  | .string => s.set id (.string none)
  | .uint => s.set id (.uint none)
  | .int => s.set id (.int none)
  | .bool => s.set id .bool
  | .array =>
    let (element, s) := s.alloc .unknown
    s.set id (.array none element)
  | .struct => s.set id (.struct [])

/-- Follows one step from a node that has been widened for it; a missing member is added. -/
def step (s : Store) (id : NodeId) (a : Accessor) : NodeId × Store :=
  match s.get id, a with
  | .array _ element, .index _ => (element, s)
  | .struct members, .member name =>
    match members.lookup name with
    | some member => (member, s)
    | none =>
      let (member, s) := s.alloc .unknown
      (member, s.set id (.struct (members ++ [(name, member)])))
  | _, _ => (id, s)

end Store

end Types
end Stencil
