import Stencil.Name
import Stencil.Types.Compare
import Stencil.Types.Display

/-!
# Names of structs

Structs are named after the field that holds them, and share one declaration where their shapes are
compatible.

- `Naming`          : the names given to the struct nodes of an input, in visiting order
- `Naming.generate` : names every struct below a root
- `Naming.find?`    : the name of a node
- `Naming.typeName` : a node's type as spelled in generated code
-/

namespace Stencil
namespace Types

open Name (capitalize freshName singularize)

def inputStructName : String := "__Input"

/-- A struct node and its name. -/
structure NamedStruct where
  name : String
  node : NodeId
  deriving DecidableEq, Repr

/-- The names given to struct nodes, in visiting order. -/
structure Naming where
  entries : List NamedStruct
  /-- Whether integers without a width are spelled with one. -/
  explicitTypes : Bool := true
  deriving DecidableEq, Repr

/-- The first entry, other than the input struct, that can share its declaration with a node. -/
def sharedStruct? (s : Store) (entries : List NamedStruct) (id : NodeId) : Option NamedStruct :=
  entries.find? fun e => e.name != inputStructName && s.compatible e.node id

def isTaken (entries : List NamedStruct) (name : String) : Bool :=
  entries.any (·.name == name)

/-- Gives all entries of one name another. -/
def rename (entries : List NamedStruct) (old new : String) : List NamedStruct :=
  entries.map fun e => if e.name == old then { e with name := new } else e

/-- Names a struct node after a field. Where it shares a declaration, that keeps its name, unless
the field gives a shorter one that is free. -/
def register (s : Store) (field : String) (id : NodeId) (entries : List NamedStruct) :
    Except Error (List NamedStruct) :=
  let name := capitalize field
  match sharedStruct? s entries id with
  | some shared =>
    if name.utf8ByteSize < shared.name.utf8ByteSize && !isTaken entries name then
      .ok (rename entries shared.name name ++ [⟨name, id⟩])
    else .ok (entries ++ [⟨shared.name, id⟩])
  | none =>
    match freshName (entries.map (·.name)) name with
    | some name => .ok (entries ++ [⟨name, id⟩])
    | none => .error .endless

/-- Names the struct that a member holds, if it holds one, and goes on inside that with
`descend`. -/
def visitMember (s : Store)
    (descend : NodeId → List NamedStruct → Except Error (List NamedStruct))
    (entries : List NamedStruct) (member : String × NodeId) : Except Error (List NamedStruct) :=
  let (field, id) := member
  match s.get id with
  | .struct _ => register s field id entries >>= descend id
  | .array _ element =>
    match s.get element with
    | .struct _ => register s (singularize field) element entries >>= descend element
    | .array _ _ => .error (.multiDimensionalArray field)
    | _ => .ok entries
  | _ => .ok entries

/-- Names the structs inside a struct, down to the given depth. -/
def visitStruct (s : Store) :
    Nat → NodeId → List NamedStruct → Except Error (List NamedStruct)
  | 0, _, entries => .ok entries
  | depth + 1, id, entries =>
    match s.get id with
    | .struct members => members.foldlM (visitMember s (visitStruct s depth)) entries
    | _ => .ok entries

namespace Naming

/-- Names every struct below a root, in the order of members. -/
def generate (s : Store) (root : NodeId) (explicitTypes : Bool) : Except Error Naming := do
  let entries ← visitStruct s s.size root [⟨inputStructName, root⟩]
  return { entries, explicitTypes }

/-- The name of a node: its own, or that of the first struct that it can share with. -/
def find? (n : Naming) (s : Store) (id : NodeId) : Option String :=
  ((n.entries.find? (·.node == id)).or (sharedStruct? s n.entries id)).map (·.name)

def firstOfEachName : List NamedStruct → List NamedStruct → List NamedStruct
  | done, [] => done
  | done, e :: rest =>
    firstOfEachName (if isTaken done e.name then done else done ++ [e]) rest

/-- The structs to declare. -/
def structs (n : Naming) : List NamedStruct :=
  firstOfEachName [] n.entries

/-- An integer type. -/
def integerName (n : Naming) (base : String) : Option Nat → String
  | some width => base ++ Nat.repr width
  | none => if n.explicitTypes then base ++ "256" else base

/-- The type of a node that is no array. -/
def plainTypeName (n : Naming) (s : Store) (id : NodeId) : Except Error String :=
  match s.get id with
  | .unknown => .ok "string"
  | .string none => .ok "string"
  | .string (some bytes) => .ok ("bytes" ++ Nat.repr bytes)
  | .uint width => .ok (n.integerName "uint" width)
  | .int width => .ok (n.integerName "int" width)
  | .bool => .ok "bool"
  | .array _ _ => .error (.multiDimensionalArray (s.display id))
  | .struct _ =>
    match n.find? s id with
    | some name => .ok name
    | none => .error (.unnamedType (s.display id))

/-- The type of a node. Arrays hold anything but arrays. -/
def typeName (n : Naming) (s : Store) (id : NodeId) : Except Error String :=
  match s.get id with
  | .array length element =>
    match s.get element with
    | .array _ _ => .error (.multiDimensionalArray (s.display id))
    | _ => do
      return (← n.plainTypeName s element) ++ "[" ++ Store.lengthText length ++ "]"
  | _ => n.plainTypeName s id

end Naming
end Types
end Stencil
