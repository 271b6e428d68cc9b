/-!
# Access paths

A place in the input of a generated function, such as `__input.items[__i].name`.

- `Origin`, `Accessor` : where a path starts, and one step along it
- `AccessPath`         : a start and the steps from there
-/

namespace Stencil

/-- The name of the input parameter in generated code. -/
def inputName : String := "__input"

/-- Where an access path starts. -/
inductive Origin where
  /-- The input of the function. -/
  | input
  /-- A local variable, which is always a loop index. -/
  | variable (name : String)
  deriving DecidableEq, Repr

/-- One step along an access path. -/
inductive Accessor where
  | member (name : String)
  /-- An element, by a literal number or a loop index. -/
  | index (expr : String)
  deriving DecidableEq, Repr

/-- A start and the steps from there. -/
structure AccessPath where
  origin : Origin := .input
  accessors : List Accessor := []
  deriving DecidableEq, Repr

/-- The name of an origin in generated code. -/
def Origin.text : Origin → String
  | .input => inputName
  | .variable name => name

namespace Accessor

/-- A step as written in generated code. -/
def text : Accessor → String
  | .member name => "." ++ name
  | .index expr => "[" ++ expr ++ "]"

/-- A step as named in messages. -/
def label : Accessor → String
  | .member name => name
  | .index expr => "[" ++ expr ++ "]"

/-- The step for a segment of a reference: digits are an index, all else is a member. -/
def ofSegment (part : String) : Accessor :=
  if !part.isEmpty && part.toList.all Char.isDigit then .index part else .member part

end Accessor

namespace AccessPath

def push (p : AccessPath) (a : Accessor) : AccessPath :=
  { p with accessors := p.accessors ++ [a] }

/-- A path as written in generated code. -/
def text (p : AccessPath) : String :=
  p.origin.text ++ String.join (p.accessors.map Accessor.text)

/-- Whether a path is a loop index itself. -/
def isVariable (p : AccessPath) : Bool :=
  match p.origin with
  | .variable _ => p.accessors.isEmpty
  | .input => false

end AccessPath

end Stencil
