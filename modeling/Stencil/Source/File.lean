import Stencil.Lower.Finish
import Stencil.Options.Basic
import Stencil.Types.Naming
import Stencil.Types.Size

/-!
# Generated source files

A file holds shared constants and modules: the main one with the input's structs and the render
function, one library for each group of partials, and the formatting functions.

- `StructDecl`, `Function`, `Module` : what a file declares
- `SourceFile`                       : a whole file
- `SourceFile.assemble`              : the file of a lowered template
- `SourceFile.text`                  : its text, without indentation
-/

namespace Stencil
namespace Source

open Code (Stmt)
open Lower (Lowered LoweredPartial)
open Stencil.Types (Naming NamedStruct NodeId Store)

/-! ## Declarations -/

/-- A struct with its fields as pairs of type and name. -/
structure StructDecl where
  name : String
  fields : List (String × String)
  deriving DecidableEq, Repr

/-- A function that renders its parameter. -/
structure Function where
  name : String
  /-- The type of the parameter, with where it is kept. -/
  parameter : String
  visibility : String
  body : List Stmt
  deriving Repr

structure Module where
  keyword : String
  name : String
  structs : List StructDecl := []
  functions : List Function
  deriving Repr

structure SourceFile where
  header : String
  pragma : String
  /-- Shared texts by name. -/
  constants : List (String × String)
  modules : List Module
  deriving Repr

/-! ## Structs -/

/-- Sorts members by size, the smallest first and those of varying size last. -/
def sortMembers (s : Store) (members : List (String × NodeId)) : List (String × NodeId) :=
  let size (m : String × NodeId) : Nat := (s.staticSize? m.2).getD Types.maxSize
  members.mergeSort fun a b => size a ≤ size b

/-- The field of a member: its type and its name. -/
def structField (s : Store) (naming : Naming) (m : String × NodeId) :
    Except Error (String × String) := do
  return (← naming.typeName s m.2, m.1)

/-- The declaration of an entry, if it is a struct. -/
def structDecl? (s : Store) (naming : Naming) (e : NamedStruct) :
    Except Error (Option StructDecl) := do
  match s.get e.node with
  | .struct members =>
    let fields ← (sortMembers s members).mapM (structField s naming)
    return some { name := e.name, fields }
  | _ => return none

/-- The declarations of structs, one for each name; entries that are no structs are passed over. -/
def structDecls (s : Store) (naming : Naming) : Except Error (List StructDecl) := do
  return (← naming.structs.mapM (structDecl? s naming)).filterMap id

/-! ## Functions -/

/-- Whether a node is passed by value. -/
def isValueType (s : Store) (id : NodeId) : Bool :=
  match s.get id with
  | .bool | .uint _ | .int _ | .string (some _) => true
  | _ => false

/-- Whether the type of a node names a struct. -/
def isStructBased (s : Store) (id : NodeId) : Bool :=
  match s.get id with
  | .struct _ => true
  | .array _ element => (s.get element).kind? == some .struct
  | _ => false

/-- The function of a partial; outside the main module, structs are named with that module. -/
def partialFunction (s : Store) (naming : Naming) (visibility : String)
    (mainModule : Option String) (p : LoweredPartial) : Except Error Function := do
  let type ← naming.typeName s p.input
  let owner := if isStructBased s p.input then mainModule else none
  let location := if isValueType s p.input then "" else " memory"
  return {
    name := p.name
    parameter := Code.qualified owner type ++ location
    visibility
    body := p.code }

def renderFunction (code : List Stmt) : Function :=
  { name := "render"
    parameter := Types.inputStructName ++ " memory"
    visibility := "public"
    body := code }

/-! ## Modules -/

def mainModule (o : Options) (naming : Naming) (l : Lowered) : Except Error Module := do
  let structs ← structDecls l.store naming
  let own := l.partials.filter (·.group.isNone)
  let functions ← own.mapM (partialFunction l.store naming "internal" none)
  return {
    keyword := if o.contract then "contract" else "library"
    name := o.name
    structs
    functions := renderFunction l.code :: functions }

/-- The groups of partials in the order of their first member. -/
def groupNames (partials : List LoweredPartial) : List String :=
  (partials.filterMap (·.group)).foldl
    (fun done g => if done.contains g then done else done ++ [g]) []

/-- The library of a group of partials. -/
def groupModule (o : Options) (naming : Naming) (l : Lowered) (group : String) :
    Except Error Module := do
  let members := l.partials.filter (·.group == some group)
  let functions ← members.mapM (partialFunction l.store naming "external" (some o.name))
  return { keyword := "library", name := group, functions }

/-- The file of a lowered template. -/
def SourceFile.assemble (o : Options) (constants : List (String × String)) (naming : Naming)
    (l : Lowered) : Except Error SourceFile := do
  let first ← mainModule o naming l
  let groups ← (groupNames l.partials).mapM (groupModule o naming l)
  return { header := o.header, pragma := o.pragma, constants, modules := first :: groups }

/-! ## Text -/

/-- The library of formatting functions. -/
def helperLibrary : List String := [
  "library SolidMustacheHelpers \x7b",
  "function intToString(int256 i, uint256 decimals) internal pure returns (string memory) \x7b",
  "if (i >= 0) \x7b",
  "return uintToString(uint256(i), decimals);",
  "\x7d",
  "return string(abi.encodePacked(\"-\", uintToString(uint256(-i), decimals)));",
  "\x7d",
  "",
  "function uintToString(uint256 i, uint256 decimals) internal pure returns (string memory) \x7b",
  "if (i == 0) \x7b",
  "return \"0\";",
  "\x7d",
  "uint256 j = i;",
  "uint256 len;",
  "while (j != 0) \x7b",
  "len++;",
  "j /= 10;",
  "\x7d",
  "uint256 strLen = decimals >= len ? decimals + 2 : (decimals > 0 ? len + 1 : len);",
  "",
  "bytes memory bstr = new bytes(strLen);",
  "uint256 k = strLen;",
  "while (k > 0) \x7b",
  "k -= 1;",
  "uint8 temp = (48 + uint8(i - (i / 10) * 10));",
  "i /= 10;",
  "bstr[k] = bytes1(temp);",
  "if (decimals > 0 && strLen - k == decimals) \x7b",
  "k -= 1;",
  "bstr[k] = \".\";",
  "\x7d",
  "\x7d",
  "return string(bstr);",
  "\x7d",
  "\x7d"]

/-- Lines as text, each with a line feed. -/
def unlines (lines : List String) : String :=
  String.join (lines.map (· ++ "\n"))

def StructDecl.lines (d : StructDecl) : List String :=
  ["struct " ++ d.name ++ " \x7b"] ++
    d.fields.map (fun (type, field) => type ++ " " ++ field ++ ";") ++ ["\x7d", ""]

def Function.head (f : Function) : String :=
  "function " ++ f.name ++ "(" ++ f.parameter ++ " " ++ inputName ++ ") " ++ f.visibility ++
    " pure returns (string memory " ++ Code.resultName ++ ") \x7b"

def Function.lines (f : Function) : List String :=
  [f.head] ++ Stmt.allLines f.body ++ ["\x7d", ""]

def Module.lines (m : Module) : List String :=
  [m.keyword ++ " " ++ m.name ++ " \x7b"] ++ m.structs.flatMap StructDecl.lines ++
    m.functions.flatMap Function.lines ++ ["\x7d", ""]

/-- The declaration of a shared text. -/
def constantLine (constant : String × String) : String :=
  "string constant " ++ constant.1 ++ " = " ++ Code.literal constant.2 ++ ";"

def SourceFile.lines (f : SourceFile) : List String :=
  [f.header, "pragma solidity " ++ f.pragma ++ ";", ""] ++
    f.constants.map constantLine ++ (if f.constants.isEmpty then [] else [""]) ++
    f.modules.flatMap Module.lines ++ helperLibrary

/-- A file as text without indentation. -/
def SourceFile.text (f : SourceFile) : String := unlines f.lines

end Source
end Stencil
