import Stencil.AccessPath
import Stencil.Code.Append
import Stencil.Code.Literal

/-!
# Generated statements

The body of a generated function, before it is written out.

- `Atom`, `Fragment` : string expressions that are appended to the result
- `Stmt`             : appends, loops and branches
- `Stmt.lines`       : a statement as lines of source
-/

namespace Stencil
namespace Code

/-- A string expression without choices. -/
inductive Atom where
  | literal (text : String)
  /-- A shared literal, by its name. -/
  | constant (name : String)
  /-- Data of the input. -/
  | value (path : AccessPath)
  /-- A number, formatted with some decimals. -/
  | number (signed : Bool) (path : AccessPath) (decimals : Nat)
  /-- The result of a partial, which may live in a library of its own. -/
  | call (group : Option String) (name : String) (context : AccessPath)
  deriving DecidableEq, Repr

/-- A flag of the input, or its negation. -/
structure Condition where
  negated : Bool
  path : AccessPath
  deriving DecidableEq, Repr

inductive Fragment where
  | atom (a : Atom)
  /-- One of two expressions; a missing one is empty. -/
  | select (condition : Condition) (whenTrue : Atom) (whenFalse : Option Atom)
  deriving DecidableEq, Repr

inductive Stmt where
  /-- Appends expressions to the result. -/
  | append (items : List Fragment)
  /-- Runs its body for every index of an array. -/
  | loop (index : String) (items : AccessPath) (body : List Stmt)
  /-- Runs its body if the condition holds. -/
  | branch (condition : Condition) (body : List Stmt)
  /-- Runs one of two bodies. -/
  | branchElse (condition : Condition) (body otherwise : List Stmt)
  deriving Repr

/-! ## Expressions -/

/-- The library of formatting functions. -/
def helperLibraryName : String := "SolidMustacheHelpers"

def helperCall (function argument : String) (decimals : Nat) : String :=
  helperLibraryName ++ "." ++ function ++ "(" ++ argument ++ ", " ++ Nat.repr decimals ++ ")"

def formatFunction (signed : Bool) : String :=
  if signed then "intToString" else "uintToString"

/-- A name in its library. -/
def qualified (group : Option String) (name : String) : String :=
  match group with
  | some library => library ++ "." ++ name
  | none => name

namespace Atom

def text : Atom → String
  | .literal content => Code.literal content
  | .constant name => name
  | .value path => path.text
  | .number signed path decimals => helperCall (formatFunction signed) path.text decimals
  | .call group name context => qualified group name ++ "(" ++ context.text ++ ")"

/-- An expression as one side of a choice: both sides have to be of one type, so literals are
converted. -/
def operandText (a : Atom) : String :=
  if a.text.toList.head? == some '"' then "string(" ++ a.text ++ ")" else a.text

end Atom

def Condition.text (c : Condition) : String :=
  (if c.negated then "!" else "") ++ c.path.text

def Fragment.text : Fragment → String
  | .atom a => a.text
  | .select condition whenTrue whenFalse =>
    condition.text ++ " ? " ++ whenTrue.operandText ++ " : " ++
      (match whenFalse with
        | some a => a.operandText
        | none => "\"\"")

/-! ## Lines -/

def loopHead (index : String) (items : AccessPath) : String :=
  "for(uint256 " ++ index ++ "; " ++ index ++ " < " ++ items.text ++ ".length; " ++ index ++
    "++) \x7b"

def branchHead (condition : Condition) : String :=
  "if(" ++ condition.text ++ ") \x7b"

mutual

def Stmt.lines : Stmt → List String
  | .append items => [appendStatement (items.map Fragment.text)]
  | .loop index items body => loopHead index items :: Stmt.allLines body ++ ["\x7d"]
  | .branch condition body => branchHead condition :: Stmt.allLines body ++ ["\x7d"]
  | .branchElse condition body otherwise =>
    branchHead condition :: Stmt.allLines body ++ "\x7d else \x7b" :: Stmt.allLines otherwise ++
      ["\x7d"]

def Stmt.allLines : List Stmt → List String
  | [] => []
  | s :: rest => s.lines ++ Stmt.allLines rest

end

end Code
end Stencil
