import Stencil.Template.Span

/-!
# Templates

A template is a list of statements; blocks own the statements between their tags.

- `PathExpr`  : a reference such as `person.name`, `../title` or `@index`
- `Expr`      : a parameter or keyword argument
- `Statement` : text, interpolation, block, partial inclusion, comment or shared constant
-/

namespace Stencil
namespace Template

/-- A reference into the data of the surrounding scope. -/
structure PathExpr where
  /-- The reference as written. -/
  written : String
  /-- Its name segments, without `this`, `.` and `..`. -/
  parts : List String := []
  /-- How many scopes it climbs first. -/
  depth : Nat := 0
  /-- Whether it names a data variable such as `@index`. -/
  data : Bool := false
  /-- Whether it starts at `this` and so passes by the aliases. -/
  explicitThis : Bool := false
  span : Span := {}
  deriving DecidableEq, Repr

namespace PathExpr

def head? (p : PathExpr) : Option String :=
  p.parts.head?

/-- A text without its leading repetitions of `../`. -/
def dropParents : List Char → List Char
  | '.' :: '.' :: '/' :: rest => dropParents rest
  | cs => cs

/-- The reference as seen from the scope that its depth leads to. -/
def withoutDepth (p : PathExpr) : PathExpr :=
  { p with written := String.ofList (dropParents p.written.toList), depth := 0 }

/-- A single plain name: the form in which keywords and helpers are written. -/
def isPlainName (p : PathExpr) : Bool :=
  p.depth == 0 && !p.data && p.parts.length == 1

end PathExpr

/-- A parameter or keyword argument. -/
inductive Expr where
  | path (p : PathExpr)
  | string (value : String)
  /-- A number, kept as text. -/
  | number (text : String)
  | boolean (value : Bool)
  | null
  /-- A call in parentheses. -/
  | call (head : Expr) (params : List Expr) (hash : List (String × Expr))

/-- The name of an expression's form in messages. -/
def Expr.formName : Expr → String
  | .path _ => "PathExpression"
  | .string _ => "StringLiteral"
  | .number _ => "NumberLiteral"
  | .boolean _ => "BooleanLiteral"
  | .null => "NullLiteral"
  | .call _ _ _ => "SubExpression"

/-- Keyword arguments in order of their keys. -/
abbrev Hash := List (String × Expr)

/-- A piece of a template. -/
inductive Statement where
  /-- Literal text. -/
  | content (value : String) (span : Span)
  /-- A note that leaves no trace in the output. -/
  | comment (value : String) (span : Span)
  /-- A reference to a shared literal. -/
  | constant (name : String) (span : Span)
  /-- An interpolated value, or a helper's result. -/
  | interpolation (head : Expr) (params : List Expr) (hash : Hash) (escaped : Bool) (span : Span)
  /-- A block with the names it binds, its body, and its `else` branch. -/
  | block (head : PathExpr) (params : List Expr) (hash : Hash) (binders : List String)
      (body : List Statement) (inverse : Option (List Statement)) (span : Span)
  /-- The inclusion of a partial. -/
  | inclusion (name : String) (params : List Expr) (hash : Hash) (span : Span)

def Statement.isBlock : Statement → Bool
  | .block .. => true
  | _ => false

/-- A template, or the body of a block. -/
abbrev Program := List Statement

end Template
end Stencil
