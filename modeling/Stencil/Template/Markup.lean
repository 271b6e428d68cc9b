import Stencil.Template.Cursor

/-!
# Marked-up text

What the grammar finds in a template: text, comments and tags, with blocks already nested. White
space is still as written, and literals are still text.

- `Operand`, `Argument` : what a tag passes
- `Tag`, `Mark`         : a tag's contents, and its place with its trimming marks
- `Markup`, `Ending`    : a piece of a template, and how a block goes on after a body
-/

namespace Stencil
namespace Template

/-- A literal as written, and the JSON text that it stands for. -/
structure LiteralText where
  shown : String
  json : String
  deriving DecidableEq, Repr

mutual

/-- A value passed in a tag. -/
inductive Operand where
  | reference (text : String)
  | literal (value : LiteralText)
  /-- A call in parentheses. -/
  | call (head : Operand) (args : List Argument)

/-- A positional or keyword argument. -/
inductive Argument where
  | positional (value : Operand)
  | keyword (key : String) (value : Operand)

end

/-- The contents of a tag. -/
structure Tag where
  head : Operand
  args : List Argument := []
  /-- The names that a block binds. -/
  binders : List String := []

/-- The place of a tag and its trimming marks. -/
structure Mark where
  start : Cursor
  stop : Cursor
  /-- Whether white space before the tag is dropped. -/
  trimBefore : Bool
  /-- Whether white space after the tag is dropped. -/
  trimAfter : Bool

/-- Which tags open and close a block. -/
inductive BlockForm where
  | helper
  | decorator
  | inclusion
  deriving DecidableEq, Repr

mutual

/-- A piece of a template. -/
inductive Markup where
  /-- Literal text, with its escapes resolved. -/
  | text (chars : List Char) (start stop : Cursor)
  | comment (value : String) (start stop : Cursor)
  | output (tag : Tag) (escaped : Bool) (mark : Mark)
  | inclusion (tag : Tag) (mark : Mark)
  | decorator (tag : Tag) (mark : Mark)
  | block (form : BlockForm) (tag : Tag) (mark : Mark) (body : List Markup)
      (ending : Ending)
  /-- A block whose body is taken as text. -/
  | verbatim (tag : Tag) (mark : Mark) (chars : List Char) (start stop : Cursor)
      (closing : String) (closingMark : Mark)

/-- How a block goes on after a body. -/
inductive Ending where
  | close (name : String) (mark : Mark)
  /-- A last body, for when nothing else applies. -/
  | otherwise (mark : Mark) (body : List Markup) (closing : String) (closingMark : Mark)
  /-- A further block that takes the place of the last body. -/
  | chain (tag : Tag) (mark : Mark) (body : List Markup) (ending : Ending)

end

end Template
end Stencil
