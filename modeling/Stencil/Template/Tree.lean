import Stencil.Json.Value
import Stencil.Template.Span

/-!
# Trees of templates

What a template's text is split into before it is read: text and tags, with white space settled,
literals read and blocks nested. The compiler takes this tree as given, whoever builds it.

- `Parameter` : a value passed in a tag
- `Call`      : the head of a tag with its arguments
- `Element`   : a piece of a template
-/

namespace Stencil
namespace Template

/-- A value passed in a tag. -/
inductive Parameter where
  | reference (text : String)
  | literal (value : Json.Value)
  /-- A call in parentheses. -/
  | call (head : Parameter) (params : List Parameter) (hash : List (String × Parameter))
  /-- Something other than a call in parentheses. -/
  | malformedCall
  | other

/-- The head of a tag with its arguments. -/
structure Call where
  head : Parameter
  params : List Parameter := []
  /-- The keyword arguments. The table that holds them has no order of its own, so they may stand
  in any. -/
  hash : List (String × Parameter) := []

/-- The names that a block binds. -/
inductive Binders where
  | none
  | one (name : Parameter)
  | two (first second : Parameter)
  | other

/-- A piece of a template with its white space settled and its literals read. -/
inductive Element where
  | text (chars : List Char) (span : Span)
  | comment (value : String) (span : Span)
  | output (call : Call) (escaped : Bool) (span : Span)
  | inclusion (call : Call) (span : Span)
  | inclusionBlock
  | decorator
  | block (call : Call) (binders : Binders) (body inverse : Option (List Element)) (span : Span)

end Template
end Stencil
