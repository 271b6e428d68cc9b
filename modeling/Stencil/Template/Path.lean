import Stencil.Error
import Stencil.Template.Statement

/-!
# Path expressions

The text of a reference, such as `../items.[0].name`, is taken apart into its depth and its
segments.

- `splitSegments` : the segments of a path, plain or in brackets
- `parsePath`     : a whole path
-/

namespace Stencil
namespace Template

/-- The segment being read: its characters, last first, and whether it has brackets. -/
structure Segment where
  chars : List Char := []
  bracketed : Bool := false
  deriving DecidableEq, Repr

namespace Segment

/-- Whether nothing has been read for the segment. -/
def missing (s : Segment) : Bool := s.chars.isEmpty && !s.bracketed

def text (s : Segment) : String := String.ofList s.chars.reverse

end Segment

mutual

/-- The segments of a path from the given one on; every segment needs some text or brackets. -/
def segmentsFrom (current : Segment) : List Char → Option (List String)
  | [] => if current.missing then none else some [current.text]
  | c :: rest =>
    if c == '[' && current.chars.isEmpty then bracketFrom current rest
    else if c == '.' || c == '/' then
      if current.missing then none
      else (segmentsFrom {} rest).map (current.text :: ·)
    else segmentsFrom { current with chars := c :: current.chars } rest

/-- The segments of a path from inside a bracket on. -/
def bracketFrom (current : Segment) : List Char → Option (List String)
  | [] => some [current.text]
  | c :: rest =>
    if c == ']' then segmentsFrom { current with bracketed := true } rest
    else bracketFrom { current with chars := c :: current.chars } rest

end

/-- The segments of a path; an empty text has none. -/
def splitSegments (text : List Char) : Option (List String) :=
  if text.isEmpty then some [] else segmentsFrom {} text

/-- How often a path goes to the parent, and what follows. -/
def splitDepth : List Char → Nat × List Char
  | ['.', '.'] => (1, [])
  | '.' :: '.' :: '/' :: rest => ((splitDepth rest).1 + 1, (splitDepth rest).2)
  | cs => (0, cs)

/-- Whether a path starts at `this`, and what follows. -/
def splitThis (cs : List Char) : Bool × List Char :=
  match cs with
  | ['.'] => (true, [])
  | ['t', 'h', 'i', 's'] => (true, [])
  | '.' :: '/' :: rest => (true, rest)
  | 't' :: 'h' :: 'i' :: 's' :: '.' :: rest => (true, rest)
  | 't' :: 'h' :: 'i' :: 's' :: '/' :: rest => (true, rest)
  | _ => (false, cs)

/-- Whether a path names a data variable, and what follows the sign for it. -/
def splitData : List Char → Bool × List Char
  | '@' :: rest => (true, rest)
  | cs => (false, cs)

/-- Takes the text of a path apart. -/
def parsePath (text : String) (span : Span) : Except TemplateFault PathExpr :=
  let (data, rest) := splitData text.toList
  let (depth, rest) := splitDepth rest
  let (explicitThis, rest) := splitThis rest
  match splitSegments rest with
  | none => .error (.invalidPath (String.ofList rest))
  | some parts =>
    if data && parts.isEmpty then .error (.invalidDataVariable text)
    else .ok { written := text, parts, depth, data, explicitThis, span }

end Template
end Stencil
