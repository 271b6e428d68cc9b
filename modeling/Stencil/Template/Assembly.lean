import Stencil.Json.Reader
import Stencil.Template.Grammar
import Stencil.Template.Reader
import Stencil.Text.Blank

/-!
# Building the tree of a template

White space around tags is settled in one pass over the marked-up text: trimming marks drop the
white space next to their tag, and a tag that stands alone on its line takes the line with it.
Literals are read as values in the same pass, and closing tags are held against opening ones.

Compiling works with any way of splitting text into a tree; the one here is what it is run with
unless another is given.

- `Assembly` : the elements so far, and what is to happen to the text that follows
- `split`    : the tree of a template's text
- `parse`    : the program that is read from it
-/

namespace Stencil
namespace Template

open Text (trimStart trimEnd dropEndWhile)

/-! ## Literals -/

/-- The value of a literal. -/
def LiteralText.value (l : LiteralText) : Except Error Json.Value :=
  match Json.parse l.json with
  | some v => .ok v
  | none => .error (.parse (.invalidParameter l.shown) {})

mutual

def Operand.parameter : Operand → Except Error Parameter
  | .reference text => .ok (.reference text)
  | .literal l => return .literal (← l.value)
  | .call head args => do
    let head ← head.parameter
    let (params, hash) ← Argument.divide args
    return .call head params hash

/-- Positional arguments in order, and the last keyword argument of each key. -/
def Argument.divide :
    List Argument → Except Error (List Parameter × List (String × Parameter))
  | [] => .ok ([], [])
  | .positional value :: rest => do
    let p ← value.parameter
    let (params, hash) ← Argument.divide rest
    return (p :: params, hash)
  | .keyword key value :: rest => do
    let p ← value.parameter
    let (params, hash) ← Argument.divide rest
    return (params, if hash.any (·.1 == key) then hash else (key, p) :: hash)

end

def Tag.call (t : Tag) : Except Error Call := do
  let head ← t.head.parameter
  let (params, hash) ← Argument.divide t.args
  return { head, params, hash }

/-- The names that a tag binds, of which there are at most two. -/
def Tag.binderNames (t : Tag) : Binders :=
  match t.binders with
  | [] => .none
  | [name] => .one (.reference name)
  | [first, second] => .two (.reference first) (.reference second)
  | _ => .other

/-! ## White space -/

/-- The elements so far, the last one first, and what is to happen to the text that follows. -/
structure Assembly where
  done : List Element := []
  /-- Whether white space is dropped up to the next tag. -/
  dropBlanks : Bool := false
  /-- Whether the rest of a tag's line is dropped. -/
  dropLine : Bool := false
  /-- The end of what has been taken in. -/
  reached : Cursor

namespace Assembly

def push (s : Assembly) (e : Element) : Assembly :=
  { s with done := e :: s.done }

/-- Changes the characters of the last element, if it is text. -/
def mapLastText (s : Assembly) (f : List Char → List Char) : Assembly :=
  match s.done with
  | .text chars span :: before => { s with done := .text (f chars) span :: before }
  | _ => s

/-- A text without its first line end. -/
def dropLineEnd : List Char → List Char
  | '\r' :: '\n' :: rest => rest
  | '\n' :: rest => rest
  | cs => cs

/-- The part of a text that is kept after the last tag. -/
def keep (s : Assembly) (chars : List Char) : List Char :=
  if s.dropBlanks then trimStart chars
  else if s.dropLine then dropLineEnd (chars.dropWhile isSpaceOrTab)
  else chars

/-- Adds text that starts at the given place. -/
def pushText (s : Assembly) (chars : List Char) (place : Place) : Assembly :=
  { s.push (.text (s.keep chars) place.span) with dropLine := false }

/-- Takes in the blanks that were skipped before `start`. -/
def gap (s : Assembly) (start : Cursor) : Assembly :=
  if start.place.offset != s.reached.place.offset && !s.dropBlanks then
    s.pushText (s.reached.upTo start) start.place
  else s

/-- Whether only spaces and tabs follow up to a line end, or nothing at all. -/
def endsLine (rest : List Char) : Bool :=
  rest.isEmpty || (rest.dropWhile isSpaceOrTab).head?.any isLineEnd

/-- Whether a tag stands alone on its line. -/
def standsAlone (start stop : Cursor) : Bool :=
  endsLine stop.rest && start.place.indented

/-- Lets a tag take its whole line, if it stands alone on it. -/
def settleLine (s : Assembly) (start stop : Cursor) : Assembly :=
  if standsAlone start stop then
    { s.mapLastText (dropEndWhile isSpaceOrTab) with dropLine := true }
  else { s with dropLine := false }

/-- Applies the trimming marks of a tag. -/
def settleMarks (s : Assembly) (mark : Mark) : Assembly :=
  { (if mark.trimBefore then s.mapLastText trimEnd else s) with dropBlanks := mark.trimAfter }

/-- Takes in a tag's trimming marks and its line. -/
def settle (s : Assembly) (mark : Mark) : Assembly :=
  (s.settleMarks mark).settleLine mark.start mark.stop

/-- Says that everything up to `stop` has been taken in. -/
def reach (s : Assembly) (stop : Cursor) : Assembly :=
  { s with reached := stop }

/-- Starts the elements of a body. -/
def descend (s : Assembly) : Assembly :=
  { s with done := [] }

def elements (s : Assembly) : List Element :=
  s.done.reverse

/-- Goes on after a block whose body started at `outer`. -/
def ascend (s : Assembly) (outer : Assembly) : Assembly :=
  { s with done := outer.done }

end Assembly

/-! ## Blocks -/

/-- The name that the head of a tag gives to a block. -/
def Operand.name? : Operand → Option String
  | .reference text => some text
  | _ => none

/-- Holds a closing tag against the opening one; decorators and partials may leave the name out. -/
def checkClosing (form : BlockForm) (opening : Option String) (closing : String) (span : Span) :
    Except Error Unit :=
  let same := opening == some closing
  match form with
  | .helper =>
    if same then .ok ()
    else .error (.parse (.closingTag .helper (opening.getD "") closing) span)
  | _ =>
    if same || closing.isEmpty then .ok ()
    else .error (.parse (.closingTag .decorator (opening.getD "") closing) span)

/-- Takes in the closing tag of a block. -/
def Assembly.closeBlock (s : Assembly) (form : BlockForm) (opening : Option String)
    (closing : String) (mark : Mark) : Except Error Assembly := do
  let s := (s.gap mark.start).settle mark
  checkClosing form opening closing mark.start.place.span
  return s.reach mark.stop

mutual

/-- Takes in one piece of a template. -/
def assemble (s : Assembly) : Markup → Except Error Assembly
  | .text chars start stop =>
    return (s.pushText (s.reached.upTo start ++ chars) start.place).reach stop
  | .comment value start stop =>
    let s := (s.gap start).settleLine start stop
    return (s.push (.comment value start.place.span)).reach stop
  | .output tag escaped mark => do
    let s := s.gap mark.start
    let call ← tag.call
    let s := s.settleMarks mark
    return (s.push (.output call escaped mark.start.place.span)).reach mark.stop
  | .inclusion tag mark => do
    let s := s.gap mark.start
    let call ← tag.call
    return ((s.settle mark).push (.inclusion call mark.start.place.span)).reach mark.stop
  | .decorator tag mark => do
    let s := s.gap mark.start
    let _ ← tag.call
    return ((s.settle mark).push .decorator).reach mark.stop
  | .block form tag mark body ending => do
    let s := s.gap mark.start
    let call ← tag.call
    let outer := (s.settle mark).reach mark.stop
    let inner ← assembleAll outer.descend body
    let (body, inverse, s) ← assembleEnding form tag.head.name? inner ending
    let e := match form with
      | .helper => Element.block call tag.binderNames (some body) inverse mark.start.place.span
      | .decorator => .decorator
      | .inclusion => .inclusionBlock
    return (s.ascend outer).push e
  | .verbatim tag mark chars start stop closing closingMark => do
    let s := s.gap mark.start
    let call ← tag.call
    let outer := s.settle mark
    let inner := (outer.descend.pushText chars start.place).reach stop
    let s ← inner.closeBlock .helper tag.head.name? closing closingMark
    let e := Element.block call tag.binderNames (some s.elements) none mark.start.place.span
    return (s.ascend outer).push e

/-- Takes in pieces in order. -/
def assembleAll (s : Assembly) : List Markup → Except Error Assembly
  | [] => .ok s
  | m :: rest => do
    assembleAll (← assemble s m) rest

/-- Takes in what follows a body: gives the body's elements and those of the other branch. A
further block is the only element of the branch that it takes the place of. -/
def assembleEnding (form : BlockForm) (opening : Option String) (s : Assembly) :
    Ending → Except Error (List Element × Option (List Element) × Assembly)
  | .close name mark => do
    let s ← s.closeBlock form opening name mark
    return (s.elements, none, s)
  | .otherwise mark body closing closingMark => do
    let s := (s.gap mark.start).settle mark
    let inner ← assembleAll (s.descend.reach mark.stop) body
    let last ← inner.closeBlock form opening closing closingMark
    return (s.elements, some last.elements, last)
  | .chain tag mark body ending => do
    let s := s.gap mark.start
    let call ← tag.call
    let s := s.settle mark
    let inner ← assembleAll (s.descend.reach mark.stop) body
    let (body, inverse, last) ← assembleEnding form opening inner ending
    return (s.elements, some [.block call tag.binderNames (some body) inverse {}], last)

end

/-! ## Whole templates -/

/-- The tree of a template's text. -/
def split (source : String) : Except Error (List Element) := do
  let start : Cursor := ⟨source.toList, {}⟩
  match scan start with
  | none => throw .malformed
  | some (markup, stop) =>
    let s ← assembleAll { reached := start } markup
    return (s.gap stop).elements

/-- The program of a template's text. -/
def parse : String → Except Error Program := parseWith split

end Template
end Stencil
