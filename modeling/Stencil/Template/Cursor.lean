import Stencil.Template.Span

/-!
# Scanning a template

A cursor is a place in a template together with the characters from there on. Scanners move a
cursor forward or fail, and a failed alternative leaves the cursor where it was.

- `Place`, `Cursor` : a place in a template, and the text that follows it
- `Scanner`         : a computation that moves a cursor
- `Scanner.many`    : greedy repetition
-/

namespace Stencil
namespace Template

def isSpaceOrTab (c : Char) : Bool := c == ' ' || c == '\t'

/-- A line feed or a carriage return. -/
def isLineEnd (c : Char) : Bool := c == '\n' || c == '\r'

/-- A place in a template. -/
structure Place where
  /-- How many characters come before. -/
  offset : Nat := 0
  line : Nat := 1
  column : Nat := 1
  /-- Whether the line holds only spaces and tabs up to here. -/
  indented : Bool := true
  deriving DecidableEq, Repr

def Place.after (p : Place) (c : Char) : Place :=
  { offset := p.offset + 1
    line := if c == '\n' then p.line + 1 else p.line
    column := if c == '\n' then 1 else p.column + 1
    indented := isLineEnd c || (p.indented && isSpaceOrTab c) }

/-- The span that starts at a place. -/
def Place.span (p : Place) : Span := ⟨p.line, p.column⟩

/-- A place and the characters from there on. -/
structure Cursor where
  rest : List Char
  place : Place := {}
  deriving DecidableEq, Repr

namespace Cursor

/-- The cursor `n` characters further on. -/
def advance (c : Cursor) (n : Nat) : Cursor :=
  ⟨c.rest.drop n, (c.rest.take n).foldl Place.after c.place⟩

/-- The characters from one cursor up to a later one of the same template. -/
def upTo (start stop : Cursor) : List Char :=
  start.rest.take (stop.place.offset - start.place.offset)

/-- The text from one cursor up to a later one of the same template. -/
def textUpTo (start stop : Cursor) : String :=
  String.ofList (start.upTo stop)

end Cursor

/-- Moves a cursor forward, or fails. -/
abbrev Scanner := StateT Cursor Option

namespace Scanner

def fail {α : Type} : Scanner α := fun _ => none

def satisfy (p : Char → Bool) : Scanner Char := fun c =>
  match c.rest with
  | x :: rest => if p x then some (x, ⟨rest, c.place.after x⟩) else none
  | [] => none

def anyChar : Scanner Char := satisfy fun _ => true

def takeWhile (p : Char → Bool) : Scanner (List Char) := fun c =>
  let cs := c.rest.takeWhile p
  some (cs, c.advance cs.length)

/-- Takes one or more characters that satisfy `p`. -/
def takeWhile1 (p : Char → Bool) : Scanner (List Char) := do
  let cs ← takeWhile p
  if cs.isEmpty then fail else return cs

/-- Whether the given text comes next. -/
def ahead (text : String) : Scanner Bool := fun c =>
  some (text.toList.isPrefixOf c.rest, c)

def token (text : String) : Scanner Unit := fun c =>
  if text.toList.isPrefixOf c.rest then some ((), c.advance text.length) else none

/-- Succeeds without moving where `p` fails. -/
def absent {α : Type} (p : Scanner α) : Scanner Unit := fun c =>
  match p c with
  | some _ => none
  | none => some ((), c)

/-- Runs `p` as long as it succeeds, at most `fuel` times. -/
def manyFrom {α : Type} (p : Scanner α) : Nat → List α → Cursor → List α × Cursor
  | 0, done, c => (done.reverse, c)
  | fuel + 1, done, c =>
    match p c with
    | some (a, next) => manyFrom p fuel (a :: done) next
    | none => (done.reverse, c)

/-- Runs `p`, which takes at least one character, as long as it succeeds. -/
def many {α : Type} (p : Scanner α) : Scanner (List α) := fun c =>
  some (manyFrom p c.rest.length [] c)

/-- Skips the blanks that may stand between the parts of a tag. -/
def blanks : Scanner Unit := do
  let _ ← takeWhile fun c => isSpaceOrTab c || isLineEnd c

/-- Runs `p` after blanks. -/
def spaced {α : Type} (p : Scanner α) : Scanner α := do
  blanks
  p

def here : Scanner Cursor := get

def remaining : Scanner Nat := do
  return (← get).rest.length

end Scanner

end Template
end Stencil
