import Stencil.Error
import Stencil.Text.Blank

/-!
# Indentation of generated source

Generated source has no indentation of its own. It is laid out by the depth of its braces, with at
most one blank line between statements and none after an opening or before a closing brace. Braces
in string literals and comments do not count.

- `Scan`, `scanLine`     : the braces of one line, read character by character
- `Layout`, `layoutLine` : what one line does to the depth and to the output
- `indent`               : the laid-out text
-/

namespace Stencil
namespace Source

open Text

/-! ## Braces of a line -/

structure BraceCounts where
  opens : Nat := 0
  closes : Nat := 0
  /-- Closing braces before any other code on the line. -/
  leadingCloses : Nat := 0
  deriving DecidableEq, Repr

/-- Where the scanner of a line stands. -/
inductive ScanMode where
  | code
  /-- After a slash that may start a comment. -/
  | slash
  /-- Inside a comment that lasts to the end of the line. -/
  | lineComment
  /-- Inside a comment that lasts over line ends. -/
  | blockComment
  /-- Inside such a comment, after a star that may end it. -/
  | star
  /-- Inside a literal that the given quote ends. -/
  | quoted (quote : Char)
  /-- Inside such a literal, after a backslash. -/
  | escaped (quote : Char)
  deriving DecidableEq, Repr

def ScanMode.inBlockComment : ScanMode → Bool
  | .blockComment | .star => true
  | _ => false

/-- The scanner of a line. -/
structure Scan where
  mode : ScanMode
  /-- Whether nothing but closing braces, blanks and comments came before. -/
  leading : Bool := true
  counts : BraceCounts := {}
  deriving DecidableEq, Repr

/-- Takes one character of code. -/
def Scan.code (s : Scan) (c : Char) : Scan :=
  if c == '"' || c == '\'' then { s with mode := .quoted c, leading := false }
  else if c == '/' then { s with mode := .slash }
  else if c == '\x7b' then
    { mode := .code, leading := false, counts := { s.counts with opens := s.counts.opens + 1 } }
  else if c == '\x7d' then
    { s with
      mode := .code
      counts := { s.counts with
        closes := s.counts.closes + 1
        leadingCloses := s.counts.leadingCloses + (if s.leading then 1 else 0) } }
  else { s with mode := .code, leading := s.leading && isBlank c }

/-- Takes one character of a line. -/
def Scan.step (s : Scan) (c : Char) : Scan :=
  match s.mode with
  | .code => s.code c
  | .slash =>
    if c == '/' then { s with mode := .lineComment }
    else if c == '*' then { s with mode := .blockComment }
    else Scan.code { s with leading := false } c
  | .lineComment => s
  | .blockComment => if c == '*' then { s with mode := .star } else s
  | .star =>
    if c == '/' then { s with mode := .code }
    else if c == '*' then s
    else { s with mode := .blockComment }
  | .quoted quote =>
    if c == '\\' then { s with mode := .escaped quote }
    else if c == quote then { s with mode := .code }
    else s
  | .escaped quote => { s with mode := .quoted quote }

/-- The braces of a line, given whether it starts inside a block comment, and whether it ends
inside one. -/
def scanLine (inComment : Bool) (line : List Char) : BraceCounts × Bool :=
  let s := line.foldl Scan.step { mode := if inComment then .blockComment else .code }
  (s.counts, s.mode.inBlockComment)

/-! ## Layout -/

/-- How source is laid out. -/
structure Style where
  printWidth : Nat := 80
  tabWidth : Nat := 4
  useTabs : Bool := false
  singleQuote : Bool := false
  bracketSpacing : Bool := false
  /-- Whether integers without a width are spelled with one. -/
  explicitTypes : Bool := true
  deriving DecidableEq, Repr

/-- One step of indentation. -/
def Style.unit (style : Style) : List Char :=
  if style.useTabs then ['\t'] else List.replicate style.tabWidth ' '

/-- What the layout of a line depends on. -/
structure Layout where
  depth : Nat := 0
  inComment : Bool := false
  /-- Whether blank lines have just been passed over. -/
  pendingBlank : Bool := false
  /-- Whether the last line ended in an opening brace, or there was none. -/
  afterOpen : Bool := true
  deriving DecidableEq, Repr

/-- Lays out one trimmed line: the state after it and the lines it gives. -/
def layoutLine (unit : List Char) (number : Nat) (state : Layout) (line : List Char) :
    Except Error (Layout × List (List Char)) :=
  if line.isEmpty then .ok ({ state with pendingBlank := true }, [])
  else
    let (k, inComment) := scanLine state.inComment line
    if k.closes > state.depth + k.opens then .error (.format (.unmatchedClose number))
    else
      let blank := state.pendingBlank && !state.afterOpen && k.leadingCloses == 0
      let level := state.depth - k.leadingCloses
      let shown := (List.replicate level unit).flatten ++ line
      let next : Layout :=
        { depth := state.depth + k.opens - k.closes
          inComment := inComment
          pendingBlank := false
          afterOpen := line.getLast? == some '\x7b' }
      .ok (next, if blank then [[], shown] else [shown])

/-- Lays out trimmed lines, of which the first has the given number. -/
def layoutLines (unit : List Char) (number : Nat) (state : Layout) :
    List (List Char) → Except Error (List (List Char))
  | [] =>
    if state.depth > 0 then .error (.format (.unclosed state.depth)) else .ok []
  | line :: rest => do
    let (next, shown) ← layoutLine unit number state line
    let later ← layoutLines unit (number + 1) next rest
    return shown ++ later

/-- The lines of a text, without their line feeds. -/
def splitLines : List Char → List (List Char)
  | [] => [[]]
  | c :: rest =>
    if c == '\n' then [] :: splitLines rest
    else match splitLines rest with
      | [] => [[c]]
      | line :: lines => (c :: line) :: lines

/-- Lines as a text, each with a line feed. -/
def joinLines (lines : List (List Char)) : List Char :=
  lines.flatMap (· ++ ['\n'])

/-- Lays out source text by the depth of its braces. -/
def indent (style : Style) (source : String) : Except Error String := do
  let lines ← layoutLines style.unit 1 {} ((splitLines source.toList).map trim)
  return String.ofList (joinLines lines)

end Source
end Stencil
