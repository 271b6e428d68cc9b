import Stencil.Error
import Stencil.Factor.Repeats
import Stencil.Ordered
import Stencil.Template.Statement
import Stencil.Text.Blank

/-!
# Shared text of templates

A template is read together with the partials that it reaches. Text that repeats anywhere in them
is then replaced by references to shared constants.

- `traverseStatement` : replaces the text in a statement
- `readWith`          : how a source is read
- `readAll`           : reads a template and its partials, and collects their text
- `Sharing`           : replaces text by the pieces that were found for it
- `factor`            : both, as one
-/

namespace Stencil
namespace Factor

open Template (Program Span Statement)

/-! ## Traversal -/

mutual

/-- Replaces the text in a statement by `content`, and calls `enter` for every partial. -/
def traverseStatement {m : Type → Type} [Monad m] (content : String → Span → m Program)
    (enter : String → m Unit) : Statement → m Program
  | .content value span => content value span
  | .block head params hash binders body inverse span => do
    let body ← traverseProgram content enter body
    match inverse with
    | none => return [.block head params hash binders body none span]
    | some otherwise =>
      let otherwise ← traverseProgram content enter otherwise
      return [.block head params hash binders body (some otherwise) span]
  | .inclusion name params hash span => do
    enter name
    return [.inclusion name params hash span]
  | .comment value span => return [.comment value span]
  | .constant name span => return [.constant name span]
  | .interpolation head params hash escaped span =>
    return [.interpolation head params hash escaped span]

def traverseProgram {m : Type → Type} [Monad m] (content : String → Span → m Program)
    (enter : String → m Unit) : Program → m Program
  | [] => return []
  | s :: rest => do
    let first ← traverseStatement content enter s
    return first ++ (← traverseProgram content enter rest)

end

/-! ## Reading -/

/-- How a source is read: with its white space condensed, if that is asked for. -/
def readWith (parse : String → Except Error Program) (condense : Bool) (source : String) :
    Except Error Program :=
  parse (if condense then Text.condenseWhitespace source else source)

/-- What has been read. -/
structure Library where
  /-- The partials that have been met. -/
  visited : List String := []
  /-- The partials that have been read with all that they reach. -/
  programs : List (String × Program) := []
  /-- The text of all of them, in the order of reading. -/
  contents : List String := []

/-- A computation over what has been read. -/
abbrev Reading := EStateM Error Library

/-- Collects text; empty text is dropped. -/
def collect (value : String) (span : Span) : Reading Program := do
  if value.isEmpty then return []
  else
    modify fun l => { l with contents := l.contents ++ [value] }
    return [.content value span]

/-- Reads a partial, with what it reaches, unless it has been met before. The level bounds how many
more can be read inside each other. -/
def readPartial (read : String → Except Error Program) (sources : List (String × String)) :
    Nat → String → Reading Unit
  | level, name => do
    if (← get).visited.contains name then return ()
    modify fun l => { l with visited := name :: l.visited }
    match sources.lookup name, level with
    | none, _ => throw (.unknownPartial name)
    | some _, 0 => return ()
    | some source, level + 1 =>
      match read source with
      | .error e => throw e
      | .ok program =>
        let program ← traverseProgram collect (readPartial read sources level) program
        modify fun l => { l with programs := Ordered.put name program l.programs }

/-- Reads a template with the partials that it reaches. -/
def readAll (read : String → Except Error Program) (sources : List (String × String))
    (template : String) : Reading Program := do
  match read template with
  | .error e => throw e
  | .ok program => traverseProgram collect (readPartial read sources sources.length) program

/-! ## Sharing -/

/-- What has been shared so far. -/
structure Sharing where
  visited : List String := []
  programs : List (String × Program) := []
  /-- The number of the next text. -/
  next : Nat := 0
  /-- The constants in use, by the number of their substring, with their names. -/
  names : List (Nat × String) := []
  /-- The constants in use with their values, in the order of their first use. -/
  constants : List (String × String) := []

/-- The name of the constant for a substring, which is a new one at its first use. -/
def constantName (substrings : List (List Char)) (number : Nat) : StateM Sharing String := do
  let s ← get
  match s.names.lookup number with
  | some name => return name
  | none =>
    let name := "__constant" ++ Nat.repr s.constants.length
    let value := String.ofList (substrings.getD number [])
    set { s with
      names := (number, name) :: s.names
      constants := s.constants ++ [(name, value)] }
    return name

/-- The statement of a piece of text at a place. -/
def pieceStatement (substrings : List (List Char)) (span : Span) (p : Piece) :
    StateM Sharing Statement := do
  match p.chunk with
  | .literal text => return .content (String.ofList text) span
  | .shared number => return .constant (← constantName substrings number) span

/-- Replaces a text by its pieces. -/
def share (found : Repeats) (_ : String) (span : Span) : StateM Sharing Program := do
  let number := (← get).next
  modify fun s => { s with next := number + 1 }
  (found.pieces.filter (·.owner == number)).mapM (pieceStatement found.substrings span)

/-- Shares the text of a partial, with what it reaches, unless that has been done. -/
def sharePartial (found : Repeats) (programs : List (String × Program)) :
    Nat → String → StateM Sharing Unit
  | level, name => do
    if (← get).visited.contains name then return ()
    modify fun s => { s with visited := name :: s.visited }
    match programs.lookup name, level with
    | some program, level + 1 =>
      let program ← traverseProgram (share found) (sharePartial found programs level) program
      modify fun s => { s with programs := Ordered.put name program s.programs }
    | _, _ => return ()

/-- A template with the partials that it reaches and the constants that they share. -/
structure SharedTemplate where
  program : Program
  partials : List (String × Program)
  constants : List (String × String)

/-- Reads a template with the partials that it reaches, and shares text that repeats in them. -/
def factor (read : String → Except Error Program) (sources : List (String × String))
    (minLength : Nat) (template : String) : Except Error SharedTemplate :=
  match readAll read sources template {} with
  | .error e _ => .error e
  | .ok program library =>
    let found := findRepeats (library.contents.map String.toList) minLength
    let enter := sharePartial found library.programs library.programs.length
    let (program, sharing) := (traverseProgram (share found) enter program).run {}
    .ok { program, partials := sharing.programs, constants := sharing.constants }

end Factor
end Stencil
