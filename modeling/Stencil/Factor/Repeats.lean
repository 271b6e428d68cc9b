import Stencil.Factor.Chunk

/-!
# Repeated substrings

Substrings of some length that occur more than once are taken out one after the other: at the first
place where there is one, the longest that occurs again without overlap.

- `Piece`         : a chunk and the number of the text that it belongs to
- `firstRepeat?`  : the first repeat that starts in a text
- `factorFrom`    : takes repeats out from a place on
- `findRepeats`   : the chunks and substrings of a list of texts
-/

namespace Stencil
namespace Factor

/-- A chunk and the number of the text that it belongs to. -/
structure Piece where
  chunk : Chunk
  owner : Nat
  deriving DecidableEq, Repr

structure Repeats where
  pieces : List Piece
  substrings : List (List Char)
  deriving DecidableEq, Repr

/-- Whether a text occurs in the literal text of a piece. -/
def Piece.has (needle : List Char) (p : Piece) : Bool :=
  match p.chunk with
  | .literal text => occurs needle text
  | .shared _ => false

/-- Whether the first `length` characters of a text occur again after it or in later pieces. -/
def repeats (later : List Piece) (text : List Char) (length : Nat) : Bool :=
  let needle := text.take length
  occurs needle (text.drop length) || later.any (·.has needle)

/-- The first length from the given one on that a text is too short for, or that does not occur
again. -/
def growRepeat (later : List Piece) (text : List Char) : Nat → Nat → Nat
  | 0, length => length
  | fuel + 1, length =>
    if length ≤ text.length && repeats later text length then
      growRepeat later text fuel (length + 1)
    else length

/-- The length of the longest repeat at the start of a text, of at least `minLength`. -/
def repeatLength? (later : List Piece) (minLength : Nat) (text : List Char) : Option Nat :=
  let length := growRepeat later text (text.length + 1) minLength
  if length > minLength then some (length - 1) else none

/-- Where the first repeat in a text starts, counted from `start`, and its length. -/
def firstRepeat? (later : List Piece) (minLength start : Nat) :
    List Char → Option (Nat × Nat)
  | [] => none
  | c :: rest =>
    match repeatLength? later minLength (c :: rest) with
    | some length => some (start, length)
    | none => firstRepeat? later minLength (start + 1) rest

/-- Takes a substring out of a piece. -/
def Piece.cut (part : List Char) (number : Nat) (p : Piece) : List Piece :=
  match p.chunk with
  | .literal text => (cutText part number text).map fun chunk => ⟨chunk, p.owner⟩
  | .shared _ => [p]

/-- Takes repeats out of the pieces in `todo`, after those in `done`. Each step moves at least one
piece from the one to the other. -/
def factorFrom (minLength : Nat) : Nat → (done todo : List Piece) → List (List Char) → Repeats
  | 0, done, todo, substrings => ⟨done ++ todo, substrings⟩
  | _ + 1, done, [], substrings => ⟨done, substrings⟩
  | fuel + 1, done, p :: later, substrings =>
    match p.chunk with
    | .shared _ => factorFrom minLength fuel (done ++ [p]) later substrings
    | .literal text =>
      match firstRepeat? later minLength 0 text with
      | none => factorFrom minLength fuel (done ++ [p]) later substrings
      | some (start, length) =>
        let part := (text.drop start).take length
        let cut := Piece.cut part substrings.length
        let settled := if start > 0 then 2 else 1
        factorFrom minLength fuel
          (done.flatMap cut ++ (cut p).take settled)
          ((cut p).drop settled ++ later.flatMap cut)
          (substrings ++ [part])

/-- Each text as one piece. -/
def initialPieces (texts : List (List Char)) : List Piece :=
  texts.mapIdx fun i text => ⟨.literal text, i⟩

/-- A number of steps that is enough for the given texts. -/
def enoughSteps (texts : List (List Char)) : Nat :=
  texts.length + 2 * texts.flatten.length + 1

/-- Takes repeated substrings of at least `minLength` characters, and at least one, out of the
given texts. -/
def findRepeats (texts : List (List Char)) (minLength : Nat) : Repeats :=
  factorFrom (max minLength 1) (enoughSteps texts) [] (initialPieces texts) []

end Factor
end Stencil
