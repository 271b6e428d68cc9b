/-!
# Chunks of text

Text that is being searched for repeats is a list of chunks: literal text, and references to
substrings that have been taken out.

- `Chunk`   : literal text or a reference
- `occurs`  : whether a text occurs in another one
- `indexOf` : the first occurrence in a list of chunks, as a chunk and a byte offset
- `cutText` : a text with all occurrences of a substring taken out
-/

namespace Stencil
namespace Factor

inductive Chunk where
  | literal (text : List Char)
  /-- A reference to a substring by its number. -/
  | shared (number : Nat)
  deriving DecidableEq, Repr

/-! ## Occurrences -/

def occurs (needle : List Char) : List Char → Bool
  | [] => needle.isEmpty
  | c :: rest => needle.isPrefixOf (c :: rest) || occurs needle rest

/-- How many bytes come before the first occurrence of `needle` in a text. -/
def byteOffset? (needle : List Char) : List Char → Option Nat
  | [] => if needle.isEmpty then some 0 else none
  | c :: rest =>
    if needle.isPrefixOf (c :: rest) then some 0
    else (byteOffset? needle rest).map (· + c.utf8Size)

/-- A text without its first `n` bytes, if these end between two characters. -/
def dropBytes? : Nat → List Char → Option (List Char)
  | 0, cs => some cs
  | _ + 1, [] => none
  | n + 1, c :: rest => if c.utf8Size ≤ n + 1 then dropBytes? (n + 1 - c.utf8Size) rest else none

/-- Looks for `needle` in chunks, of which the first has the number `i` and is searched from the
byte `start` on. -/
def indexOfFrom (needle : List Char) (i start : Nat) : List Chunk → Option (Nat × Nat)
  | [] => none
  | .shared _ :: rest => indexOfFrom needle (i + 1) 0 rest
  | .literal text :: rest =>
    match (dropBytes? start text).bind (byteOffset? needle) with
    | some offset => some (i, start + offset)
    | none => indexOfFrom needle (i + 1) 0 rest

/-- The chunk and the byte offset of the first occurrence of `needle` from a place on. -/
def indexOf (chunks : List Chunk) (needle : List Char) (startChunk startByte : Nat) :
    Option (Nat × Nat) :=
  indexOfFrom needle startChunk startByte (chunks.drop startChunk)

/-! ## Taking out a substring -/

/-- Text as a chunk; empty text is none. -/
def literalChunk (text : List Char) : List Chunk :=
  if text.isEmpty then [] else [.literal text]

/-- Takes the leftmost occurrences of `part` out of a text that follows the characters `before`
(last first), of which `skip` more belong to an occurrence. -/
def cutFrom (part : List Char) (number : Nat) :
    (skip : Nat) → (before : List Char) → List Char → List Chunk
  | _, before, [] => literalChunk before.reverse
  | skip + 1, before, _ :: rest => cutFrom part number skip before rest
  | 0, before, c :: rest =>
    if part.isPrefixOf (c :: rest) then
      literalChunk before.reverse ++ .shared number :: cutFrom part number (part.length - 1) [] rest
    else cutFrom part number 0 (c :: before) rest

/-- A text with all leftmost occurrences of `part` replaced by references. -/
def cutText (part : List Char) (number : Nat) (text : List Char) : List Chunk :=
  cutFrom part number 0 [] text

end Factor
end Stencil
