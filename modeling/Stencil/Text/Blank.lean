import Stencil.Text.CodeRange

/-!
# Blank characters

White space as Unicode has it, and the operations that remove or collapse it.

- `isBlank`           : a white-space character
- `trimStart`, `trimEnd`, `trim` : a text without its outer blanks
- `condenseWhitespace` : every run of blanks as one space
-/

namespace Stencil
namespace Text

def blankRanges : List CodeRange :=
  [(0x9, 0xD), (0x20, 0x20), (0x85, 0x85), (0xA0, 0xA0), (0x1680, 0x1680), (0x2000, 0x200A),
    (0x2028, 0x2029), (0x202F, 0x202F), (0x205F, 0x205F), (0x3000, 0x3000)]

def isBlank (c : Char) : Bool :=
  inRanges blankRanges c.toNat

/-- The text from its first character that is not blank. -/
def trimStart (cs : List Char) : List Char :=
  cs.dropWhile isBlank

/-- The text up to its last character outside `p`. -/
def dropEndWhile (p : Char → Bool) (cs : List Char) : List Char :=
  (cs.reverse.dropWhile p).reverse

/-- The text up to its last character that is not blank. -/
def trimEnd (cs : List Char) : List Char :=
  dropEndWhile isBlank cs

/-- The text between its outermost characters that are not blank. -/
def trim (cs : List Char) : List Char :=
  trimEnd (trimStart cs)

/-- Writes one space for each run of blanks; `pending` says that a run has just been written. -/
def condense (pending : Bool) : List Char → List Char
  | [] => []
  | c :: rest =>
    if isBlank c then
      if pending then condense true rest else ' ' :: condense true rest
    else c :: condense false rest

/-- Collapses every run of white space into a single space. -/
def condenseWhitespace (s : String) : String :=
  String.ofList (condense false s.toList)

end Text
end Stencil
