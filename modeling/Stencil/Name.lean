import Stencil.Text.Unsigned
import Stencil.Text.Uppercase
import Stencil.Text.Word

/-!
# Names

Generated code declares variables and structs under names that must not collide.

- `isIdentifier`  : the names that the target language accepts
- `incrementName` : the next name after a taken one, by its numeric suffix
- `freshName`     : the first free name from a given one on
- `singularize`, `capitalize` : from a field's name to the name of its struct
-/

namespace Stencil
namespace Name

open Text

/-! ## Identifiers -/

/-- A character that may start an identifier. -/
def isIdentifierStart (c : Char) : Bool :=
  c.isAlpha || c == '_' || c == '$'

/-- A character that may stand in an identifier after its first. -/
def isIdentifierRest (c : Char) : Bool :=
  c.isAlphanum || c == '_' || c == '$'

/-- A letter, underscore or dollar sign, then any number of these and of digits; all ASCII. -/
def isIdentifier (name : String) : Bool :=
  match name.toList with
  | [] => false
  | c :: rest => isIdentifierStart c && rest.all isIdentifierRest

/-! ## Numeric suffixes -/

/-- The longest ending of a text that consists of decimal digits. -/
def digitSuffix (cs : List Char) : List Char :=
  (cs.reverse.takeWhile isDecimalDigit).reverse

/-- A name of word characters as a non-empty base and the digits after it. -/
def splitCounter (cs : List Char) : Option (List Char × List Char) :=
  match cs with
  | [] => none
  | c :: rest =>
    if cs.all isWord then
      let digits := digitSuffix rest
      some (c :: rest.take (rest.length - digits.length), digits)
    else none

/-- The counter that a numeric suffix stands for: one where it is no 64-bit ASCII number. -/
def counter (digits : List Char) : Nat :=
  (readUnsigned bound64 digits).getD 1

/-- Raises the numeric suffix of a name (`Item`, `Item2`, `Item3`), modulo `2 ^ 64`. -/
def incrementName (name : String) : String :=
  match splitCounter name.toList with
  | none => name ++ "2"
  | some (base, digits) => String.ofList base ++ Nat.repr ((counter digits + 1) % bound64)

/-- The first name that is not taken, from a given one through the `steps` names after it. -/
def nextFree (taken : List String) : Nat → String → Option String
  | 0, name => if taken.contains name then none else some name
  | steps + 1, name =>
    if taken.contains name then nextFree taken steps (incrementName name) else some name

/-- The first name from `base` on that is not taken. The search looks at one name more than are
taken: if it meets only taken ones, it goes round in a circle and has no result. -/
def freshName (taken : List String) (base : String) : Option String :=
  nextFree taken taken.length base

/-! ## Names of structs -/

/-- A field name without its final `s`. -/
def singularize (name : String) : String :=
  if name.toList.getLast? == some 's' then String.ofList name.toList.dropLast else name

/-- A name with its first character in upper case. -/
def capitalize (name : String) : String :=
  match name.toList with
  | [] => ""
  | c :: rest => String.ofList (uppercase c ++ rest)

end Name
end Stencil
