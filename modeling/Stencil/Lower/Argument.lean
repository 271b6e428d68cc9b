import Stencil.Error
import Stencil.Template.Statement
import Stencil.Text.Unsigned
import Stencil.Text.Word

/-!
# Arguments of tags

- `Helper`, `Helper.ofName?` : the helpers that convert a value
- `integerArgument`, `pathArgument`, `expectKeys` : what a tag may be given
-/

namespace Stencil
namespace Lower

open Template (Expr Hash PathExpr)
open Text (bound32 isDecimalDigit readUnsigned)

/-- A conversion that a tag asks for by name. -/
inductive Helper where
  /-- A number, of a fixed width in bits if there is one. -/
  | integer (signed : Bool) (width : Option Nat)
  /-- Text of a fixed number of bytes. -/
  | bytes (width : Nat)
  deriving DecidableEq, Repr

/-- The digits that follow a word, if nothing else does. -/
def digitsAfter? (word name : String) : Option (List Char) :=
  match word.toList.isPrefixOf? name.toList with
  | some rest => if rest.all isDecimalDigit then some rest else none
  | none => none

/-- A number of a helper's name; zero where it is too large or not written in ASCII. -/
def widthOf (digits : List Char) : Nat :=
  (readUnsigned bound32 digits).getD 0

/-- An integer helper, whose width is a multiple of eight up to 256. -/
def integerHelper (name : String) (signed : Bool) (digits : List Char) : Except Error Helper :=
  if digits.isEmpty then .ok (.integer signed none)
  else
    let width := widthOf digits
    if width == 0 || width > 256 || width % 8 != 0 then
      .error (.unsupported (.integerWidth name))
    else .ok (.integer signed (some width))

/-- A helper for fixed bytes, of which there are from one to thirty-two. -/
def bytesHelper (name : String) (digits : List Char) : Except Error Helper :=
  let width := widthOf digits
  if width == 0 || width > 32 then .error (.unsupported (.bytesWidth name))
  else .ok (.bytes width)

/-- The helper of a name, if it is one. -/
def Helper.ofName? (name : String) : Except Error (Option Helper) :=
  match digitsAfter? "uint" name, digitsAfter? "int" name, digitsAfter? "bytes" name with
  | some digits, _, _ => some <$> integerHelper name false digits
  | none, some digits, _ => some <$> integerHelper name true digits
  | none, none, some (d :: digits) => some <$> bytesHelper name (d :: digits)
  | none, none, _ => .ok none

def integerArgument (key : String) : Expr → Except Error Nat
  | .number text =>
    match readUnsigned bound32 text.toList with
    | some n => .ok n
    | none => .error (.unsupported (.notNatural key text))
  | other => .error (.unsupported (.notNumber key other.formName))

/-- The value of a numeric keyword argument, if it is given. -/
def integerKeyword? (hash : Hash) (key : String) : Except Error (Option Nat) :=
  match hash.lookup key with
  | some e => some <$> integerArgument key e
  | none => .ok none

/-- Refuses keyword arguments other than the allowed ones. -/
def expectKeys (hash : Hash) (allowed : List String) (context : String) : Except Error Unit :=
  match hash.find? fun entry => !allowed.contains entry.1 with
  | some entry => .error (.unsupported (.unknownArgument entry.1 context))
  | none => .ok ()

/-- The reference that is a tag's only argument. -/
def pathArgument (params : List Expr) (context : String) : Except Error PathExpr :=
  match params with
  | [.path p] => .ok p
  | [.call _ _ _] => .error (.unsupported .subExpression)
  | [other] => .error (.unsupported (.pathExpected context other.formName))
  | _ => .error (.unsupported (.oneParameter context))

end Lower
end Stencil
