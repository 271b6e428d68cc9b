import Stencil.Name
import Stencil.Source.Indent

/-!
# Options

- `Options`          : what a compilation can be told
- `Options.validate` : refuses options that no source can be written for
-/

namespace Stencil

/-- What a compilation can be told. -/
structure Options where
  /-- The name of the generated library or contract. -/
  name : String := "Template"
  /-- The text at the top of the source. -/
  header : String := "// SPDX-License-Identifier: UNLICENSED"
  /-- The language versions that the source is for. -/
  pragma : String := "^0.8.6"
  /-- Whether a contract is written instead of a library. -/
  contract : Bool := false
  /-- The sources of partials by name. -/
  partials : List (String × String) := []
  /-- Whether every run of white space in a template counts as one space. -/
  condenseWhitespace : Bool := false
  /-- The least length of text that is shared. -/
  minRepeatLength : Nat := 16
  style : Source.Style := {}
  deriving DecidableEq, Repr

/-- Refuses a name that is no identifier, and sharing of empty text. -/
def Options.validate (o : Options) : Except Error Unit :=
  if !Name.isIdentifier o.name then .error (.invalidOptions (.moduleName o.name))
  else if o.minRepeatLength == 0 then .error (.invalidOptions .substringLength)
  else .ok ()

end Stencil
