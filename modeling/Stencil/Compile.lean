import Stencil.Factor.Template
import Stencil.Options.Basic
import Stencil.Source.File
import Stencil.Template.Assembly

/-!
# Compiling templates

A template becomes a library whose `render` function gives the template's text for an input, whose
type is inferred from the template. How the text of a template is read may be chosen.

- `sharedTemplate` : a template with what it reaches and shares
- `sourceFile`     : the file of a template
- `compile`        : its text, laid out by a given function or by the depth of braces
-/

namespace Stencil

open Factor (SharedTemplate factor readWith)
open Source (SourceFile)
open Template (Program)

/-- A template with the partials that it reaches and the text that they share. -/
def sharedTemplate (o : Options) (template : String)
    (parse : String → Except Error Program := Template.parse) : Except Error SharedTemplate :=
  factor (readWith parse o.condenseWhitespace) o.partials o.minRepeatLength template

def sourceFile (o : Options) (template : String)
    (parse : String → Except Error Program := Template.parse) : Except Error SourceFile := do
  o.validate
  let shared ← sharedTemplate o template parse
  let lowered ← Lower.lower shared.partials shared.program
  if lowered.store.get lowered.root == .struct [] then throw .emptyTemplate
  let naming ← Types.Naming.generate lowered.store lowered.root o.style.explicitTypes
  SourceFile.assemble o shared.constants naming lowered

/-- The source of a template, laid out by `format`. -/
def compileWith (format : Source.Style → String → Except Error String) (o : Options)
    (template : String) (parse : String → Except Error Program := Template.parse) :
    Except Error String := do
  format o.style (← sourceFile o template parse).text

def compile (o : Options) (template : String)
    (parse : String → Except Error Program := Template.parse) : Except Error String :=
  compileWith Source.indent o template parse

end Stencil
