import Stencil.Template.Span
import Stencil.Text.Quoted
import Stencil.Types.Kind

/-!
# Errors

Everything that can stop a compilation, by cause, with one function for the wording.

- `TemplateFault` : faults found while reading a template
- `Unsupported`   : constructs that have no counterpart in generated code
- `FormatFault`   : unbalanced braces in generated source
- `OptionsFault`  : options that are refused
- `Error`         : all of these, and the conflicts that type inference meets
-/

namespace Stencil

open Stencil.Types (Kind)
open Template (Span)

/-- Which construct a closing tag ends. -/
inductive Enclosure where
  | helper
  | decorator
  deriving DecidableEq, Repr

/-- A fault found while reading a template. -/
inductive TemplateFault where
  /-- A literal that is no value. -/
  | invalidParameter (text : String)
  /-- A closing tag whose name differs from the opening one. -/
  | closingTag (enclosure : Enclosure) (opening closing : String)
  | invalidPath (text : String)
  | invalidDataVariable (text : String)
  deriving DecidableEq, Repr

def TemplateFault.message : TemplateFault → String
  | .invalidParameter text => "invalid parameter " ++ Text.quoted text
  | .closingTag enclosure opening closing =>
    (match enclosure with
      | .helper => "helper "
      | .decorator => "decorator ") ++
      Text.quoted opening ++ " was opened, but " ++ Text.quoted closing ++ " is closing"
  | .invalidPath text => "invalid path '" ++ text ++ "'"
  | .invalidDataVariable text => "invalid data variable '" ++ text ++ "'"

/-- A construct that has no counterpart in generated code. -/
inductive Unsupported where
  | partialBlock
  | decorator
  | dynamicPartial
  | blockHead
  | binderForm
  | binders
  | malformedCall
  | parameterForm
  | structuredLiteral
  | integerWidth (helper : String)
  | bytesWidth (helper : String)
  | notNatural (key text : String)
  | notNumber (key form : String)
  | unknownArgument (key context : String)
  | subExpression
  | pathExpected (context form : String)
  | oneParameter (context : String)
  | headForm (form : String)
  | unknownHelper (name : String)
  | blockParameters (name : String)
  | elseInEach
  | elseInWith
  | iteratedIndex (path : String)
  | indexCondition (path : String)
  | dataVariable (name : String)
  | partialName (name : String)
  | groupName (text : String)
  | localContext (name : String)
  | nestedContext (path : String)
  | callShape (name context actual expected : String)
  deriving DecidableEq, Repr

def Unsupported.message : Unsupported → String
  | .partialBlock => "partial blocks are not supported"
  | .decorator => "decorators are not supported"
  | .dynamicPartial => "dynamic partial names are not supported"
  | .blockHead => "block helpers must be named by a path"
  | .binderForm => "block parameters must be plain names"
  | .binders => "unsupported block parameters"
  | .malformedCall => "malformed sub-expression"
  | .parameterForm => "unrecognized parameter"
  | .structuredLiteral => "array and object literals are not supported"
  | .integerWidth helper => helper ++ " is not a valid integer width"
  | .bytesWidth helper => helper ++ " is not a valid fixed bytes width"
  | .notNatural key text => key ++ " must be a non-negative integer, got " ++ text
  | .notNumber key form => key ++ " must be a number literal, got " ++ form
  | .unknownArgument key context => "unknown argument " ++ key ++ " for " ++ context
  | .subExpression => "sub-expressions"
  | .pathExpected context form => context ++ " expects a path parameter, got " ++ form
  | .oneParameter context => context ++ " expects exactly one parameter"
  | .headForm form => "Unsupported path type: " ++ form
  | .unknownHelper name => "unknown helper " ++ name
  | .blockParameters name => "Unsupported block statement with params: " ++ name
  | .elseInEach => "else in each blocks"
  | .elseInWith => "else in with blocks"
  | .iteratedIndex path => "cannot iterate over loop index " ++ path
  | .indexCondition path => "loop index " ++ path ++ " cannot be used as a condition"
  | .dataVariable name => "data variable " ++ name
  | .partialName name => "partial name " ++ name ++ " is not a valid identifier"
  | .groupName text => "extra must be an identifier string, got " ++ text
  | .localContext name => "partial context " ++ name ++ " is not part of the input"
  | .nestedContext path =>
    "partial context " ++ path ++ " is nested inside another context of the same partial"
  | .callShape name context actual expected =>
    "partial " ++ name ++ " is called with " ++ context ++ " of type " ++ actual ++
      ", expected " ++ expected

/-- Unbalanced braces in generated source. -/
inductive FormatFault where
  /-- A closing brace without an opening one, on the given line. -/
  | unmatchedClose (line : Nat)
  /-- Opening braces that are never closed. -/
  | unclosed (count : Nat)
  deriving DecidableEq, Repr

def FormatFault.message : FormatFault → String
  | .unmatchedClose line => "unmatched '\x7d' on line " ++ Nat.repr line
  | .unclosed count => Nat.repr count ++ " unclosed '\x7b'"

/-- Options that are refused. -/
inductive OptionsFault where
  /-- The text is no JSON value. -/
  | notJson
  /-- A value of the wrong type, described by what was found and what was expected. -/
  | invalidType (found expected : String)
  /-- A value of the right type that is out of range. -/
  | invalidValue (found expected : String)
  | duplicateField (name : String)
  | moduleName (name : String)
  | substringLength
  deriving DecidableEq, Repr

def OptionsFault.message : OptionsFault → String
  | .notJson => "not a JSON value"
  | .invalidType found expected => "invalid type: " ++ found ++ ", expected " ++ expected
  | .invalidValue found expected => "invalid value: " ++ found ++ ", expected " ++ expected
  | .duplicateField name => "duplicate field `" ++ name ++ "`"
  | .moduleName name => "name '" ++ name ++ "' is not a valid identifier"
  | .substringLength => "minRepeatingSubstringLength must be at least 1"

/-- A reason why a compilation fails. -/
inductive Error where
  /-- The template does not follow the grammar. -/
  | malformed
  | parse (fault : TemplateFault) (span : Span)
  | unsupported (what : Unsupported)
  /-- A path is asked to end in two kinds of data. -/
  | typeConflict (path : String) (requested previous : Kind)
  /-- A path is asked to pass through data that cannot be passed through that way. -/
  | accessConflict (path field : String) (requested previous : Kind)
  | lengthlessKind (kind : Kind)
  | excessiveDepth (written : String)
  | unresolvedBuiltIn (name : String)
  | emptyTemplate
  | unknownPartial (name : String)
  | inconsistentGroup (name : String) (first requested : Option String)
  | recursivePartial (name : String)
  /-- A computation that never ends: types of partials that never agree, or a search for a name
  where all are taken. -/
  | endless
  /-- The context of a partial passes through data of another kind. -/
  | resolution (field : String) (requested actual : Kind)
  | multiDimensionalArray (field : String)
  | unnamedType (description : String)
  | invalidOptions (fault : OptionsFault)
  | format (fault : FormatFault)
  deriving DecidableEq, Repr

def Error.message : Error → String
  | .malformed => "invalid handlebars syntax"
  | .parse fault span =>
    "Parse error at " ++ Nat.repr span.line ++ ":" ++ Nat.repr span.column ++ ": " ++ fault.message
  | .unsupported what => "Unsupported syntax: " ++ what.message
  | .typeConflict path requested previous =>
    "Type narrowing conflict: Trying to identify " ++ path ++ " as " ++ requested.word ++
      ", but it was previously identified as " ++ previous.word
  | .accessConflict path field requested previous =>
    path ++ " accesses " ++ field ++ " field as " ++ requested.word ++
      ", but the field has been identified as " ++ previous.word
  | .lengthlessKind kind => kind.word ++ " type does not have length"
  | .excessiveDepth written => "Path expression " ++ written ++ " has excessive depth"
  | .unresolvedBuiltIn name => "Unresolved built-in " ++ name
  | .emptyTemplate => "The template file does not contain any template expressions."
  | .unknownPartial name => "Trying to use an unknown partial: " ++ name
  | .inconsistentGroup name _ _ =>
    "The partial " ++ name ++ " is called with inconsistent extra values"
  | .recursivePartial name => "Recursive partial inclusion detected: " ++ name
  | .endless => "The computation does not end"
  | .resolution field requested actual =>
    "Trying to access " ++ field ++ " as " ++ requested.word ++ ", but it is a " ++ actual.word
  | .multiDimensionalArray field =>
    "Multi-dimensional arrays are not supported in ABI (field " ++ field ++ ")"
  | .unnamedType description => "No type name registered for " ++ description
  | .invalidOptions fault => "Invalid options: " ++ fault.message
  | .format fault => "Formatting failed: " ++ fault.message

end Stencil
