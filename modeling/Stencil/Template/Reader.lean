import Stencil.Error
import Stencil.Template.Path
import Stencil.Template.Statement
import Stencil.Template.Tree

/-!
# Reading templates

From the tree of a template to statements: references are taken apart, keyword arguments are put in
order, and constructs without a counterpart in generated code are refused.

- `Element.statement` : the statement of an element
- `parseWith`         : a template's text as a program, given how text is split into a tree
-/

namespace Stencil
namespace Template

/-- The path of a reference in a tag at `span`. -/
def readPath (text : String) (span : Span) : Except Error PathExpr :=
  match parsePath text span with
  | .ok p => .ok p
  | .error fault => .error (.parse fault span)

/-- The expression of a literal value. -/
def literalExpr : Json.Value → Except Error Expr
  | .string s => .ok (.string s)
  | .number n => .ok (.number n.text)
  | .boolean b => .ok (.boolean b)
  | .null => .ok .null
  | .array _ => .error (.unsupported .structuredLiteral)
  | .object _ => .error (.unsupported .structuredLiteral)

/-! ## Arguments -/

/-- Puts a keyword argument in front of those whose keys are not smaller. -/
def insertByKey (entry : String × Expr) : Hash → Hash
  | [] => [entry]
  | e :: rest => if e.1 < entry.1 then e :: insertByKey entry rest else entry :: e :: rest

def sortByKey (entries : Hash) : Hash := entries.foldr insertByKey []

mutual

def Parameter.expr (span : Span) : Parameter → Except Error Expr
  | .reference text => return .path (← readPath text span)
  | .literal v => literalExpr v
  | .call head params hash => do
    let head ← head.expr span
    let params ← Parameter.exprs span params
    return .call head params (sortByKey (← Parameter.entries span hash))
  | .malformedCall => .error (.unsupported .malformedCall)
  | .other => .error (.unsupported .parameterForm)

def Parameter.exprs (span : Span) : List Parameter → Except Error (List Expr)
  | [] => .ok []
  | p :: rest => do
    let e ← p.expr span
    return e :: (← Parameter.exprs span rest)

/-- Keyword arguments with their values, which are read as they stand in the table: the first of
them that cannot be read is the one that is reported. -/
def Parameter.entries (span : Span) : List (String × Parameter) → Except Error Hash
  | [] => .ok []
  | (key, p) :: rest => do
    let e ← p.expr span
    return (key, e) :: (← Parameter.entries span rest)

end

/-- The keyword arguments of a tag, in the order of their keys. -/
def Call.entries (c : Call) (span : Span) : Except Error Hash :=
  sortByKey <$> Parameter.entries span c.hash

/-! ## Names -/

/-- The name of an included partial. -/
def partialName : Parameter → Except Error String
  | .literal (.string name) => .ok name
  | .reference name => .ok name
  | _ => .error (.unsupported .dynamicPartial)

/-- The reference that a block starts with. -/
def blockName : Parameter → Except Error String
  | .reference name => .ok name
  | _ => .error (.unsupported .blockHead)

def binderName : Parameter → Except Error String
  | .reference name => .ok name
  | _ => .error (.unsupported .binderForm)

def Binders.names : Binders → Except Error (List String)
  | .none => .ok []
  | .one name => return [← binderName name]
  | .two first second => return [← binderName first, ← binderName second]
  | .other => .error (.unsupported .binders)

/-! ## Statements -/

mutual

def Element.statement : Element → Except Error Statement
  | .text chars span => .ok (.content (String.ofList chars) span)
  | .comment value span => .ok (.comment value span)
  | .output call escaped span => do
    let head ← call.head.expr span
    let params ← Parameter.exprs span call.params
    return .interpolation head params (← call.entries span) escaped span
  | .inclusion call span => do
    let name ← partialName call.head
    let params ← Parameter.exprs span call.params
    return .inclusion name params (← call.entries span) span
  | .inclusionBlock => .error (.unsupported .partialBlock)
  | .decorator => .error (.unsupported .decorator)
  | .block call binders body inverse span => do
    let name ← blockName call.head
    let names ← binders.names
    let body ← Element.branch body
    let inverse ← Element.branch inverse
    let head ← readPath name span
    let params ← Parameter.exprs span call.params
    return .block head params (← call.entries span) names (body.getD []) inverse span

def Element.statements : List Element → Except Error Program
  | [] => .ok []
  | e :: rest => do
    let s ← e.statement
    return s :: (← Element.statements rest)

/-- A branch of a block, if there is one. -/
def Element.branch : Option (List Element) → Except Error (Option Program)
  | none => .ok none
  | some elements => do return some (← Element.statements elements)

end

/-- The program of a template's text, which `split` makes a tree of. -/
def parseWith (split : String → Except Error (List Element)) (source : String) :
    Except Error Program := do
  Element.statements (← split source)

end Template
end Stencil
