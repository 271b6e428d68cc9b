import Stencil.Template.Markup

/-!
# The grammar of templates

Alternatives are ordered and repetition is greedy. Blanks may stand between the parts of a tag, and
nowhere inside a name, a reference or a scalar literal.

- `identifier`, `reference`        : names and paths
- `literalShape`, `literal`        : literals, recognised by their outline only
- `operand`, `arguments`, `line`   : what a tag passes
- `piece`, `pieces`                : the pieces of a template
- `scan`                           : a whole template
-/

namespace Stencil
namespace Template

open Scanner

/-! ## Names and references -/

/-- A character of a name. -/
def isSymbol (c : Char) : Bool :=
  c.isAlphanum || c == '-' || c == '_' || c == '$' || c == ':' || c.toNat ≥ 128

/-- A character of the name of a partial. -/
def isPartialSymbol (c : Char) : Bool :=
  c.isAlphanum || c == '-' || c == '_' || c == '@' || c == '/' || c == '.' || c.toNat ≥ 128

/-- Succeeds where no character of a name comes next. -/
def endOfSymbol : Scanner Unit := absent (satisfy isSymbol)

def identifier : Scanner String := do
  return String.ofList (← takeWhile1 isSymbol)

def optIdentifier : Scanner String := do
  return String.ofList (← takeWhile isSymbol)

/-- The sign between two segments of a reference. -/
def separator : Scanner Unit := token "/" <|> token "."

/-- One segment of a reference: a name, or any text in brackets. -/
def segment : Scanner Unit :=
  (do let _ ← identifier) <|>
  (do
    token "["
    let _ ← takeWhile (· != ']')
    token "]")

/-- A reference, without its text. -/
def referenceShape : Scanner Unit := do
  let _ ← optional ((do token "this"; separator) <|> token "./")
  let _ ← optional (do token "@root"; separator)
  let _ ← optional (token "@")
  let _ ← many (do token ".."; separator)
  segment
  let _ ← many (do separator; segment)

/-- The text that a scanner takes. -/
def textOf (p : Scanner Unit) : Scanner String := do
  let start ← here
  p
  return start.textUpTo (← here)

def reference : Scanner String := textOf referenceShape

/-- The name of a partial: symbols, or quoted text that keeps its quotes. -/
def partialIdentifier : Scanner String :=
  (do return String.ofList (← takeWhile1 isPartialSymbol)) <|>
  textOf (do
    token "'"
    let inner ← many (do
      absent (token "'")
      token "\\'" <|> (do let _ ← anyChar))
    if inner.isEmpty then fail
    token "'")

/-! ## Literals -/

/-- One character of a string between the given quotes. -/
def stringChar (quote : Char) : Scanner Unit :=
  (do let _ ← satisfy fun c => c != quote && c != '\\') <|>
  (do
    token "\\"
    let c ← anyChar
    if c == 'u' then
      let digit := satisfy fun d => d.isDigit || ('a' ≤ d && d ≤ 'f') || ('A' ≤ d && d ≤ 'F')
      let _ ← digit
      let _ ← digit
      let _ ← digit
      let _ ← digit
    else if !(c == quote || "\\/bfnrt".toList.contains c) then fail)

/-- A string between the given quotes, as the text between them. -/
def quotedString (quote : Char) : Scanner String := do
  let _ ← satisfy (· == quote)
  let inner ← textOf (do let _ ← many (stringChar quote))
  let _ ← satisfy (· == quote)
  return inner

/-- A string in either kind of quotes. -/
def stringShape : Scanner Unit :=
  (do let _ ← quotedString '"') <|> (do let _ ← quotedString '\'')

def numberShape : Scanner Unit := do
  let _ ← optional (token "-")
  let _ ← takeWhile1 Char.isDigit
  let _ ← optional (token ".")
  let _ ← takeWhile Char.isDigit
  let _ ← optional (do
    token "E"
    let _ ← optional (token "-")
    takeWhile1 Char.isDigit)
  endOfSymbol

/-- A fixed word that no further name character follows. -/
def wordShape (word : String) : Scanner Unit := do
  token word
  endOfSymbol

/-- Items in brackets with commas between them; the first may be missing. -/
def listShape (opening closing : String) (item : Scanner Unit) : Scanner Unit := do
  token opening
  let _ ← optional (spaced item)
  let _ ← many (spaced do
    token ","
    spaced item)
  spaced (token closing)

/-- A literal, without its text. -/
def literalShape : Nat → Scanner Unit
  | 0 => fail
  | fuel + 1 => fun c =>
    (stringShape <|>
      listShape "[" "]" (literalShape fuel) <|>
      listShape "\x7b" "\x7d" (do
        stringShape
        spaced (token ":")
        spaced (literalShape fuel)) <|>
      numberShape <|> wordShape "null" <|> wordShape "true" <|> wordShape "false") c

/-- Replaces `\'` by a plain quote and escapes double quotes. -/
def requote : List Char → List Char
  | '\\' :: '\'' :: rest => '\'' :: requote rest
  | '"' :: rest => '\\' :: '"' :: requote rest
  | c :: rest => c :: requote rest
  | [] => []

/-- A literal; a string in single quotes stands for the same string in double quotes. -/
def literal : Scanner LiteralText :=
  (do
    let start ← here
    let inner ← quotedString '\''
    let json := "\"" ++ String.ofList (requote inner.toList) ++ "\""
    return ⟨start.textUpTo (← here), json⟩) <|>
  (do
    let text ← textOf (do literalShape (← remaining))
    return ⟨text, text⟩)

/-! ## What a tag passes -/

/-- Succeeds where no keyword comes next; blanks may stand before a name that a keyword starts. -/
def notKeyword : Scanner Unit :=
  absent (do
    token "as" <|> token "else"
    spaced endOfSymbol)

/-- An argument whose value is read by `value`. -/
def argument (value : Scanner Operand) : Scanner Argument :=
  (do
    let key ← identifier
    spaced (token "=")
    return .keyword key (← spaced value)) <|>
  (do return .positional (← value))

/-- Arguments after blanks, whose values are read by `value`. -/
def argumentsOf (value : Scanner Operand) : Scanner (List Argument) :=
  many (spaced (argument value))

/-- A name with at least one argument. -/
def application (value : Scanner Operand) : Scanner Tag := do
  let name ← identifier
  let args ← argumentsOf value
  if args.isEmpty then fail
  return { head := .reference name, args }

/-- A call in parentheses. -/
def callOf (value : Scanner Operand) : Scanner Operand := do
  token "("
  let tag ← spaced (application value <|> (do return { head := .reference (← reference) }))
  spaced (token ")")
  return .call tag.head tag.args

/-- A value in which calls nest at most `fuel` deep. -/
def operandUpTo : Nat → Scanner Operand
  | 0 => fail
  | fuel + 1 => fun c =>
    (do
      notKeyword
      spaced ((do return .literal (← literal)) <|> (do return .reference (← reference)) <|>
        callOf (operandUpTo fuel)) : Scanner Operand) c

/-- A value passed in a tag. -/
def operand : Scanner Operand := do
  operandUpTo (← remaining)

def arguments : Scanner (List Argument) := argumentsOf operand

/-- A reference or a call, as the head of a tag. -/
def head : Scanner Operand :=
  callOf operand <|> (do return .reference (← reference))

/-- The contents of an interpolation. -/
def interpolation : Scanner Tag :=
  application operand <|> (do return { head := ← head })

def binders : Scanner (List String) := do
  token "as"
  spaced (token "|")
  let first ← spaced identifier
  let second ← optional (spaced identifier)
  spaced (token "|")
  return first :: second.toList

/-- A name, its arguments and the names that it binds. -/
def line : Scanner Tag := do
  let name ← identifier
  let args ← arguments
  let names ← optional (spaced binders)
  return { head := .reference name, args, binders := names.getD [] }

/-- The contents of an inclusion. -/
def inclusionLine : Scanner Tag := do
  let name ← (do return .reference (← partialIdentifier)) <|> head
  return { head := name, args := ← arguments }

/-! ## Tags -/

/-- Contents between an opening and a closing text, with the trimming marks inside these and the
given signs next to the contents. -/
def tag {α : Type} (opening : String) (before : List String) (contents : Scanner α)
    (after : List String) (closing : String) : Scanner (α × Mark) := do
  let start ← here
  token opening
  let trimBefore ← optional (spaced (token "~"))
  before.forM fun sign => spaced (token sign)
  let found ← spaced contents
  after.forM fun sign => spaced (token sign)
  let trimAfter ← optional (spaced (token "~"))
  spaced (token closing)
  return (found, ⟨start, ← here, trimBefore.isSome, trimAfter.isSome⟩)

/-- A tag in double braces. -/
def braced {α : Type} (before : List String) (contents : Scanner α) : Scanner (α × Mark) :=
  tag "\x7b\x7b" before contents [] "\x7d\x7d"

/-- The word or sign that starts the next branch of a block. -/
def elseSign : Scanner Unit := token "else" <|> token "^"

/-- The tag of a last branch. -/
def elseTag : Scanner Mark := do
  return (← braced [] elseSign).2

/-- The tag of a further block in place of a last branch. -/
def chainTag : Scanner (Tag × Mark) :=
  braced [] do
    elseSign
    spaced line

/-- An interpolation that escapes its value. -/
def expression : Scanner Markup := do
  absent ((do let _ ← elseTag) <|> (do let _ ← chainTag))
  let (t, mark) ← braced [] interpolation
  return .output t true mark

/-- An interpolation that takes its value as it is. -/
def plainExpression : Scanner Markup := do
  let (t, mark) ←
    tag "\x7b\x7b\x7b" [] interpolation [] "\x7d\x7d\x7d" <|>
    tag "\x7b\x7b" ["\x7b"] interpolation ["\x7d"] "\x7d\x7d" <|>
    braced ["&"] (do return { head := ← head })
  return .output t false mark

/-! ## Text and comments -/

/-- Backslashes before an opening tag: one is dropped, and a single one makes the braces text. -/
def escape : Scanner (List Char) :=
  (do
    token "\\"
    token "\x7b\x7b"
    let more ← optional (token "\x7b\x7b")
    return List.replicate (if more.isSome then 4 else 2) '\x7b') <|>
  (do
    token "\\"
    let more ← takeWhile1 (· == '\\')
    if ← ahead "\x7b\x7b" then return more else fail)

/-- The next bit of text that does not start with `stop`. -/
def textBit (stop : String) : Scanner (List Char) :=
  escape <|>
  (do
    if ← ahead stop then fail
    return [← anyChar])

/-- Text up to an opening tag. -/
def text : Scanner Markup := do
  let start ← here
  let bits ← many (textBit "\x7b\x7b")
  if bits.isEmpty then fail
  return .text bits.flatten start (← here)

/-- A text without its leading repetitions of `part`. -/
def dropLeading (part : List Char) : Nat → List Char → List Char
  | 0, cs => cs
  | fuel + 1, cs =>
    if part.isPrefixOf cs then dropLeading part fuel (cs.drop part.length) else cs

/-- A text without the repetitions of `opening` at its start and of `closing` at its end. -/
def stripDelimiters (opening closing : String) (cs : List Char) : List Char :=
  let front := dropLeading opening.toList cs.length cs
  (dropLeading closing.toList.reverse front.length front.reverse).reverse

/-- A comment between `opening` and `closing`; `contents` leads up to the closing text. -/
def commentBetween (opening closing : String) (contents : Scanner Unit) : Scanner Markup := do
  let start ← here
  contents
  let stop ← here
  return .comment (String.ofList (stripDelimiters opening closing (start.upTo stop))) start stop

def comment : Scanner Markup :=
  commentBetween "\x7b\x7b!--" "--\x7d\x7d" (do
    token "\x7b\x7b!"
    spaced (token "--")
    let _ ← many (spaced do
      if ← ahead "--\x7d\x7d" then fail
      anyChar)
    spaced (token "--")
    spaced (token "\x7d\x7d")) <|>
  commentBetween "\x7b\x7b!" "\x7d\x7d" (do
    token "\x7b\x7b!"
    let _ ← many (spaced do
      if ← ahead "\x7d\x7d" then fail
      anyChar)
    spaced (token "\x7d\x7d"))

/-! ## Blocks -/

/-- The closing tag of a block, with the name in it. -/
def closingTag (name : Scanner String) : Scanner (String × Mark) := braced ["/"] name

/-- How a helper block goes on after a body, with `body` for the bodies that follow and at most
`fuel` of them. -/
def endingUpTo (body : Scanner (List Markup)) : Nat → Scanner Ending
  | 0 => fail
  | fuel + 1 => fun c =>
    ((do
        let (t, mark) ← chainTag
        let inner ← spaced body
        return .chain t mark inner (← spaced (endingUpTo body fuel))) <|>
      (do
        let mark ← elseTag
        let inner ← spaced body
        let (name, closing) ← spaced (closingTag optIdentifier)
        return .otherwise mark inner name closing) <|>
      (do
        let (name, mark) ← closingTag optIdentifier
        return .close name mark) : Scanner Ending) c

def helperBlock (body : Scanner (List Markup)) : Scanner Markup := do
  let (t, mark) ← braced ["#"] line
  let inner ← spaced body
  let ending ← spaced (do endingUpTo body (← remaining))
  return .block .helper t mark inner ending

def decoratorBlock (body : Scanner (List Markup)) : Scanner Markup := do
  let (t, mark) ← braced ["#", "*"] line
  let inner ← spaced body
  let (name, closing) ← spaced (closingTag optIdentifier)
  return .block .decorator t mark inner (.close name closing)

/-- A partial with a body of its own. -/
def inclusionBlock (body : Scanner (List Markup)) : Scanner Markup := do
  let (t, mark) ← braced ["#", ">"] inclusionLine
  let inner ← spaced body
  let name : Scanner String := do return (← optional partialIdentifier).getD ""
  let (closingName, closing) ← spaced (closingTag name)
  return .block .inclusion t mark inner (.close closingName closing)

/-- A block whose body is taken as text. -/
def verbatimBlock : Scanner Markup := do
  let (t, mark) ← tag "\x7b\x7b\x7b\x7b" [] line [] "\x7d\x7d\x7d\x7d"
  blanks
  let start ← here
  let bits ← many (textBit "\x7b\x7b\x7b\x7b")
  let stop ← here
  let (name, closing) ←
    spaced (tag "\x7b\x7b\x7b\x7b" ["/"] optIdentifier [] "\x7d\x7d\x7d\x7d")
  return .verbatim t mark bits.flatten start stop name closing

/-- One piece of a template, with `body` for the bodies of blocks. -/
def piece (body : Scanner (List Markup)) : Scanner Markup :=
  text <|> expression <|> plainExpression <|> helperBlock body <|> verbatimBlock <|> comment <|>
  (do
    let (t, mark) ← braced ["*"] line
    return .decorator t mark) <|>
  decoratorBlock body <|>
  (do
    let (t, mark) ← braced [">"] inclusionLine
    return .inclusion t mark) <|>
  inclusionBlock body

/-- The pieces of a template in which blocks nest at most `depth` deep. -/
def pieces : Nat → Scanner (List Markup)
  | 0 => return []
  | depth + 1 => fun c =>
    (do
      match ← optional (piece (pieces depth)) with
      | none => return []
      | some first => return first :: (← many (spaced (piece (pieces depth)))) :
      Scanner (List Markup)) c

/-- A whole template as pieces and the end of its text, if it follows the grammar. -/
def scan (start : Cursor) : Option (List Markup × Cursor) := do
  let (found, stop) ← pieces (start.rest.length + 1) start
  let (_, stop) ← blanks stop
  if stop.rest.isEmpty then some (found, stop) else none

end Template
end Stencil
