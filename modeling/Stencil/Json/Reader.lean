import Stencil.Json.Number

/-!
# Reading JSON

A reader takes characters from the front of a text and leaves the rest.

- `Reader`    : a computation over the remaining characters that may fail
- `readValue` : a value in which arrays and objects nest to a given depth
- `parse`     : a whole text as one value
-/

namespace Stencil
namespace Json

/-- Takes characters from the front of a text, or fails. -/
abbrev Reader := StateT (List Char) Option

namespace Reader

def fail {α : Type} : Reader α := fun _ => none

/-- The next character, which is left in place. -/
def peek? : Reader (Option Char) := fun cs => some (cs.head?, cs)

def next : Reader Char
  | [] => none
  | c :: rest => some (c, rest)

def char (c : Char) : Reader Unit := do
  if (← next) != c then fail

/-- Takes characters as long as they satisfy `p`. -/
def takeWhile (p : Char → Bool) : Reader (List Char) :=
  fun cs => some (cs.takeWhile p, cs.dropWhile p)

def word (text : String) : Reader Unit := text.toList.forM char

def blanks : Reader Unit := do
  let _ ← takeWhile fun c => c == ' ' || c == '\t' || c == '\n' || c == '\r'

def remaining : Reader Nat := fun cs => some (cs.length, cs)

end Reader

open Reader

/-! ## Strings -/

def hexValue? (c : Char) : Option Nat :=
  if '0' ≤ c && c ≤ '9' then some (c.toNat - '0'.toNat)
  else if 'a' ≤ c && c ≤ 'f' then some (c.toNat - 'a'.toNat + 10)
  else if 'A' ≤ c && c ≤ 'F' then some (c.toNat - 'A'.toNat + 10)
  else none

def readHex4 : Reader Nat := do
  let a ← hexValue? (← next)
  let b ← hexValue? (← next)
  let c ← hexValue? (← next)
  let d ← hexValue? (← next)
  return ((a * 16 + b) * 16 + c) * 16 + d

/-- The character of a `\u` escape, which may take two halves of a pair. -/
def readCodeUnit : Reader Char := do
  let unit ← readHex4
  if unit < 0xD800 || 0xE000 ≤ unit then return Char.ofNat unit
  else if 0xDC00 ≤ unit then fail
  else
    word "\\u"
    let low ← readHex4
    if 0xDC00 ≤ low && low < 0xE000 then
      return Char.ofNat (0x10000 + (unit - 0xD800) * 0x400 + (low - 0xDC00))
    else fail

/-- The character of an escape, after its backslash. -/
def readEscape : Reader Char := do
  match ← next with
  | '"' => return '"'
  | '\\' => return '\\'
  | '/' => return '/'
  | 'b' => return '\x08'
  | 'f' => return '\x0c'
  | 'n' => return '\n'
  | 'r' => return '\r'
  | 't' => return '\t'
  | 'u' => readCodeUnit
  | _ => fail

/-- The characters of a string up to its closing quote, with `fuel` characters at most. -/
def readStringRest : Nat → List Char → Reader String
  | 0, _ => fail
  | fuel + 1, done => do
    match ← next with
    | '"' => return String.ofList done.reverse
    | '\\' => do readStringRest fuel ((← readEscape) :: done)
    | c => if c.toNat < 0x20 then fail else readStringRest fuel (c :: done)

/-- A string, after its opening quote. -/
def readString : Reader String := do
  readStringRest (← remaining) []

/-! ## Numbers -/

def readDigits1 : Reader (List Char) := do
  let ds ← takeWhile Char.isDigit
  if ds.isEmpty then fail else return ds

/-- The whole part of a number: a single zero, or digits that do not start with one. -/
def readWhole : Reader (List Char) := do
  if (← peek?) == some '0' then
    char '0'
    return ['0']
  else readDigits1

/-- A point and digits, if there is a point. -/
def readFraction : Reader (Option (List Char)) := do
  if (← peek?) == some '.' then
    char '.'
    return some (← readDigits1)
  else return none

/-- An exponent mark, a sign and digits, if there is a mark. -/
def readExponent : Reader (Option (Bool × List Char)) := do
  let mark ← peek?
  if mark == some 'e' || mark == some 'E' then
    let _ ← next
    let sign ← peek?
    if sign == some '+' || sign == some '-' then
      let _ ← next
    return some (sign == some '-', ← readDigits1)
  else return none

def readNumber : Reader Number := do
  let negative := (← peek?) == some '-'
  if negative then char '-'
  let whole ← readWhole
  let fraction ← readFraction
  let exponent ← readExponent
  Numeral.value? ⟨negative, whole, fraction, exponent⟩

/-! ## Values -/

/-- Further items of a list after a comma each, up to the closing character. -/
def readItems {α : Type} (item : Reader α) (close : Char) : Nat → List α → Reader (List α)
  | 0, _ => fail
  | fuel + 1, done => do
    blanks
    let c ← next
    if c == close then return done.reverse
    else if c == ',' then
      blanks
      let a ← item
      readItems item close fuel (a :: done)
    else fail

/-- The items of a list, after its opening character. -/
def readList {α : Type} (item : Reader α) (close : Char) : Reader (List α) := do
  blanks
  if (← peek?) == some close then
    char close
    return []
  else
    let first ← item
    readItems item close (← remaining) [first]

/-- A key, a colon and a value. -/
def readMember (value : Reader Value) : Reader (String × Value) := do
  char '"'
  let key ← readString
  blanks
  char ':'
  blanks
  return (key, ← value)

/-- A value other than an array or an object. -/
def readScalar : Reader Value := do
  match ← peek? with
  | some 'n' => word "null"; return .null
  | some 't' => word "true"; return .boolean true
  | some 'f' => word "false"; return .boolean false
  | some '"' => char '"'; return .string (← readString)
  | _ => return .number (← readNumber)

/-- A value in which arrays and objects nest at most `depth` deep. -/
def readValue : Nat → Reader Value
  | 0 => readScalar
  | depth + 1 => do
    match ← peek? with
    | some '[' => char '['; return .array (← readList (readValue depth) ']')
    | some '\x7b' => char '\x7b'; return .object (← readList (readMember (readValue depth)) '\x7d')
    | _ => readScalar

/-- How deep arrays and objects may nest. -/
def maxDepth : Nat := 127

/-- A whole text as one value. -/
def parse (text : String) : Option Value := do
  let (value, rest) ← (do blanks; let v ← readValue maxDepth; blanks; return v).run text.toList
  if rest.isEmpty then some value else none

end Json
end Stencil
