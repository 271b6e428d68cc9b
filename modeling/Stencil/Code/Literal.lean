/-!
# String literals of the target language

A literal holds printable ASCII only, so every other character is written by its bytes.

- `escape`  : a text as it stands between the quotes of a literal
- `literal` : the literal itself
-/

namespace Stencil
namespace Code

/-- The lowercase hexadecimal digit of a number below sixteen. -/
def hexDigit (n : Nat) : Char :=
  if n < 10 then Char.ofNat ('0'.toNat + n) else Char.ofNat ('a'.toNat + (n - 10))

/-- A byte as a hexadecimal escape of two digits. -/
def escapeByte (b : UInt8) : List Char :=
  ['\\', 'x', hexDigit (b.toNat / 16), hexDigit (b.toNat % 16)]

/-- The letter that names a character after a backslash, where there is one. -/
def escapeLetter? (c : Char) : Option Char :=
  if c == '\\' || c == '\'' || c == '"' then some c
  else if c == '\n' then some 'n'
  else if c == '\x0c' then some 'f'
  else if c == '\r' then some 'r'
  else if c == '\t' then some 't'
  else if c == '\x0b' then some 'v'
  else none

/-- One character inside a literal. -/
def escapeChar (c : Char) : List Char :=
  match escapeLetter? c with
  | some letter => ['\\', letter]
  | none =>
    if 32 ≤ c.toNat && c.toNat < 127 then [c]
    else (String.utf8EncodeChar c).flatMap escapeByte

/-- A text as it stands between the quotes of a literal. -/
def escape (text : String) : String :=
  String.ofList (text.toList.flatMap escapeChar)

/-- A text as a literal in double quotes. -/
def literal (text : String) : String :=
  "\"" ++ escape text ++ "\""

end Code
end Stencil
