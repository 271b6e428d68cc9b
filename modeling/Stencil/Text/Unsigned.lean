/-!
# Unsigned numbers in text

- `decimalValue` : the number that a list of decimal digits denotes
- `readUnsigned` : a number below a bound, written in ASCII digits with an optional plus sign
-/

namespace Stencil
namespace Text

def digitValue (c : Char) : Nat :=
  c.toNat - '0'.toNat

/-- The number that decimal digits denote, the most significant first. -/
def decimalValue (digits : List Char) : Nat :=
  digits.foldl (fun n c => 10 * n + digitValue c) 0

/-- Reads digits only, and only a value below `bound`. -/
def readDigits (bound : Nat) (digits : List Char) : Option Nat :=
  if digits.isEmpty || !digits.all Char.isDigit then none
  else if decimalValue digits < bound then some (decimalValue digits)
  else none

/-- Reads a number below `bound`; a leading plus sign is allowed. -/
def readUnsigned (bound : Nat) : List Char → Option Nat
  | '+' :: digits => readDigits bound digits
  | digits => readDigits bound digits

def bound32 : Nat := 4294967296

def bound64 : Nat := 18446744073709551616

end Text
end Stencil
