import Stencil.Json.Value
import Stencil.Text.Unsigned

/-!
# Reading JSON numbers

A number without fraction and exponent that fits 64 bits is an integer. Any other number is read
into a 64-bit significand and a power of ten, which are then combined by one rounded multiplication
or by rounded divisions.

- `Numeral`      : a number as written
- `Significand`  : the leading digits that fit 64 bits, and the power of ten that is left
- `scaleByTen`   : a significand times a power of ten
- `Numeral.value?` : the number, unless it is too large
-/

namespace Stencil
namespace Json

open Decimal (Binary64)
open Text (bound64 decimalValue digitValue)

/-- A number as written: its digits by part. -/
structure Numeral where
  negative : Bool
  whole : List Char
  fraction : Option (List Char)
  /-- Whether the exponent is negative, and its digits. -/
  exponent : Option (Bool × List Char)
  deriving DecidableEq, Repr

/-- The digits `value * 10 ^ scale`. -/
structure Significand where
  value : Nat := 0
  scale : Int := 0
  deriving DecidableEq, Repr

/-- Takes a whole digit; once 64 bits are full, it only shifts the value. -/
def Significand.pushWhole (s : Significand) (c : Char) : Significand :=
  let next := 10 * s.value + digitValue c
  if s.scale == 0 && next < bound64 then { s with value := next }
  else { s with scale := s.scale + 1 }

/-- Takes the digits of a fraction as long as they fit 64 bits. -/
def Significand.pushFraction (s : Significand) : List Char → Significand
  | [] => s
  | c :: rest =>
    let next := 10 * s.value + digitValue c
    if next < bound64 then Significand.pushFraction ⟨next, s.scale - 1⟩ rest else s

/-- Divides by powers of ten of at most `10 ^ 308` at a time. -/
def shrinkByTen : Nat → Binary64 → Nat → Option Binary64
  | 0, x, _ => some x
  | fuel + 1, x, n =>
    if n ≤ 308 then do x.div (← Binary64.tenPow n)
    else if x.isZero then some x
    else do shrinkByTen fuel (← x.div (← Binary64.tenPow 308)) (n - 308)

/-- A magnitude times a power of ten, or nothing if the result is too large. -/
def scaleByTen (x : Binary64) (scale : Int) : Option Binary64 :=
  if scale < 0 then shrinkByTen (scale.natAbs / 308 + 1) x scale.natAbs
  else if scale ≤ 308 then do x.mul (← Binary64.tenPow scale.toNat)
  else if x.isZero then some x
  else none

/-- The significand of a numeral, before its exponent. -/
def Numeral.significand (t : Numeral) : Significand :=
  (t.whole.foldl Significand.pushWhole {}).pushFraction (t.fraction.getD [])

/-- The greatest exponent that is read; a greater one overflows or vanishes. -/
def maxWrittenExponent : Nat := 2147483647

/-- The magnitude of a numeral that is no integer. -/
def Numeral.magnitude? (t : Numeral) : Option Binary64 := do
  let s := t.significand
  let x ← Binary64.ofNat s.value
  match t.exponent with
  | none => scaleByTen x s.scale
  | some (negative, digits) =>
    let power := decimalValue digits
    if power > maxWrittenExponent then
      if s.value != 0 && !negative then none else some .zero
    else scaleByTen x (if negative then s.scale - power else s.scale + power)

/-- The integer of a numeral without fraction and exponent, if it fits 64 bits. -/
def Numeral.integer? (t : Numeral) : Option Int :=
  if t.fraction.isSome || t.exponent.isSome then none
  else
    let n := decimalValue t.whole
    if t.negative then
      if 0 < n && n ≤ bound64 / 2 then some (-(n : Int)) else none
    else if n < bound64 then some n
    else none

/-- The number that a numeral denotes, unless it is too large. -/
def Numeral.value? (t : Numeral) : Option Number :=
  match t.integer? with
  | some n => some (.integer n)
  | none => t.magnitude?.map (.float t.negative)

end Json
end Stencil
