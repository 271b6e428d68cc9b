import Stencil.Decimal.Binary64

/-!
# Shortest decimals

The decimal with the fewest digits that rounds to a given magnitude, and among those the nearest.

- `Digits`      : the decimal `0.d₁d₂… * 10 ^ point`
- `shortest`    : the shortest decimal of a magnitude
- `positional`, `scientific` : the two ways to write a decimal
-/

namespace Stencil
namespace Decimal

/-- The decimal `0.d₁d₂… * 10 ^ point`. -/
structure Digits where
  digits : List Char
  point : Int
  deriving DecidableEq, Repr

/-- The decimals that round to a magnitude, as numerators over a common denominator. -/
structure Interval where
  low : Nat
  value : Nat
  high : Nat
  denominator : Nat
  /-- Whether the two ends belong to the interval. -/
  closed : Bool

/-- The decimals that round to `x`, a quarter of the last place being the unit. -/
def Binary64.interval (x : Binary64) : Interval :=
  let e := x.exponent - 2
  let below := if x.mantissa == leastFull && x.exponent > minExponent then 1 else 2
  { low := (4 * x.mantissa - below) * upScale e
    value := 4 * x.mantissa * upScale e
    high := (4 * x.mantissa + 2) * upScale e
    denominator := downScale e
    closed := x.mantissa % 2 == 0 }

/-- The numerator of the decimal `n * 10 ^ scale` over `den`, times `10 ^ k` where the scale is
`-k`. -/
def gridNumerator (den n : Nat) (scale : Int) : Nat :=
  n * den * Nat.pow 10 scale.toNat

/-- Whether the decimal `n * 10 ^ scale` lies in the interval. -/
def Interval.has (i : Interval) (n : Nat) (scale : Int) : Bool :=
  let g := gridNumerator i.denominator n scale
  let k := Nat.pow 10 (-scale).toNat
  if i.closed then i.low * k ≤ g && g ≤ i.high * k else i.low * k < g && g < i.high * k

/-- The decimal point of the interval's value: the least `p` with value below `10 ^ p`. -/
def Interval.point (i : Interval) : Int :=
  let bits : Int := (Nat.log2 i.value : Int) - Nat.log2 i.denominator
  let guess : Int := bits * 30103 / 100000 - 1
  let fits (p : Int) : Bool :=
    i.value * Nat.pow 10 (-p).toNat < i.denominator * Nat.pow 10 p.toNat
  if fits guess then guess
  else if fits (guess + 1) then guess + 1
  else if fits (guess + 2) then guess + 2
  else guess + 3

/-- The decimal of `count` digits nearest to the value, if it lies in the interval. -/
def Interval.nearest? (i : Interval) (point : Int) (count : Nat) : Option Nat :=
  let scale := point - count
  let k := Nat.pow 10 (-scale).toNat
  let unit := gridNumerator i.denominator 1 scale
  let low := i.value * k / unit
  let below := i.value * k - low * unit
  let above := (low + 1) * unit - i.value * k
  match i.has low scale, i.has (low + 1) scale with
  | true, true =>
    if below < above then some low
    else if above < below then some (low + 1)
    else some (if low % 2 == 0 then low else low + 1)
  | true, false => some low
  | false, true => some (low + 1)
  | false, false => none

/-- Searches for the shortest decimal from `count` digits on, with `fuel` tries. -/
def Interval.search (i : Interval) (point : Int) : Nat → Nat → Option (Nat × Int)
  | 0, _ => none
  | fuel + 1, count =>
    match i.nearest? point count with
    | some n => some (n, point - count)
    | none => i.search point fuel (count + 1)

/-- Digits without the zeros at their end. -/
def dropTrailingZeros (digits : List Char) : List Char :=
  (digits.reverse.dropWhile (· == '0')).reverse

/-- The shortest decimal that rounds to a magnitude; at most seventeen digits are needed. -/
def shortest (x : Binary64) : Digits :=
  if x.isZero then ⟨[], 0⟩
  else
    let i := x.interval
    match i.search i.point 17 1 with
    | none => ⟨[], 0⟩
    | some (n, scale) =>
      let ds := Nat.toDigits 10 n
      ⟨dropTrailingZeros ds, ds.length + scale⟩

/-- Positional notation, with at least one digit on either side of the point. -/
def positional (d : Digits) : List Char :=
  let zeros (n : Int) : List Char := List.replicate n.toNat '0'
  let whole := d.digits.take d.point.toNat ++ zeros (d.point - d.digits.length)
  let fraction := zeros (-d.point) ++ d.digits.drop d.point.toNat
  (if whole.isEmpty then ['0'] else whole) ++ ['.'] ++
    (if fraction.isEmpty then ['0'] else fraction)

/-- Scientific notation with a signed exponent, and a point only before further digits. -/
def scientific (d : Digits) : List Char :=
  let power := d.point - 1
  d.digits.take 1 ++
    (if d.digits.length > 1 then '.' :: d.digits.drop 1 else []) ++
    ['e', if power < 0 then '-' else '+'] ++ Nat.toDigits 10 power.natAbs

end Decimal
end Stencil
