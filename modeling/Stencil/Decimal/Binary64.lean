/-!
# Binary floating-point magnitudes

Finite magnitudes with a mantissa of at most 53 bits, computed exactly over the natural numbers.

- `Binary64`   : the magnitude `mantissa * 2 ^ exponent`
- `roundRatio` : the nearest magnitude to a quotient, an exact tie going to the even mantissa
- `Binary64.mul`, `Binary64.div`, `Binary64.tenPow` : rounded arithmetic
-/

namespace Stencil
namespace Decimal

/-- The magnitude `mantissa * 2 ^ exponent`. -/
structure Binary64 where
  mantissa : Nat
  exponent : Int
  deriving DecidableEq, Repr

def minExponent : Int := -1074

/-- The greatest exponent of a finite magnitude. -/
def maxExponent : Int := 971

/-- The least mantissa of full length, `2 ^ 52`. -/
def leastFull : Nat := 4503599627370496

/-- The power of two by which a numerator with exponent `e` is multiplied. -/
def upScale (e : Int) : Nat := Nat.pow 2 e.toNat

/-- The power of two by which a denominator is multiplied for a numerator with exponent `e`. -/
def downScale (e : Int) : Nat := Nat.pow 2 (-e).toNat

/-- The quotient to the nearest natural number, an exact half going to the even neighbour. -/
def roundDiv (num den : Nat) : Nat :=
  let q := num / den
  let r := num % den
  if 2 * r > den || (2 * r == den && q % 2 == 1) then q + 1 else q

/-- The exponent of the power of two at or just below a positive quotient. -/
def floorLog2 (num den : Nat) : Int :=
  let k : Int := (Nat.log2 num : Int) - Nat.log2 den
  if num * downScale k ≥ den * upScale k then k else k - 1

namespace Binary64

def zero : Binary64 := ⟨0, minExponent⟩

def isZero (x : Binary64) : Bool := x.mantissa == 0

end Binary64

/-- The magnitude nearest to `num / den`, or nothing if it is too large. -/
def roundRatio (num den : Nat) : Option Binary64 :=
  if num == 0 then some .zero
  else
    let e := max (floorLog2 num den - 52) minExponent
    let m := roundDiv (num * downScale e) (den * upScale e)
    let x : Binary64 := if m == 2 * leastFull then ⟨leastFull, e + 1⟩ else ⟨m, e⟩
    if x.exponent > maxExponent then none else some x

namespace Binary64

/-- The rounded magnitude of a natural number. -/
def ofNat (n : Nat) : Option Binary64 := roundRatio n 1

/-- The rounded product. -/
def mul (x y : Binary64) : Option Binary64 :=
  let e := x.exponent + y.exponent
  roundRatio (x.mantissa * y.mantissa * upScale e) (downScale e)

/-- The rounded quotient by a magnitude other than zero. -/
def div (x y : Binary64) : Option Binary64 :=
  let e := x.exponent - y.exponent
  roundRatio (x.mantissa * upScale e) (y.mantissa * downScale e)

/-- The rounded power of ten. -/
def tenPow (n : Nat) : Option Binary64 := ofNat (Nat.pow 10 n)

end Binary64

end Decimal
end Stencil
