/-
# Finite binary64 numbers

A finite binary64 number is kept exactly, as a sign, a whole significand and a power of two.
Products and quotients are taken exactly and rounded once, to the nearest number and on a tie to
the one with an even significand. Nothing here goes through machine floats, so every operation
can be reasoned about in the natural numbers.
-/
namespace CypherRoutes

/-- The number `± significand * 2 ^ exponent`. A number built by rounding is in its normal form:
the significand has 53 bits, or fewer at the least exponent. -/
structure Double where
  negative : Bool
  significand : Nat
  exponent : Int
deriving DecidableEq, Inhabited

namespace Double

/-! ## Rounding -/

/-- The exponent of the numbers below the least normal one. -/
def leastExponent : Int := -1074

/-- The greatest exponent of a finite number. -/
def greatestExponent : Int := 971

/-- The least significand of a number above the least exponent. -/
def leastNormal : Nat := 0x10000000000000

/-- Zero with the given sign. -/
def zero (negative : Bool) : Double := ⟨negative, 0, leastExponent⟩

/-- The whole number nearest to `num / den`, the even one of two. -/
def divEven (num den : Nat) : Nat :=
  let q := num / den
  let r := num % den
  if den < 2 * r || (2 * r == den && q % 2 == 1) then q + 1 else q

/-- The ratio `num / (den * 2 ^ e)`, as a numerator and a denominator. -/
def scaled (num den : Nat) (e : Int) : Nat × Nat :=
  if e < 0 then (num * Nat.pow 2 (-e).toNat, den) else (num, den * Nat.pow 2 e.toNat)

/-- The exponent at which `num / den` has a quotient of 53 bits, but never less than the least
one. -/
def exponentOfRatio (num den : Nat) : Int :=
  let guess : Int := (num.log2 : Int) - den.log2 - 53
  let (n, d) := scaled num den guess
  max leastExponent (if n / d < 2 * leastNormal then guess else guess + 1)

/-- The number nearest to `± num / den`, or nothing if its magnitude is too great. -/
def ofRatio (negative : Bool) (num den : Nat) : Option Double :=
  if num = 0 then some (zero negative)
  else
    let e := exponentOfRatio num den
    let (n, d) := scaled num den e
    let s := divEven n d
    let (s, e) := if s = 2 * leastNormal then (leastNormal, e + 1) else (s, e)
    if greatestExponent < e then none else some ⟨negative, s, e⟩

/-- The number nearest to `± n`. -/
def ofNat (negative : Bool) (n : Nat) : Option Double :=
  ofRatio negative n 1

/-- The magnitude as a numerator and a denominator. -/
def ratio (x : Double) : Nat × Nat :=
  if x.exponent < 0 then (x.significand, Nat.pow 2 (-x.exponent).toNat)
  else (x.significand * Nat.pow 2 x.exponent.toNat, 1)

/-! ## Arithmetic -/

/-- Whether the number is a zero of either sign. -/
def isZero (x : Double) : Bool := x.significand == 0

/-- The product, rounded once; nothing if it is too great. -/
def mul (x y : Double) : Option Double :=
  let (a, b) := x.ratio
  let (c, d) := y.ratio
  ofRatio (x.negative != y.negative) (a * c) (b * d)

/-- The quotient by a number other than zero, rounded once; nothing if it is too great. -/
def div (x y : Double) : Option Double :=
  let (a, b) := x.ratio
  let (c, d) := y.ratio
  ofRatio (x.negative != y.negative) (a * d) (b * c)

/-- Equality of values: the two zeros are equal. -/
def sameValue (x y : Double) : Bool :=
  x == y || (x.isZero && y.isZero)

end Double

end CypherRoutes
