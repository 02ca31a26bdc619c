/-
# The shortest decimal text of a number

A finite binary64 number is written with the fewest significant digits that read back as the
same number, and of these digits with the nearest. Numbers from 0.00001 up to, but not including,
10000000000000000 are written in full and always with a fraction; all others in scientific
notation with a sign before the exponent.
-/
import CypherRoutes.Number.Double

namespace CypherRoutes

namespace Double

/-! ## The interval of a number -/

/-- The decimals that round to a number lie around it, between `low` and `high`; all three are
counted in quarters of the last binary place. -/
structure Interval where
  low : Nat
  middle : Nat
  high : Nat
  /-- Whether the two ends round to the number themselves. -/
  closed : Bool

/-- The interval reaches half a place up, and half a place down, or a quarter where the next
smaller number is nearer. Its ends belong to it when the significand is even. -/
def interval (x : Double) : Interval where
  low := 4 * x.significand -
    (if x.significand == leastNormal && leastExponent < x.exponent then 1 else 2)
  middle := 4 * x.significand
  high := 4 * x.significand + 2
  closed := x.significand % 2 == 0

/-- Whether `value` lies in the interval, where a quarter of a place measures `unit`. -/
def Interval.holds (i : Interval) (unit value : Nat) : Bool :=
  if i.closed then i.low * unit ≤ value && value ≤ i.high * unit
  else i.low * unit < value && value < i.high * unit

/-! ## Digits -/

/-- How many decimal digits `n` has; zero has one. -/
def digitCount (n : Nat) : Nat := (Nat.toDigits 10 n).length

/-- The exponent `k` with `10 ^ k ≤ num / den < 10 ^ (k + 1)`, for a positive ratio. -/
def decimalExponent (num den : Nat) : Int :=
  if den ≤ num then (digitCount (num / den) : Int) - 1
  else -(digitCount ((den - 1) / num) : Int)

/-- The multiple of `10 ^ place` that rounds to `x`, if there is one, as its factor: one of the
two neighbours of `x`, of both the nearer, and of two equally near the even one. -/
def multipleOf (x : Double) (place : Int) : Option Nat :=
  let i := x.interval
  -- in a common measure a quarter of a binary place is `unit`, and `10 ^ place` is `step`
  let unit := Nat.pow 2 (x.exponent - 2).toNat * Nat.pow 10 (-place).toNat
  let step := Nat.pow 2 (2 - x.exponent).toNat * Nat.pow 10 place.toNat
  let value := i.middle * unit
  let below := value / step
  let above := below + 1
  match i.holds unit (below * step), i.holds unit (above * step) with
  | true, true => some (divEven value step)
  | true, false => some below
  | false, true => some above
  | false, false => none

/-- The first grid, from the place `top` down, that has a decimal which rounds to `x`. Seventeen
digits always suffice. -/
def firstMultiple (x : Double) (top : Int) : Nat → Option (Nat × Int)
  | 0 => none
  | left + 1 =>
    match x.multipleOf top with
    | some factor => some (factor, top)
    | none => firstMultiple x (top - 1) left

/-- The significant digits of `x` and its decimal exponent: `x` is written `d.ddd * 10 ^ e`. -/
def shortestDigits (x : Double) : List Char × Int :=
  let (num, den) := x.ratio
  match x.firstMultiple (decimalExponent num den) 17 with
  | none => ([], 0)
  | some (factor, place) =>
    let digits := Nat.toDigits 10 factor
    let kept := (digits.reverse.dropWhile (· == '0')).reverse
    (kept, place + digits.length - 1)

/-! ## Layout -/

/-- The least decimal exponent of a number written in full. -/
def leastPlain : Int := -5

/-- The greatest decimal exponent of a number written in full. -/
def greatestPlain : Int := 15

/-- The digits with a decimal point after the place of exponent zero. -/
def plainText (digits : List Char) (e : Int) : List Char :=
  if e < 0 then '0' :: '.' :: (List.replicate (-e - 1).toNat '0' ++ digits)
  else
    let whole := e.toNat + 1
    let fraction := digits.drop whole
    digits.take whole ++ List.replicate (whole - digits.length) '0' ++
      '.' :: (if fraction.isEmpty then ['0'] else fraction)

/-- The digits with a point after the first and the exponent behind, with its sign. -/
def scientificText (digits : List Char) (e : Int) : List Char :=
  let mantissa := match digits with
    | [] => []
    | [d] => [d]
    | d :: rest => d :: '.' :: rest
  mantissa ++ 'e' :: (if e < 0 then '-' else '+') :: Nat.toDigits 10 e.natAbs

/-- The decimal text of a number. -/
def text (x : Double) : String :=
  let magnitude :=
    if x.isZero then ['0', '.', '0']
    else
      let (digits, e) := x.shortestDigits
      if leastPlain ≤ e && e ≤ greatestPlain then plainText digits e else scientificText digits e
  String.ofList (if x.negative then '-' :: magnitude else magnitude)

end Double

end CypherRoutes
