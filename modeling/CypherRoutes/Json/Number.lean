/-
# Reading JSON numbers

A number without fraction and exponent is whole if it fits 64 bits. Any other number is gathered
as a significand of at most 64 bits and a power of ten, which are then multiplied or divided as
binary64 numbers: the result may differ from the nearest one in the last place. Digits that the
significand has no room for count only towards the exponent.
-/
import CypherRoutes.Json.Value

namespace CypherRoutes

namespace Number

/-! ## Limits -/

/-- The greatest significand. -/
def greatestSignificand : Nat := 0xffffffffffffffff

/-- The greatest exponent that is read as a number. -/
def greatestExponent : Nat := 0x7fffffff

/-- The value of a decimal digit. -/
def digit? (c : Char) : Option Nat :=
  if c.isDigit then some (c.toNat - '0'.toNat) else none

/-! ## From a significand and an exponent to a number -/

/-- The power of ten that a quotient takes at once. -/
def greatestPower : Nat := 308

/-- The binary64 number nearest to `10 ^ n`. -/
def powerOfTen (n : Nat) : Option Double := Double.ofNat false (Nat.pow 10 n)

/-- `x * 10 ^ e`, as a product or a quotient by one power, after quotients by `10 ^ 308` as long
as the exponent is below its range; no more than `steps` of these are needed to reach zero. -/
def scaleByTen (x : Double) (e : Int) : Nat → Option Double
  | 0 => some x
  | steps + 1 =>
    if e.natAbs ≤ greatestPower then do
      let power ← powerOfTen e.natAbs
      if 0 ≤ e then x.mul power else x.div power
    else if x.isZero then some x
    else if 0 ≤ e then none
    else do
      let power ← powerOfTen greatestPower
      let x ← x.div power
      scaleByTen x (e + greatestPower) steps

/-- The decimal `± significand * 10 ^ e`; nothing if it is out of range. -/
def ofParts (negative : Bool) (significand : Nat) (e : Int) : Option Number := do
  let x ← Double.ofNat false significand
  let x ← scaleByTen x e 4
  return .decimal { x with negative := negative }

/-- A number of whole digits only. A minus makes zero, and what is beyond -2^63, a decimal. -/
def ofWhole (negative : Bool) (n : Nat) : Option Number :=
  if negative then
    if n == 0 || 0x8000000000000000 < n then (Double.ofNat true n).map .decimal
    else some (.integer (-(n : Int)))
  else some (.integer n)

/-! ## The parts of a number -/

/-- Sums of exponents stay within 32 bits. -/
def clampExponent (e : Int) : Int :=
  max (-0x80000000) (min 0x7fffffff e)

/-- The digits of an exponent, from `value` on. -/
def readExponentDigits (negative : Bool) (significand : Nat) (start : Int) (below : Bool) :
    (value : Nat) → List Char → Option (Number × List Char)
  | value, [] => (ofParts negative significand (finish value)).map (·, [])
  | value, c :: rest =>
    match digit? c with
    | none => (ofParts negative significand (finish value)).map (·, c :: rest)
    | some d =>
      if greatestExponent < value * 10 + d then
        if significand != 0 && !below then none
        else some (.decimal (.zero negative), rest.dropWhile Char.isDigit)
      else readExponentDigits negative significand start below (value * 10 + d) rest
where
  finish (value : Nat) : Int :=
    clampExponent (if below then start - value else start + value)

/-- The exponent after its letter: an optional sign and at least one digit. -/
def readExponent (negative : Bool) (significand : Nat) (start : Int) (text : List Char) :
    Option (Number × List Char) :=
  let (below, text) := match text with
    | '-' :: rest => (true, rest)
    | '+' :: rest => (false, rest)
    | _ => (false, text)
  match text with
  | c :: rest => do
    let d ← digit? c
    readExponentDigits negative significand start below d rest
  | [] => none

/-- What may stand after the last digit of a significand: an exponent, or nothing. -/
def readTail (negative : Bool) (significand : Nat) (e : Int) (text : List Char) :
    Option (Number × List Char) :=
  match text with
  | 'e' :: rest | 'E' :: rest => readExponent negative significand e rest
  | _ => (ofParts negative significand e).map (·, text)

/-- The digits after the point; once the significand is full the others are passed over. -/
def readFraction (negative : Bool) : (significand : Nat) → (e : Int) → (seen : Bool) →
    List Char → Option (Number × List Char)
  | significand, e, seen, [] => if seen then readTail negative significand e [] else none
  | significand, e, seen, c :: rest =>
    match digit? c with
    | none => if seen then readTail negative significand e (c :: rest) else none
    | some d =>
      if greatestSignificand < significand * 10 + d then
        readTail negative significand e (rest.dropWhile Char.isDigit)
      else readFraction negative (significand * 10 + d) (e - 1) true rest

/-- The whole digits after the significand is full: each adds one to the exponent. -/
def readLong (negative : Bool) (significand : Nat) (text : List Char) :
    Option (Number × List Char) :=
  let digits := text.takeWhile Char.isDigit
  match text.dropWhile Char.isDigit with
  | '.' :: rest => readFraction negative significand digits.length false rest
  | rest => readTail negative significand digits.length rest

/-- The whole digits, from the significand read so far. -/
def readWhole (negative : Bool) : (significand : Nat) → List Char →
    Option (Number × List Char)
  | significand, [] => (ofWhole negative significand).map (·, [])
  | significand, c :: rest =>
    match digit? c with
    | some d =>
      if greatestSignificand < significand * 10 + d then
        readLong negative significand (c :: rest)
      else readWhole negative (significand * 10 + d) rest
    | none =>
      match c with
      | '.' => readFraction negative significand 0 false rest
      | 'e' | 'E' => readExponent negative significand 0 rest
      | _ => (ofWhole negative significand).map (·, c :: rest)

/-- The number at the front of a text and what follows it. No digit may follow a leading
zero. -/
def read (text : List Char) : Option (Number × List Char) :=
  let (negative, text) := match text with
    | '-' :: rest => (true, rest)
    | _ => (false, text)
  match text with
  | '0' :: c :: rest =>
    if c.isDigit then none else readWhole negative 0 (c :: rest)
  | c :: rest => do
    let d ← digit? c
    readWhole negative d rest
  | [] => none

end Number

end CypherRoutes
