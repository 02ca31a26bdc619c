/-
# Reading decimal texts

Decimal texts of numbers: digits with at most one point, at least one digit among them, and
perhaps an exponent. They are rounded to the nearest binary64 number. Whole numbers are read in
any base up to sixteen.
-/
import CypherRoutes.Json.Read

namespace CypherRoutes

namespace Decimal

/-- The whole number that digits of a base make, if there is at least one digit. -/
def wholeOf? (base : Nat) (digits : List Char) : Option Nat :=
  if digits.isEmpty then none
  else digits.foldlM
    (fun n c => do
      let d ← Json.hexDigit? c
      if d < base then return n * base + d else none)
    0

/-- A sign, if there is one, as whether it is a minus; and what follows it. -/
def signOf : List Char → Bool × List Char
  | '-' :: rest => (true, rest)
  | '+' :: rest => (false, rest)
  | text => (false, text)

/-- The exponent that a text is; the empty text is none, and no digits are an error. -/
def exponentOf? : List Char → Option Int
  | [] => some 0
  | c :: rest =>
    if c == 'e' || c == 'E' then do
      let (negative, digits) := signOf rest
      let n ← wholeOf? 10 digits
      return if negative then -(n : Int) else n
    else none

/-- The number nearest to `± n * 10 ^ e`; nothing if it is too great. -/
def ofParts (negative : Bool) (n : Nat) (e : Int) : Option Double :=
  let digits : Int := (Nat.toDigits 10 n).length
  if n = 0 || digits + e < -400 then some (.zero negative)
  else if 400 < digits + e then none
  else if 0 ≤ e then Double.ofRatio negative (n * Nat.pow 10 e.toNat) 1
  else Double.ofRatio negative n (Nat.pow 10 (-e).toNat)

/-- The finite number nearest to a decimal text with an optional sign. -/
def read? (text : List Char) : Option Double := do
  let (negative, text) := signOf text
  let (whole, text) := text.span Char.isDigit
  let (fraction, text) := match text with
    | '.' :: rest => rest.span Char.isDigit
    | _ => ([], text)
  let n ← wholeOf? 10 (whole ++ fraction)
  let e ← exponentOf? text
  ofParts negative n (e - fraction.length)

end Decimal

end CypherRoutes
