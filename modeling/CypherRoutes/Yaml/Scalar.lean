/-
# The values of scalars

What a YAML scalar stands for. A plain scalar is read as null, a boolean, a whole number or a
decimal if it looks like one, and else as a text; every other scalar is a text. A tag of the core
schema asks for one of these kinds.
-/
import CypherRoutes.Json.Value
import CypherRoutes.Number.Decimal
import CypherRoutes.Yaml.Node

namespace CypherRoutes

namespace Yaml

/-! ## Plain scalars -/

/-- Whether a text is one of the words for null. -/
def isNullWord (text : String) : Bool := ["~", "null", "Null", "NULL"].contains text

/-- The boolean that a word stands for. -/
def bool? (text : String) : Option Bool :=
  if ["true", "True", "TRUE"].contains text then some true
  else if ["false", "False", "FALSE"].contains text then some false
  else none

/-- Digits behind a leading zero, which are a text although they look like a number. -/
def isZeroPadded (text : List Char) : Bool :=
  match (Decimal.signOf text).2 with
  | '0' :: c :: rest => (c :: rest).all Char.isDigit
  | _ => false

/-- The base that the letter after a leading zero stands for. -/
def baseOf? : Char → Option Nat
  | 'x' => some 16
  | 'o' => some 8
  | 'b' => some 2
  | _ => none

/-- A number in another base than ten, or else in ten. -/
def unsignedOf? (text : List Char) : Option Nat :=
  let based := match text with
    | '0' :: letter :: digits => (baseOf? letter).bind fun base => Decimal.wholeOf? base digits
    | _ => none
  based.or (Decimal.wholeOf? 10 text)

/-- The whole number that a plain text is: perhaps a sign, and digits of base ten or, behind `0x`,
`0o` or `0b`, of another base. -/
def integer? (text : List Char) : Option Int :=
  if isZeroPadded text then none
  else
    let (negative, digits) := Decimal.signOf text
    (unsignedOf? digits).map fun n => if negative then -(n : Int) else n

/-- Whether a whole number fits a number of bits, with a sign if it is negative. -/
def fitsBits (bits : Nat) (n : Int) : Bool :=
  -(Nat.pow 2 (bits - 1) : Int) ≤ n && n < (Nat.pow 2 bits : Int)

/-- What a text is as a decimal. -/
inductive Float where
  | finite (x : Double)
  | infinite
  | undefined

/-- The decimal that a plain text is: a word for infinity or for no number, or digits. A number
that is too great is none. -/
def float? (text : List Char) : Option Float :=
  let unsigned := match text with
    | '+' :: rest => rest
    | _ => text
  let infinities := [".inf", ".Inf", ".INF"].map String.toList
  if text.head? == some '+' && (unsigned.head?.any fun c => c == '+' || c == '-') then none
  else if infinities.contains unsigned || infinities.any fun w => text == '-' :: w then
    some .infinite
  else if ([".nan", ".NaN", ".NAN"].map String.toList).contains text then some .undefined
  else (Decimal.read? unsigned).map .finite

/-- The value of a decimal; one that is not finite has none but null. -/
def Float.value : Float → Value
  | finite x => .number (.decimal x)
  | infinite => .null
  | undefined => .null

/-- The value of a whole number: one that fits 64 bits. -/
def integerValue (n : Int) : Option Value :=
  if fitsBits 64 n then some (.number (.integer n)) else none

/-- The value of a plain scalar. A whole number that does not fit 64 bits is refused if it fits
128, and a decimal if it does not. -/
def plainValue (text : String) : Option Value :=
  let chars := text.toList
  if text.isEmpty || isNullWord text then some .null
  else
    match bool? text with
    | some b => some (.bool b)
    | none =>
      match (integer? chars).filter (fitsBits 128) with
      | some n => integerValue n
      | none =>
        if isZeroPadded chars then some (.string text)
        else
          match float? chars with
          | some x => some x.value
          | none => some (.string text)

/-! ## Tags -/

/-- The kinds of scalars that a tag may ask for. -/
inductive ScalarTag where
  | bool
  | integer
  | float
  | null
  /-- A tag of the text's own, which no value has. -/
  | own
  /-- A tag that begins with an exclamation mark but is no well-formed text. -/
  | illFormed
  | other
deriving DecidableEq

/-- What a tag asks for. -/
def ScalarTag.ofText (tag : TagText) : ScalarTag :=
  let core (name : String) := TagText.ofChars ("tag:yaml.org,2002:" ++ name).toList
  if tag == core "bool" then bool
  else if tag == core "int" then integer
  else if tag == core "float" then float
  else if tag == core "null" then null
  else if tag.head? == some (some '!') then
    if tag.all Option.isSome then own else illFormed
  else other

/-- Whether a node has a tag of the text's own. -/
def hasOwnTag (tag : Option TagText) : Bool :=
  match tag with
  | some tag => ScalarTag.ofText tag == .own
  | none => false

/-- The value of a scalar; nothing if it has a tag that it cannot meet. -/
def Scalar.value (s : Scalar) : Option Value :=
  let untagged := if s.style == .plain then plainValue s.text else some (.string s.text)
  match s.tag.map ScalarTag.ofText with
  | none => untagged
  | some .bool => (bool? s.text).map .bool
  | some .integer => (integer? s.text.toList).bind integerValue
  | some .float => (float? s.text.toList).map Float.value
  | some .null => if isNullWord s.text then some .null else none
  | some .own => none
  | some .illFormed => untagged
  | some .other => some (.string s.text)

end Yaml

end CypherRoutes
