/-
# JSON values

The values that properties, parameters and route tables are made of. Objects keep the order of
their members. Two comparisons are told apart: equality of Lean values, where the order of an
object's members counts, and `==`, equality of meaning, where it does not.
-/
import CypherRoutes.Number.Double

namespace CypherRoutes

/-! ## Numbers and values -/

/-- A whole number, or a number with a fraction or an exponent. -/
inductive Number where
  | integer (n : Int)
  | decimal (x : Double)
deriving DecidableEq

/-- Whole numbers equal whole numbers and decimals equal decimals of the same value. -/
def Number.sameValue : Number → Number → Bool
  | .integer m, .integer n => m == n
  | .decimal x, .decimal y => x.sameValue y
  | _, _ => false

/-- A JSON value. An object is the list of its members. -/
inductive Value where
  | null
  | bool (b : Bool)
  | number (n : Number)
  | string (s : String)
  | array (items : List Value)
  | object (members : List (String × Value))

namespace Value

/-- A value that is a text, as that text. -/
def string? : Value → Option String
  | .string s => some s
  | _ => none

/-- Whether the value is `null`. -/
def isNull : Value → Bool
  | .null => true
  | _ => false

/-- The value of the first member named `name`. -/
def member? (name : String) (members : List (String × Value)) : Option Value :=
  members.lookup name

/-- The member of an object; nothing for any other value. -/
def get? (name : String) : Value → Option Value
  | .object members => member? name members
  | _ => none

/-- The members with one more: a name seen before keeps its place and takes the new value. -/
def insertMember (members : List (String × Value)) (name : String) (value : Value) :
    List (String × Value) :=
  match members with
  | [] => [(name, value)]
  | (n, v) :: rest =>
    if n == name then (n, value) :: rest else (n, v) :: insertMember rest name value

/-- The object with the given members, in order of first appearance. -/
def ofMembers (members : List (String × Value)) : Value :=
  .object (members.foldl (fun seen (name, value) => insertMember seen name value) [])

/-! ## Equality of meaning -/

mutual

/-- Equality of meaning: the members of objects may stand in any order. -/
def sameValue : Value → Value → Bool
  | .null, .null => true
  | .bool a, .bool b => a == b
  | .number m, .number n => m.sameValue n
  | .string s, .string t => s == t
  | .array xs, .array ys => sameItems xs ys
  | .object xs, .object ys => xs.length == ys.length && sameMembers xs ys
  | _, _ => false

/-- Equality item by item. -/
def sameItems : List Value → List Value → Bool
  | [], [] => true
  | x :: xs, y :: ys => sameValue x y && sameItems xs ys
  | _, _ => false

/-- Whether every member on the left has an equal one of its name on the right. -/
def sameMembers : List (String × Value) → List (String × Value) → Bool
  | [], _ => true
  | (name, x) :: xs, ys =>
    (match member? name ys with
      | some y => sameValue x y
      | none => false) && sameMembers xs ys

end

instance : BEq Value := ⟨sameValue⟩

end Value

end CypherRoutes
