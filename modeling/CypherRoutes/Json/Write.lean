/-
# Writing JSON text

The compact form has no blanks at all; the indented form has one member or item a line, two
spaces deeper than its container. Both write characters as they are, but for quotes, backslashes
and control characters.
-/
import CypherRoutes.Json.Value
import CypherRoutes.Number.Shortest

namespace CypherRoutes

namespace Number

/-- The text of a number. -/
def text : Number → String
  | .integer n => toString n
  | .decimal x => x.text

end Number

namespace Json

/-! ## Strings -/

/-- The two hexadecimal digits of a number below 256. -/
def twoHexDigits (n : Nat) : List Char :=
  [Nat.digitChar (n / 16), Nat.digitChar (n % 16)]

/-- A character as it stands between quotes. -/
def escapedChar (c : Char) : List Char :=
  match c with
  | '"' => ['\\', '"']
  | '\\' => ['\\', '\\']
  | '\x08' => ['\\', 'b']
  | '\t' => ['\\', 't']
  | '\n' => ['\\', 'n']
  | '\x0c' => ['\\', 'f']
  | '\r' => ['\\', 'r']
  | c => if c.toNat < 0x20 then '\\' :: 'u' :: '0' :: '0' :: twoHexDigits c.toNat else [c]

/-- A string between quotes. -/
def quoted (s : String) : String :=
  String.ofList ('"' :: (s.toList.flatMap escapedChar ++ ['"']))

/-! ## The compact form -/

mutual

/-- A value without blanks. -/
def write : Value → String
  | .null => "null"
  | .bool b => if b then "true" else "false"
  | .number n => n.text
  | .string s => quoted s
  | .array items => "[" ++ String.intercalate "," (writeItems items) ++ "]"
  | .object members => "\x7b" ++ String.intercalate "," (writeMembers members) ++ "\x7d"

/-- The items of an array, one by one. -/
def writeItems : List Value → List String
  | [] => []
  | item :: rest => write item :: writeItems rest

/-- The members of an object, one by one. -/
def writeMembers : List (String × Value) → List String
  | [] => []
  | (name, value) :: rest => (quoted name ++ ":" ++ write value) :: writeMembers rest

end

/-! ## The indented form -/

/-- A line break and the indentation of the given depth. -/
def lineAt (depth : Nat) : String :=
  String.ofList ('\n' :: List.replicate (2 * depth) ' ')

/-- Lines between two brackets; an empty container stays on its line. -/
def bracketed (opening closing : String) (depth : Nat) : List String → String
  | [] => opening ++ closing
  | lines =>
    opening ++ lineAt (depth + 1) ++ String.intercalate ("," ++ lineAt (depth + 1)) lines ++
      lineAt depth ++ closing

mutual

/-- A value in the indented form, inside `depth` containers. -/
def indented (depth : Nat) : Value → String
  | .array items => bracketed "[" "]" depth (indentedItems (depth + 1) items)
  | .object members => bracketed "\x7b" "\x7d" depth (indentedMembers (depth + 1) members)
  | .null => write .null
  | .bool b => write (.bool b)
  | .number n => write (.number n)
  | .string s => write (.string s)

/-- The items of an array in the indented form. -/
def indentedItems (depth : Nat) : List Value → List String
  | [] => []
  | item :: rest => indented depth item :: indentedItems depth rest

/-- The members of an object in the indented form. -/
def indentedMembers (depth : Nat) : List (String × Value) → List String
  | [] => []
  | (name, value) :: rest =>
    (quoted name ++ ": " ++ indented depth value) :: indentedMembers depth rest

end

end Json

end CypherRoutes
