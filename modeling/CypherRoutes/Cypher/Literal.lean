/-
# Cypher literals

The text of a value inside a statement. Strings stand in single quotes, with quotes and
backslashes escaped, except where a string names a parameter itself: it is then left as it is.
-/
import CypherRoutes.Json.Write
import CypherRoutes.Text.Blank

namespace CypherRoutes

/-! ## References to parameters -/

/-- A text that begins, after blanks, with a dollar sign. -/
def isParameterReference (text : String) : Bool :=
  (trimStart text.toList).head? == some '$'

/-! ## Literals -/

namespace Value

/-- A character inside a quoted literal. -/
def escapedLiteralChar (c : Char) : List Char :=
  if c == '\\' || c == '\'' then ['\\', c] else [c]

/-- A string as a quoted literal. -/
def quotedLiteral (s : String) : String :=
  String.ofList ('\'' :: (s.toList.flatMap escapedLiteralChar ++ ['\'']))

mutual

/-- A value as a literal, where every string is quoted. -/
def cypher : Value → String
  | .null => "null"
  | .bool b => if b then "true" else "false"
  | .number n => n.text
  | .string s => quotedLiteral s
  | .array items => "[" ++ String.intercalate ", " (cypherItems items) ++ "]"
  | .object members => "\x7b" ++ String.intercalate ", " (cypherMembers members) ++ "\x7d"

/-- The items of a list literal. -/
def cypherItems : List Value → List String
  | [] => []
  | item :: rest => cypher item :: cypherItems rest

/-- The entries of a map literal; their keys are not quoted. -/
def cypherMembers : List (String × Value) → List String
  | [] => []
  | (name, value) :: rest => (name ++ ": " ++ cypher value) :: cypherMembers rest

end

/-- A value as it is written in place of a parameter: like a literal, but a string that is a
reference to a parameter is not quoted. -/
def literal : Value → String
  | .string s => if isParameterReference s then s else quotedLiteral s
  | value => value.cypher

end Value

end CypherRoutes
