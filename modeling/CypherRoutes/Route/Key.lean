/-
# Keys

The key of a route is its literal segments, escaped, and for every parameter a group that takes
one or more letters, digits or underscores.
-/
import CypherRoutes.Cypher.Phrase

namespace CypherRoutes

/-- A segment of a key. -/
inductive KeySegment where
  | literal (text : String)
  | param
deriving DecidableEq

/-- The text of a group. -/
def groupText : String := "([a-zA-Z0-9_]+)"

/-- A character that a group takes: a letter, a digit or an underscore of ASCII. -/
def isWordChar (c : Char) : Bool := c.isAlphanum || c == '_'

/-- The characters with a meaning of their own in a pattern. -/
def metaChars : List Char :=
  ['\\', '.', '+', '*', '?', '(', ')', '|', '[', ']', '{', '}', '^', '$', '#', '&', '-', '~']

/-- A text with a backslash before each character that has a meaning of its own. -/
def escapeText (text : List Char) : List Char :=
  text.flatMap fun c => if metaChars.contains c then ['\\', c] else [c]

/-- The text of a segment. -/
def KeySegment.text : KeySegment → String
  | literal text => String.ofList (escapeText text.toList)
  | param => groupText

/-- The text of a key. -/
def keyText (segments : List KeySegment) : String :=
  String.intercalate "/" (segments.map KeySegment.text)

end CypherRoutes
