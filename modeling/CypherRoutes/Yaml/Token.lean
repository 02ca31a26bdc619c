/-
# YAML tokens

The tokens of a YAML text and the characters that it may hold.
-/
namespace CypherRoutes

namespace Yaml

/-! ## Characters -/

/-- A space or a tab. -/
def isBlankChar (c : Char) : Bool := c == ' ' || c == '\t'

/-- A line break: a carriage return, a line feed, or one of the breaks of Unicode. -/
def isBreakChar (c : Char) : Bool :=
  c == '\r' || c == '\n' || c == '\u0085' || c == '\u2028' || c == '\u2029'

/-- A blank or a line break. -/
def isGapChar (c : Char) : Bool := isBlankChar c || isBreakChar c

/-- A character of an anchor's name or of a tag handle. -/
def isWordChar (c : Char) : Bool := c.isAlphanum || c == '_' || c == '-'

/-- A character that a text may hold. -/
def isAllowedChar (c : Char) : Bool :=
  let n := c.toNat
  n == 0x9 || n == 0xa || n == 0xd || (0x20 ≤ n && n ≤ 0x7e) || n == 0x85 ||
    (0xa0 ≤ n && n ≤ 0xd7ff) || (0xe000 ≤ n && n ≤ 0xfffd) || 0x10000 ≤ n

/-- Whether a text ends here or goes on with a blank or a break. -/
def atGap : List Char → Bool
  | [] => true
  | c :: _ => isGapChar c

/-- Whether a text ends here or goes on with a break. -/
def atLineEnd : List Char → Bool
  | [] => true
  | c :: _ => isBreakChar c

/-! ## Tokens -/

/-- How a scalar is written. -/
inductive Style where
  | plain
  | quoted
  | literal
  | folded
deriving DecidableEq

/-- The text of a tag. An escaped group of octets that is no character is kept as nothing. -/
abbrev TagText := List (Option Char)

/-- The tag text of plain characters. -/
def TagText.ofChars (text : List Char) : TagText := text.map some

/-- A token. Every collection in block style has its own start, and all of them end alike. -/
inductive Token where
  | version (major minor : Nat)
  | tagDirective (handle : String) (start : TagText)
  | documentStart
  | documentEnd
  | blockSequence
  | blockMapping
  | blockEnd
  | flowSequence
  | flowSequenceEnd
  | flowMapping
  | flowMappingEnd
  | blockEntry
  | flowEntry
  | key
  | value
  | reference (name : String)
  | anchor (name : String)
  | tag (handle : String) (suffix : TagText)
  | scalar (text : String) (style : Style)

end Yaml

end CypherRoutes
