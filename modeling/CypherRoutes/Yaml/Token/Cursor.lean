/-
# Places in a text

A cursor is a place in a text: what follows, and the count of octets, lines and columns before
it. Columns are counted in characters.
-/
import CypherRoutes.Yaml.Token

namespace CypherRoutes

namespace Yaml

/-- A place in a text. -/
structure Cursor where
  rest : List Char
  /-- The octets of UTF-8 before the place. -/
  index : Nat := 0
  line : Nat := 0
  column : Nat := 0

namespace Cursor

/-- The character at the cursor. -/
def head? (c : Cursor) : Option Char := c.rest.head?

/-- Whether the given character is at the cursor. -/
def atChar (c : Cursor) (x : Char) : Bool := c.head? == some x

/-- The place after a number of characters of the line, all of which exist. -/
def advance (c : Cursor) (n : Nat) : Cursor where
  rest := c.rest.drop n
  index := c.index + (String.ofList (c.rest.take n)).utf8ByteSize
  line := c.line
  column := c.column + n

/-- The place after the character at the cursor. -/
def skip (c : Cursor) : Cursor := c.advance 1

/-- The characters of the line that satisfy `p`, and the place after them. -/
def takeWhile (c : Cursor) (p : Char → Bool) : List Char × Cursor :=
  let taken := c.rest.takeWhile p
  (taken, c.advance taken.length)

/-- The place after the characters of the line that satisfy `p`. -/
def dropWhile (c : Cursor) (p : Char → Bool) : Cursor := (c.takeWhile p).2

/-- The place after the blanks. -/
def skipBlanks (c : Cursor) : Cursor := c.dropWhile isBlankChar

/-- The place of the line's end. -/
def skipToLineEnd (c : Cursor) : Cursor := c.dropWhile (!isBreakChar ·)

/-- The place after a comment, if one begins at the cursor. -/
def skipComment (c : Cursor) : Cursor := if c.atChar '#' then c.skipToLineEnd else c

/-- The line break at the cursor as it is read, and the place after it. The two separators of
Unicode are read as they are, every other break as a line feed. -/
def takeBreak (c : Cursor) : List Char × Cursor :=
  match c.rest with
  | '\r' :: '\n' :: rest => (['\n'], ⟨rest, c.index + 2, c.line + 1, 0⟩)
  | x :: rest =>
    if isBreakChar x then
      ([if x == '\u2028' || x == '\u2029' then x else '\n'],
        ⟨rest, c.index + x.utf8Size, c.line + 1, 0⟩)
    else ([], c)
  | [] => ([], c)

/-- The place after the line break at the cursor. -/
def skipBreak (c : Cursor) : Cursor := c.takeBreak.2

/-- Whether a line begins here with three of the given character and a gap behind them. -/
def atIndicator (c : Cursor) (x : Char) : Bool :=
  c.column == 0 &&
    match c.rest with
    | a :: b :: d :: rest => a == x && b == x && d == x && atGap rest
    | _ => false

/-- Whether a line begins here that starts or ends a document. -/
def atDocumentIndicator (c : Cursor) : Bool := c.atIndicator '-' || c.atIndicator '.'

end Cursor

end Yaml

end CypherRoutes
