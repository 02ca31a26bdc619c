/-
# Tags, anchors and directives

The parts of a YAML text that begin with `!`, `&`, `*` and `%`.
-/
import CypherRoutes.Json.Read
import CypherRoutes.Yaml.Token.Cursor

namespace CypherRoutes

namespace Yaml

/-! ## Tags -/

/-- A character of a tag that needs no escape. The flow indicators stand only where a tag is
written out in full. -/
def isTagChar (full : Bool) (c : Char) : Bool :=
  isWordChar c ||
    [';', '/', '?', ':', '@', '&', '=', '+', '$', '.', '!', '~', '*', '\'', '(', ')'].contains c ||
    (full && [',', '[', ']'].contains c)

/-- The octet of a percent sign and two hexadecimal digits, and what follows it. -/
def escapedOctet : List Char → Option (Nat × List Char)
  | '%' :: a :: b :: rest => do
    let high ← Json.hexDigit? a
    let low ← Json.hexDigit? b
    return (high * 16 + low, rest)
  | _ => none

/-- How many octets follow a leading octet of UTF-8, and the bits that it carries itself. -/
def leadingOctet (n : Nat) : Option (Nat × Nat) :=
  if n < 0x80 then some (0, n)
  else if n / 0x20 == 0x6 then some (1, n % 0x20)
  else if n / 0x10 == 0xe then some (2, n % 0x10)
  else if n / 0x8 == 0x1e then some (3, n % 0x8)
  else none

/-- The number of a group of octets after `count` more of them. -/
def trailingOctets : (count code : Nat) → List Char → Option (Nat × List Char)
  | 0, code, text => some (code, text)
  | count + 1, code, text => do
    let (octet, rest) ← escapedOctet text
    if octet / 0x40 == 0x2 then trailingOctets count (code * 0x40 + octet % 0x40) rest else none

/-- The least number that needs the given count of trailing octets. -/
def leastCode : Nat → Nat
  | 0 => 0
  | 1 => 0x80
  | 2 => 0x800
  | _ => 0x10000

/-- The character of an escaped group of octets, if it is one, and what follows the group. -/
def escapedChar (text : List Char) : Option (Option Char × List Char) := do
  let (first, rest) ← escapedOctet text
  let (count, bits) ← leadingOctet first
  let (code, rest) ← trailingOctets count bits rest
  let c := if leastCode count ≤ code && code.isValidChar then some (Char.ofNat code) else none
  return (c, rest)

/-- The longest run of tag characters, and what follows it; `fuel` bounds its length. -/
def tagChars (full : Bool) : (fuel : Nat) → List Char → Option (TagText × List Char)
  | 0, text => some ([], text)
  | fuel + 1, text =>
    match text with
    | [] => some ([], [])
    | c :: rest =>
      if c == '%' then do
        let (x, rest) ← escapedChar text
        let (more, rest) ← tagChars full fuel rest
        return (x :: more, rest)
      else if isTagChar full c then do
        let (more, rest) ← tagChars full fuel rest
        return (some c :: more, rest)
      else some ([], text)

namespace Cursor

/-- The place at which `rest` is left of the line. -/
def moveTo (c : Cursor) (rest : List Char) : Cursor := c.advance (c.rest.length - rest.length)

/-- The run of tag characters at the cursor. -/
def takeTagText (c : Cursor) (full : Bool) : Option (TagText × Cursor) := do
  let (text, rest) ← tagChars full c.rest.length c.rest
  return (text, c.moveTo rest)

/-- An exclamation mark, a run of word characters, and a second mark if there is one. -/
def takeHandle (c : Cursor) : Option (List Char × Cursor) :=
  if c.atChar '!' then
    let (name, c) := c.skip.takeWhile isWordChar
    if c.atChar '!' then some ('!' :: (name ++ ['!']), c.skip) else some ('!' :: name, c)
  else none

/-- A tag written out between angle brackets, from its exclamation mark on. -/
def takeFullTag (c : Cursor) : Option (Token × Cursor) := do
  let (text, c) ← (c.advance 2).takeTagText true
  if text.isEmpty || !c.atChar '>' then none else some (.tag "" text, c.skip)

/-- A tag with a handle: a named one with its two marks, or a single mark. A mark alone is the
tag `!`. -/
def takeShortTag (c : Cursor) : Option (Token × Cursor) := do
  let (handle, c) ← c.takeHandle
  let named := 1 < handle.length && handle.getLast? == some '!'
  let (text, c) ← c.takeTagText false
  if named then
    if text.isEmpty then none else some (.tag (String.ofList handle) text, c)
  else
    let text := TagText.ofChars (handle.drop 1) ++ text
    some (if text.isEmpty then .tag "" [some '!'] else .tag "!" text, c)

/-- The tag at the cursor. A gap follows it, or in a flow collection a comma. -/
def takeTag (c : Cursor) (flow : Bool) : Option (Token × Cursor) := do
  let (token, c) ← if c.rest[1]? == some '<' then c.takeFullTag else c.takeShortTag
  if atGap c.rest || (flow && c.atChar ',') then some (token, c) else none

/-! ## Anchors -/

/-- The name behind `&` or `*`. It has at least one character, and a gap or one of a few
indicators follows it. -/
def takeName (c : Cursor) : Option (String × Cursor) :=
  let (name, c) := c.skip.takeWhile isWordChar
  let ends := atGap c.rest ||
    ['?', ':', ',', ']', '}', '%', '@', '`'].any fun x => c.atChar x
  if name.isEmpty || !ends then none else some (String.ofList name, c)

/-! ## Directives -/

/-- A number of at most nine digits. -/
def takeVersionNumber (c : Cursor) : Option (Nat × Cursor) :=
  let (digits, c) := c.takeWhile Char.isDigit
  if digits.isEmpty || 9 < digits.length then none
  else some (digits.foldl (fun n d => n * 10 + (d.toNat - '0'.toNat)) 0, c)

/-- The two numbers of a version. -/
def takeVersion (c : Cursor) : Option (Token × Cursor) := do
  let (major, c) ← c.skipBlanks.takeVersionNumber
  if !c.atChar '.' then none
  let (minor, c) ← c.skip.takeVersionNumber
  return (.version major minor, c)

/-- A handle that ends with its mark, and the text that it stands for. -/
def takeTagDirective (c : Cursor) : Option (Token × Cursor) := do
  let (handle, c) ← c.skipBlanks.takeHandle
  if handle != ['!'] && handle.getLast? != some '!' then none
  if !c.head?.any isBlankChar then none
  let (text, c) ← c.skipBlanks.takeTagText true
  if text.isEmpty || !atGap c.rest then none
  return (.tagDirective (String.ofList handle) text, c)

/-- The directive at the cursor; nothing but a comment follows it on its line. -/
def takeDirective (c : Cursor) : Option (Token × Cursor) := do
  let (name, c) := c.skip.takeWhile isWordChar
  if !atGap c.rest then none
  let (token, c) ←
    if name == ['Y', 'A', 'M', 'L'] then c.takeVersion
    else if name == ['T', 'A', 'G'] then c.takeTagDirective
    else none
  let c := c.skipBlanks.skipComment
  if !atLineEnd c.rest then none
  return (token, c.skipBreak)

end Cursor

end Yaml

end CypherRoutes
