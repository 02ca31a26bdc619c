/-
# Reading JSON text

A text is one value with blanks around it. Containers nest at most 127 deep, a string holds no
raw control character, and an escaped surrogate stands only in a pair. A member named twice keeps
its first place and takes its last value.
-/
import CypherRoutes.Json.Number

namespace CypherRoutes

namespace Json

/-! ## Leaves -/

/-- The blanks between the tokens of JSON. -/
def isSpace (c : Char) : Bool := c == ' ' || c == '\t' || c == '\n' || c == '\r'

/-- The text after its leading blanks. -/
def skipSpace (text : List Char) : List Char := text.dropWhile isSpace

/-- The value of a hexadecimal digit. -/
def hexDigit? (c : Char) : Option Nat :=
  if c.isDigit then some (c.toNat - '0'.toNat)
  else if 'a' ≤ c && c ≤ 'f' then some (c.toNat - 'a'.toNat + 10)
  else if 'A' ≤ c && c ≤ 'F' then some (c.toNat - 'A'.toNat + 10)
  else none

/-- The character that a backslash and one letter stand for. -/
def shortEscape? : Char → Option Char
  | '"' => some '"'
  | '\\' => some '\\'
  | '/' => some '/'
  | 'b' => some '\x08'
  | 'f' => some '\x0c'
  | 'n' => some '\n'
  | 'r' => some '\r'
  | 't' => some '\t'
  | _ => none

/-- Where a string stands between two characters. -/
inductive StringState where
  /-- Outside any escape. -/
  | plain
  /-- After a backslash. -/
  | escape
  /-- In a `\u` escape: digits still to come, the number so far, and the leading surrogate that
  it must complete, if any. -/
  | unit (left : Nat) (code : Nat) (lead : Option Nat)
  /-- After a leading surrogate: a backslash has to follow. -/
  | pair (lead : Nat)
  /-- After that backslash: the letter `u` has to follow. -/
  | pairEscape (lead : Nat)

/-- What a finished `\u` escape gives: a character, or a leading surrogate that waits for its
other half. A trailing surrogate alone, or a pair of other halves, is refused. -/
def finishUnit (code : Nat) : Option Nat → Option (Char ⊕ Nat)
  | none =>
    if 0xd800 ≤ code && code < 0xdc00 then some (.inr code)
    else if 0xdc00 ≤ code && code < 0xe000 then none
    else some (.inl (Char.ofNat code))
  | some lead =>
    if 0xdc00 ≤ code && code < 0xe000 then
      some (.inl (Char.ofNat (0x10000 + (lead - 0xd800) * 0x400 + (code - 0xdc00))))
    else none

/-- The rest of a string after its opening quote, and what follows the closing one. The
characters read so far are held in reverse. -/
def readString : StringState → (seen : List Char) → List Char → Option (String × List Char)
  | _, _, [] => none
  | .plain, seen, c :: rest =>
    if c == '"' then some (String.ofList seen.reverse, rest)
    else if c == '\\' then readString .escape seen rest
    else if c.toNat < 0x20 then none
    else readString .plain (c :: seen) rest
  | .escape, seen, c :: rest =>
    if c == 'u' then readString (.unit 3 0 none) seen rest
    else match shortEscape? c with
      | some e => readString .plain (e :: seen) rest
      | none => none
  | .unit left code lead, seen, c :: rest =>
    match hexDigit? c with
    | none => none
    | some d =>
      let code := code * 16 + d
      match left with
      | left + 1 => readString (.unit left code lead) seen rest
      | 0 =>
        match finishUnit code lead with
        | some (.inl e) => readString .plain (e :: seen) rest
        | some (.inr lead) => readString (.pair lead) seen rest
        | none => none
  | .pair lead, seen, c :: rest =>
    if c == '\\' then readString (.pairEscape lead) seen rest else none
  | .pairEscape lead, seen, c :: rest =>
    if c == 'u' then readString (.unit 3 0 (some lead)) seen rest else none

/-! ## Values -/

mutual

/-- The value at the front of a text. `depth` bounds the containers still to be opened and
`fuel` the calls, of which every second one takes a character. -/
def readValue (depth : Nat) : (fuel : Nat) → List Char → Option (Value × List Char)
  | 0, _ => none
  | fuel + 1, text =>
    match skipSpace text with
    | 'n' :: rest => (['u', 'l', 'l'].isPrefixOf? rest).map (Value.null, ·)
    | 't' :: rest => (['r', 'u', 'e'].isPrefixOf? rest).map (Value.bool true, ·)
    | 'f' :: rest => (['a', 'l', 's', 'e'].isPrefixOf? rest).map (Value.bool false, ·)
    | '"' :: rest => (readString .plain [] rest).map fun (s, rest) => (.string s, rest)
    | '[' :: rest =>
      match depth with
      | 0 => none
      | depth + 1 =>
        match skipSpace rest with
        | ']' :: rest => some (.array [], rest)
        | rest => readItems depth fuel [] rest
    | '{' :: rest =>
      match depth with
      | 0 => none
      | depth + 1 =>
        match skipSpace rest with
        | '}' :: rest => some (.object [], rest)
        | rest => readMembers depth fuel [] rest
    | rest => (Number.read rest).map fun (n, rest) => (.number n, rest)

/-- The items of an array from one of them on, after those in `seen`, latest first. -/
def readItems (depth : Nat) : (fuel : Nat) → (seen : List Value) → List Char →
    Option (Value × List Char)
  | 0, _, _ => none
  | fuel + 1, seen, text => do
    let (item, rest) ← readValue depth fuel text
    match skipSpace rest with
    | ',' :: rest => readItems depth fuel (item :: seen) rest
    | ']' :: rest => some (.array (item :: seen).reverse, rest)
    | _ => none

/-- The members of an object from one of them on, after those in `seen`, latest first. -/
def readMembers (depth : Nat) : (fuel : Nat) → (seen : List (String × Value)) → List Char →
    Option (Value × List Char)
  | 0, _, _ => none
  | fuel + 1, seen, text =>
    match skipSpace text with
    | '"' :: rest => do
      let (name, rest) ← readString .plain [] rest
      match skipSpace rest with
      | ':' :: rest => do
        let (value, rest) ← readValue depth fuel rest
        let seen := (name, value) :: seen
        match skipSpace rest with
        | ',' :: rest => readMembers depth fuel seen rest
        | '}' :: rest => some (.ofMembers seen.reverse, rest)
        | _ => none
      | _ => none
    | _ => none

end

/-- How deep containers may nest. -/
def greatestDepth : Nat := 127

/-- The value that a text is. -/
def read (text : String) : Option Value := do
  let text := text.toList
  let (value, rest) ← readValue greatestDepth (2 * text.length + 2) text
  if (skipSpace rest).isEmpty then some value else none

end Json

end CypherRoutes
