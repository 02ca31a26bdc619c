/-
# The tokens of a text

A text is cut into tokens from left to right. In block style the columns of the lines decide
where collections begin and end. A mapping's key is recognised only at the colon behind it: every
place where a simple key may begin is remembered until the key is complete or can no longer be
one, and the tokens that start it are then put in before it.
-/
import CypherRoutes.Yaml.Token.Text

namespace CypherRoutes

namespace Yaml

/-! ## State -/

/-- A place where a simple key may have begun. -/
structure SimpleKey where
  /-- Whether no other reading is possible, so that a colon has to follow. -/
  required : Bool
  /-- The number of tokens before it. -/
  number : Nat
  index : Nat
  line : Nat
  column : Nat

/-- A text that is being cut into tokens. -/
structure Tokens where
  cursor : Cursor
  /-- The tokens so far, the latest first. -/
  seen : List Token := []
  count : Nat := 0
  /-- The column of the innermost block collection, and those of the outer ones. -/
  indent : Int := -1
  indents : List Int := []
  /-- The simple key of the innermost flow collection or of the block, and those of the outer
  ones. -/
  key : Option SimpleKey := none
  outerKeys : List (Option SimpleKey) := []
  /-- Whether a simple key may begin here. -/
  keyAllowed : Bool := true

namespace Tokens

/-- Whether the place is inside a flow collection. -/
def inFlow (s : Tokens) : Bool := !s.outerKeys.isEmpty

/-- The column of the place. -/
def column (s : Tokens) : Nat := s.cursor.column

/-- One more token, and the place after it. -/
def emit (s : Tokens) (t : Token) (cursor : Cursor) : Tokens :=
  { s with seen := t :: s.seen, count := s.count + 1, cursor }

/-- One more token that takes up no text. -/
def emitHere (s : Tokens) (t : Token) : Tokens := s.emit t s.cursor

/-- A token put in before the one of the given number. -/
def insertAt (s : Tokens) (number : Nat) (t : Token) : Tokens :=
  let later := s.count - number
  { s with seen := s.seen.take later ++ t :: s.seen.drop later, count := s.count + 1 }

/-! ## Simple keys -/

/-- How many octets a simple key may have. -/
def longestKey : Nat := 1024

/-- A simple key that is still possible at a place, on its line and not too long; an error if a
required one is not. -/
def stillPossible (c : Cursor) : Option SimpleKey → Option (Option SimpleKey)
  | none => some none
  | some k =>
    if k.line < c.line || k.index + longestKey < c.index then
      if k.required then none else some none
    else some (some k)

/-- Forgets the simple keys that are no longer possible. -/
def dropStaleKeys (s : Tokens) : Option Tokens := do
  let key ← stillPossible s.cursor s.key
  let outerKeys ← s.outerKeys.mapM (stillPossible s.cursor)
  return { s with key, outerKeys }

/-- Forgets the simple key at hand; an error if it is required. -/
def dropKey (s : Tokens) : Option Tokens :=
  if s.key.any SimpleKey.required then none else some { s with key := none }

/-- Remembers this place as the beginning of a simple key, if one may begin here. In a block it is
required in the column of the block. -/
def saveKey (s : Tokens) : Option Tokens :=
  if s.keyAllowed then do
    let s ← s.dropKey
    let c := s.cursor
    let required := !s.inFlow && s.indent == (c.column : Int)
    return { s with key := some ⟨required, s.count, c.index, c.line, c.column⟩ }
  else some s

/-! ## Indentation -/

/-- Begins a block collection in a column to the right of the block. -/
def rollIndent (s : Tokens) (column number : Nat) (t : Token) : Tokens :=
  if !s.inFlow && s.indent < (column : Int) then
    { s.insertAt number t with indent := column, indents := s.indent :: s.indents }
  else s

/-- The end of the block collections to the right of a column. -/
def unrollIndents (s : Tokens) (column : Int) : (indents : List Int) → Tokens
  | [] => s
  | outer :: rest =>
    if column < s.indent then
      unrollIndents { s.emitHere .blockEnd with indent := outer, indents := rest } column rest
    else s

/-- Ends the block collections to the right of a column. -/
def unrollIndent (s : Tokens) (column : Int) : Tokens :=
  if s.inFlow then s else s.unrollIndents column s.indents

/-! ## Single tokens -/

/-- Passes over blanks, comments and line breaks up to the next token. Tabs count as blanks only
where no simple key may begin, or in a flow collection; a byte order mark may begin a line. -/
def skipToToken (s : Tokens) : (fuel : Nat) → Tokens
  | 0 => s
  | fuel + 1 =>
    let c := s.cursor
    let c := if c.column == 0 && c.atChar '\ufeff' then c.skip else c
    let tabs := s.inFlow || !s.keyAllowed
    let c := (c.dropWhile fun x => x == ' ' || (tabs && x == '\t')).skipComment
    match c.takeBreak with
    | ([], c) => { s with cursor := c }
    | (_, c) => skipToToken { s with cursor := c, keyAllowed := s.keyAllowed || !s.inFlow } fuel

/-- A directive; it ends all block collections. -/
def directive (s : Tokens) : Option Tokens := do
  let s ← (s.unrollIndent (-1)).dropKey
  let (t, c) ← s.cursor.takeDirective
  return { s.emit t c with keyAllowed := false }

/-- The start or the end of a document; it ends all block collections. -/
def documentIndicator (s : Tokens) (t : Token) : Option Tokens := do
  let s ← (s.unrollIndent (-1)).dropKey
  return { s.emit t (s.cursor.advance 3) with keyAllowed := false }

/-- The start of a flow collection. -/
def flowStart (s : Tokens) (t : Token) : Option Tokens := do
  let s ← s.saveKey
  return { s.emit t s.cursor.skip with
    key := none, outerKeys := s.key :: s.outerKeys, keyAllowed := true }

/-- The end of a flow collection. -/
def flowEnd (s : Tokens) (t : Token) : Option Tokens := do
  let s ← s.dropKey
  let s := match s.outerKeys with
    | [] => s
    | key :: rest => { s with key, outerKeys := rest }
  return { s.emit t s.cursor.skip with keyAllowed := false }

/-- A comma of a flow collection. -/
def flowEntry (s : Tokens) : Option Tokens := do
  let s ← s.dropKey
  return { s.emit .flowEntry s.cursor.skip with keyAllowed := true }

/-- The dash of a block sequence's entry. -/
def blockEntry (s : Tokens) : Option Tokens := do
  if !s.inFlow && !s.keyAllowed then none
  let s ← (s.rollIndent s.column s.count .blockSequence).dropKey
  return { s.emit .blockEntry s.cursor.skip with keyAllowed := true }

/-- The question mark before a key. -/
def keyIndicator (s : Tokens) : Option Tokens := do
  if !s.inFlow && !s.keyAllowed then none
  let s ← (s.rollIndent s.column s.count .blockMapping).dropKey
  return { s.emit .key s.cursor.skip with keyAllowed := !s.inFlow }

/-- The colon before a value. After a simple key it starts the key as well, and the mapping. -/
def valueIndicator (s : Tokens) : Option Tokens :=
  match s.key with
  | some k =>
    let s := (s.insertAt k.number .key).rollIndent k.column k.number .blockMapping
    some { s.emit .value s.cursor.skip with key := none, keyAllowed := false }
  | none => do
    if !s.inFlow && !s.keyAllowed then none
    let s := s.rollIndent s.column s.count .blockMapping
    return { s.emit .value s.cursor.skip with keyAllowed := !s.inFlow }

/-- A token with which a simple key may begin. -/
def keyStart (s : Tokens) (take : Cursor → Option (Token × Cursor)) : Option Tokens := do
  let s ← s.saveKey
  let (t, c) ← take s.cursor
  return { s.emit t c with keyAllowed := false }

/-- A block scalar. -/
def blockScalar (s : Tokens) (folded : Bool) : Option Tokens := do
  let s ← s.dropKey
  let (t, c) ← s.cursor.takeBlock s.indent folded
  return { s.emit t c with keyAllowed := true }

/-- A plain scalar. If it ends in a new line, a simple key may begin there. -/
def plainScalar (s : Tokens) : Option Tokens := do
  let s ← s.saveKey
  let (text, broken, c) ←
    s.cursor.takePlain s.inFlow (s.indent + 1) (s.cursor.rest.length + 1) [] {}
  return { s.emit (.scalar (String.ofList text) .plain) c with keyAllowed := broken }

/-- The characters that begin no plain scalar. -/
def indicators : List Char :=
  ['-', '?', ':', ',', '[', ']', '{', '}', '#', '&', '*', '!', '|', '>', '\'', '"', '%', '@', '`']

/-- Whether a plain scalar may begin with `x` before `rest`. -/
def startsPlain (flow : Bool) (x : Char) (rest : List Char) : Bool :=
  !(isGapChar x || indicators.contains x) ||
    (x == '-' && !rest.head?.any isBlankChar) ||
    (!flow && (x == '?' || x == ':') && !atGap rest)

/-- The token that begins with `x`, before `rest`. -/
def tokenAt (s : Tokens) (x : Char) (rest : List Char) : Option Tokens :=
  let flow := s.inFlow
  if s.column == 0 && x == '%' then s.directive
  else if s.cursor.atIndicator '-' then s.documentIndicator .documentStart
  else if s.cursor.atIndicator '.' then s.documentIndicator .documentEnd
  else if x == '[' then s.flowStart .flowSequence
  else if x == '{' then s.flowStart .flowMapping
  else if x == ']' then s.flowEnd .flowSequenceEnd
  else if x == '}' then s.flowEnd .flowMappingEnd
  else if x == ',' then s.flowEntry
  else if x == '-' && atGap rest then s.blockEntry
  else if x == '?' && (flow || atGap rest) then s.keyIndicator
  else if x == ':' && (flow || atGap rest) then s.valueIndicator
  else if x == '*' then
    s.keyStart fun c => c.takeName.map fun (name, c) => (.reference name, c)
  else if x == '&' then
    s.keyStart fun c => c.takeName.map fun (name, c) => (.anchor name, c)
  else if x == '!' then s.keyStart (·.takeTag flow)
  else if x == '|' && !flow then s.blockScalar false
  else if x == '>' && !flow then s.blockScalar true
  else if x == '\'' then s.keyStart (·.takeQuoted false)
  else if x == '"' then s.keyStart (·.takeQuoted true)
  else if startsPlain flow x rest then s.plainScalar
  else none

/-! ## All tokens -/

/-- The end of the text, where every block collection ends; it is the beginning of a new line. -/
def finish (s : Tokens) : Option (List Token) := do
  let s ← (s.unrollIndent (-1)).dropKey
  return s.seen.reverse

/-- All tokens from here on; every one but the last takes up a part of the text, so that `fuel`
may be its length. -/
def run (s : Tokens) : (fuel : Nat) → Option (List Token)
  | 0 => none
  | fuel + 1 => do
    let s ← (s.skipToToken (s.cursor.rest.length + 1)).dropStaleKeys
    let s := s.unrollIndent s.column
    match s.cursor.rest with
    | [] => s.finish
    | x :: rest => do
      let s ← s.tokenAt x rest
      run s fuel

end Tokens

/-- The tokens of a text. -/
def tokens? (text : String) : Option (List Token) :=
  let chars := text.toList
  if chars.all isAllowedChar then Tokens.run { cursor := ⟨chars, 0, 0, 0⟩ } (chars.length + 1)
  else none

end Yaml

end CypherRoutes
