/-
# The text of scalars

How the lines of plain, quoted and block scalars are joined into one text. Between two words the
blanks are kept as they are; a line break becomes a space, or as many line feeds as there are
empty lines after it.
-/
import CypherRoutes.Yaml.Token.Tag

namespace CypherRoutes

namespace Yaml

/-! ## Gaps between words -/

/-- What was read between two words. -/
structure Gap where
  /-- The blanks before the first break. -/
  blanks : List Char := []
  /-- Whether the line was broken. -/
  broken : Bool := false
  /-- The first break. -/
  first : List Char := []
  /-- All further breaks. -/
  further : List Char := []

/-- The text that a gap stands for. -/
def Gap.text (g : Gap) : List Char :=
  if g.broken then
    if g.first == ['\n'] then (if g.further.isEmpty then [' '] else g.further)
    else g.first ++ g.further
  else g.blanks

namespace Cursor

/-- The gap at the cursor, after what was read of it already. On a new line no tab stands before
the column `indent`. -/
def takeGap (indent : Int) : (fuel : Nat) → Gap → Cursor → Option (Gap × Cursor)
  | 0, g, c => some (g, c)
  | fuel + 1, g, c =>
    match c.head? with
    | none => some (g, c)
    | some x =>
      if isBlankChar x then
        if g.broken then
          if x == '\t' && c.column < indent then none else takeGap indent fuel g c.skip
        else takeGap indent fuel { g with blanks := g.blanks ++ [x] } c.skip
      else if isBreakChar x then
        let (line, c) := c.takeBreak
        if g.broken then takeGap indent fuel { g with further := g.further ++ line } c
        else takeGap indent fuel { g with blanks := [], broken := true, first := line } c
      else some (g, c)

/-! ## Plain scalars -/

/-- A word of a plain scalar, up to a gap or to an indicator that ends the scalar: a colon with a
gap behind it, or in a flow collection a comma or a bracket. There a colon before another
indicator is an error. -/
def plainWord (flow : Bool) : List Char → Option (List Char)
  | [] => some []
  | x :: rest =>
    if isGapChar x then some []
    else if flow && x == ':' &&
        [',', '?', '[', ']', '{', '}'].any (fun y => rest.head? == some y) then none
    else if (x == ':' && atGap rest) || (flow && [',', '[', ']', '{', '}'].contains x) then
      some []
    else (plainWord flow rest).map (x :: ·)

/-- The text of a plain scalar at the cursor, whether its last gap breaks a line, and the place
after that gap. In a block the scalar ends before the column `indent`. -/
def takePlain (flow : Bool) (indent : Int) : (fuel : Nat) → (text : List Char) → Gap → Cursor →
    Option (List Char × Bool × Cursor)
  | 0, _, _, _ => none
  | fuel + 1, text, g, c =>
    if c.atDocumentIndicator || c.atChar '#' then some (text, g.broken, c)
    else do
      let word ← plainWord flow c.rest
      let c := c.advance word.length
      let (text, g) := if word.isEmpty then (text, g) else (text ++ g.text ++ word, {})
      if !c.head?.any isGapChar then return (text, g.broken, c)
      let (g, c) ← c.takeGap indent c.rest.length g
      if !flow && c.column < indent then return (text, g.broken, c)
      takePlain flow indent fuel text g c

/-! ## Quoted scalars -/

/-- The character of a one-letter escape in double quotes. -/
def quotedEscape? : Char → Option Char
  | '0' => some '\x00'
  | 'a' => some '\x07'
  | 'b' => some '\x08'
  | 't' => some '\t'
  | '\t' => some '\t'
  | 'n' => some '\n'
  | 'v' => some '\x0b'
  | 'f' => some '\x0c'
  | 'r' => some '\r'
  | 'e' => some '\x1b'
  | ' ' => some ' '
  | '"' => some '"'
  | '/' => some '/'
  | '\\' => some '\\'
  | 'N' => some '\u0085'
  | '_' => some '\u00a0'
  | 'L' => some '\u2028'
  | 'P' => some '\u2029'
  | _ => none

/-- How many hexadecimal digits follow a letter that begins a numeric escape. -/
def escapeLength? : Char → Option Nat
  | 'x' => some 2
  | 'u' => some 4
  | 'U' => some 8
  | _ => none

/-- The character with the number of some hexadecimal digits. -/
def charOfHex? (digits : List Char) : Option Char := do
  let values ← digits.mapM Json.hexDigit?
  let code := values.foldl (fun n d => n * 16 + d) 0
  if code.isValidChar then some (Char.ofNat code) else none

/-- The character of an escape, after its backslash, and the place after it. -/
def takeEscape (c : Cursor) : Option (Char × Cursor) := do
  let x ← c.head?
  match escapeLength? x with
  | none => do
    let y ← quotedEscape? x
    return (y, c.skip)
  | some n => do
    let digits := c.skip.rest.take n
    if digits.length < n then none
    let y ← charOfHex? digits
    return (y, c.advance (n + 1))

/-- A word of a quoted scalar, up to a gap or the closing quote, in reverse before `seen`; and
whether it ends in an escaped line break, after which the line's blanks are passed over. -/
def takeQuotedWord (double : Bool) : (fuel : Nat) → (seen : List Char) → Cursor →
    Option (List Char × Bool × Cursor)
  | 0, _, _ => none
  | fuel + 1, seen, c =>
    match c.rest with
    | [] => some (seen, false, c)
    | x :: rest =>
      if isGapChar x then some (seen, false, c)
      else if double then
        if x == '"' then some (seen, false, c)
        else if x == '\\' then
          if rest.head?.any isBreakChar then some (seen, true, c.skip.skipBreak)
          else do
            let (y, c) ← c.skip.takeEscape
            takeQuotedWord double fuel (y :: seen) c
        else takeQuotedWord double fuel (x :: seen) c.skip
      else if x == '\'' then
        if rest.head? == some '\'' then takeQuotedWord double fuel ('\'' :: seen) (c.advance 2)
        else some (seen, false, c)
      else takeQuotedWord double fuel (x :: seen) c.skip

/-- The rest of a quoted scalar, in reverse before `seen`, and the place after its closing
quote. No line of it may start or end a document. -/
def takeQuotedRest (double : Bool) : (fuel : Nat) → (seen : List Char) → Cursor →
    Option (List Char × Cursor)
  | 0, _, _ => none
  | fuel + 1, seen, c =>
    if c.atDocumentIndicator || c.rest.isEmpty then none
    else do
      let (seen, broken, c) ← takeQuotedWord double (c.rest.length + 1) seen c
      if c.atChar (if double then '"' else '\'') then return (seen, c.skip)
      let (g, c) ← c.takeGap 0 c.rest.length { broken }
      takeQuotedRest double fuel (g.text.reverse ++ seen) c

/-- The quoted scalar at the cursor. -/
def takeQuoted (c : Cursor) (double : Bool) : Option (Token × Cursor) := do
  let (seen, c) ← takeQuotedRest double (c.rest.length + 1) [] c.skip
  return (.scalar (String.ofList seen.reverse) .quoted, c)

/-! ## Block scalars -/

/-- What becomes of the line breaks at the end of a block scalar. -/
inductive Chomping where
  | strip
  | clip
  | keep
deriving DecidableEq

/-- The chomping that a character asks for. -/
def chomping? : Char → Option Chomping
  | '+' => some .keep
  | '-' => some .strip
  | _ => none

/-- The chomping at the cursor, if it is given there. -/
def takeChomping (c : Cursor) : Option Chomping × Cursor :=
  match c.head?.bind chomping? with
  | some k => (some k, c.skip)
  | none => (none, c)

/-- The indentation at the cursor, if it is given there; it is not zero. -/
def takeIncrement (c : Cursor) : Option (Option Nat × Cursor) :=
  match c.head? with
  | some d =>
    if d == '0' then none
    else if d.isDigit then some (some (d.toNat - '0'.toNat), c.skip)
    else some (none, c)
  | none => some (none, c)

/-- The header of a block scalar after its first character: chomping and indentation in either
order, and then at most a comment. -/
def takeBlockHeader (c : Cursor) : Option (Chomping × Option Nat × Cursor) := do
  let (before, c) := c.takeChomping
  let (increment, c) ← c.takeIncrement
  let (chomping, c) :=
    if before.isNone && increment.isSome then c.takeChomping else (before, c)
  let c := c.skipBlanks.skipComment
  if !atLineEnd c.rest then none
  return (chomping.getD .clip, increment, c.skipBreak)

/-- The breaks of empty lines at the cursor and the greatest column met. The spaces of a line
count as indentation up to the column `indent`, or all of them while that is zero; a tab there is
an error. -/
def takeEmptyLines (indent : Nat) : (fuel : Nat) → (breaks : List Char) → (greatest : Nat) →
    Cursor → Option (List Char × Nat × Cursor)
  | 0, breaks, greatest, c => some (breaks, greatest, c)
  | fuel + 1, breaks, greatest, c =>
    let spaces := (c.rest.takeWhile (· == ' ')).length
    let c := c.advance (if indent == 0 then spaces else min spaces (indent - c.column))
    let greatest := max greatest c.column
    if (indent == 0 || c.column < indent) && c.atChar '\t' then none
    else
      match c.takeBreak with
      | ([], c) => some (breaks, greatest, c)
      | (line, c) => takeEmptyLines indent fuel (breaks ++ line) greatest c

/-- The text of a block scalar in the making. -/
structure Block where
  text : List Char := []
  /-- The break of the latest line. -/
  first : List Char := []
  /-- The breaks of the empty lines after it. -/
  further : List Char := []
  /-- Whether the latest line began with a blank. -/
  blank : Bool := false

/-- The text up to a line that follows. In a folded scalar a line feed between two lines that
both begin with no blank becomes a space, or nothing before empty lines. -/
def Block.joined (b : Block) (folded nextBlank : Bool) : List Char :=
  let joint :=
    if folded && b.first == ['\n'] && !b.blank && !nextBlank then
      if b.further.isEmpty then [' '] else []
    else b.first
  b.text ++ joint ++ b.further

/-- The lines of a block scalar from the cursor on, as far as they begin in the column
`indent`. -/
def takeLines (folded : Bool) (indent : Nat) : (fuel : Nat) → Block → Cursor →
    Option (Block × Cursor)
  | 0, b, c => some (b, c)
  | fuel + 1, b, c =>
    if c.column != indent || c.rest.isEmpty then some (b, c)
    else do
      let blank := c.head?.any isBlankChar
      let text := b.joined folded blank
      let (line, c) := c.takeWhile (!isBreakChar ·)
      let (first, c) := c.takeBreak
      let (further, _, c) ← takeEmptyLines indent (c.rest.length + 1) [] 0 c
      takeLines folded indent fuel { text := text ++ line, first, further, blank } c

/-- The text of a finished block scalar. -/
def Block.finish (b : Block) : Chomping → List Char
  | .strip => b.text
  | .clip => b.text ++ b.first
  | .keep => b.text ++ b.first ++ b.further

/-- The block scalar at the cursor, inside a block of the given indentation. Without an
indentation of its own it takes that of its first line, which is deeper than the block. -/
def takeBlock (c : Cursor) (outer : Int) (folded : Bool) : Option (Token × Cursor) := do
  let (chomping, increment, c) ← c.skip.takeBlockHeader
  let given := match increment with
    | some n => (max outer 0).toNat + n
    | none => 0
  let (further, greatest, c) ← takeEmptyLines given (c.rest.length + 1) [] 0 c
  let indent := if given == 0 then max (max greatest (outer + 1).toNat) 1 else given
  let (b, c) ← takeLines folded indent (c.rest.length + 1) { further } c
  return (.scalar (String.ofList (b.finish chomping)) (if folded then .folded else .literal), c)

end Cursor

end Yaml

end CypherRoutes
