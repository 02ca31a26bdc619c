/-
# Assignments of variables

The text of a file that sets variables, one assignment `name=value` a line. Values may be quoted,
hold escapes and refer to other variables; a value in quotes may go on over several lines. The
first mistake ends the reading, and what was set before it stays.
-/
import CypherRoutes.Environment
import CypherRoutes.Text.Alphanumeric
import CypherRoutes.Text.Blank

namespace CypherRoutes

namespace Assignments

/-! ## Lines -/

/-- The octets of a text cut behind every line feed. -/
def cutLines (line : List UInt8) : List UInt8 → List (List UInt8)
  | [] => if line.isEmpty then [] else [line.reverse]
  | b :: rest =>
    if b == 10 then (b :: line).reverse :: cutLines [] rest else cutLines (b :: line) rest

/-- The octets without the byte order mark that they may begin with. -/
def withoutMark : List UInt8 → List UInt8
  | 0xef :: 0xbb :: 0xbf :: rest => rest
  | octets => octets

/-- The lines of a file, up to the first one that is no well-formed text. -/
def linesOf (octets : ByteArray) : List (List Char) :=
  let lines := (cutLines [] (withoutMark octets.toList)).map fun line =>
    (String.fromUTF8? ⟨line.toArray⟩).map String.toList
  (lines.takeWhile Option.isSome).filterMap id

/-- Where a line stands between two characters, as far as it decides where an assignment ends. -/
inductive LineState where
  | complete
  | escape
  | single
  | singleEscape
  | double
  | doubleEscape
  /-- After a blank, where a comment may begin. -/
  | blank
deriving DecidableEq

namespace LineState

/-- The state after a character outside of quotes. -/
def bare (c : Char) : LineState :=
  if c == '\\' then escape
  else if c == '"' then double
  else if c == '\'' then single
  else complete

/-- The state after one more character. -/
def next (c : Char) : LineState → LineState
  | complete => if isBlank c && c != '\n' && c != '\r' then blank else bare c
  | blank => bare c
  | escape => complete
  | double => if c == '\\' then doubleEscape else if c == '"' then complete else double
  | doubleEscape => double
  | single => if c == '\\' then singleEscape else if c == '\'' then complete else single
  | singleEscape => single

/-- The state at the end of a line, or else the part of it before a comment. -/
def scan (state : LineState) (seen : List Char) : List Char → LineState ⊕ List Char
  | [] => .inl state
  | c :: rest =>
    if state = blank && c == '#' then .inr seen.reverse else scan (state.next c) (c :: seen) rest

end LineState

/-- A line without its line break. -/
def withoutBreak (line : List Char) : List Char :=
  match line.reverse with
  | '\n' :: '\r' :: rest => rest.reverse
  | '\n' :: rest => rest.reverse
  | _ => line

/-- The lines joined to assignments: a line that leaves quotes open, or ends in a blank or an
escape, goes on in the next. An unfinished assignment at the end of the file is dropped. -/
def joinLines (state : LineState) (seen : List Char) : List (List Char) → List (List Char)
  | [] => []
  | line :: rest =>
    let all := seen ++ line
    if (trimStart all).head? == some '#' then joinLines .complete [] rest
    else match state.scan [] line with
      | .inr kept => (seen ++ kept) :: joinLines .complete [] rest
      | .inl .complete => withoutBreak all :: joinLines .complete [] rest
      | .inl state => joinLines state all rest

/-! ## Values -/

/-- Where a value stands between two characters. The flag of an escape or a reference tells
whether it is inside double quotes. -/
inductive ValueState where
  | bare
  | single
  | double
  | escape (quoted : Bool)
  /-- In the name of a reference, the name so far being held in reverse. -/
  | name (quoted : Bool) (name : List Char)
  /-- In a name between braces. -/
  | braced (quoted : Bool) (name : List Char)
  /-- After a blank, where nothing but a comment may follow. -/
  | ended

/-- The state inside or outside of double quotes. -/
def ValueState.within (quoted : Bool) : ValueState := if quoted then double else bare

/-- The characters that may stand behind a backslash, and what they stand for. -/
def escaped? (c : Char) : Option Char :=
  if ['\\', '\'', '"', '$', ' '].contains c then some c
  else if c == 'n' then some '\n'
  else none

/-- The value of a reference: that of the environment, or else of an earlier assignment; nothing
for an unknown name. -/
def referred (e : Environment) (earlier : List (String × String)) (name : List Char) :
    List Char :=
  let name := String.ofList name.reverse
  (((e.get? name).or (earlier.lookup name)).getD "").toList

/-- The value that a text stands for, after the characters in `out`, the latest first. -/
def readValue (e : Environment) (earlier : List (String × String)) :
    ValueState → (out : List Char) → List Char → Option (List Char)
  | .bare, out, [] => some out.reverse
  | .ended, out, [] => some out.reverse
  | .escape false, out, [] => some out.reverse
  | .name false name, out, [] => some ((referred e earlier name).reverse ++ out).reverse
  | _, _, [] => none
  | .ended, out, c :: rest =>
    if c == ' ' || c == '\t' then readValue e earlier .ended out rest
    else if c == '#' then some out.reverse
    else none
  | .escape quoted, out, c :: rest =>
    match escaped? c with
    | some x => readValue e earlier (.within quoted) (x :: out) rest
    | none => none
  | .single, out, c :: rest =>
    if c == '\'' then readValue e earlier .bare out rest
    else readValue e earlier .single (c :: out) rest
  | .name quoted name, out, c :: rest =>
    if isAlphanumeric c then readValue e earlier (.name quoted (c :: name)) out rest
    else if c == '{' && name.isEmpty then readValue e earlier (.braced quoted []) out rest
    else
      let out := (referred e earlier name).reverse ++ out
      if c == '$' then readValue e earlier (.name quoted []) out rest
      else readValue e earlier (.within quoted) (c :: out) rest
  | .braced quoted name, out, c :: rest =>
    if c == '}' then
      readValue e earlier (.within quoted) ((referred e earlier name).reverse ++ out) rest
    else readValue e earlier (.braced quoted (c :: name)) out rest
  | .double, out, c :: rest =>
    if c == '$' then readValue e earlier (.name true []) out rest
    else if c == '"' then readValue e earlier .bare out rest
    else if c == '\\' then readValue e earlier (.escape true) out rest
    else readValue e earlier .double (c :: out) rest
  | .bare, out, c :: rest =>
    if c == '$' then readValue e earlier (.name false []) out rest
    else if c == '\'' then readValue e earlier .single out rest
    else if c == '"' then readValue e earlier .double out rest
    else if c == '\\' then readValue e earlier (.escape false) out rest
    else if c == ' ' || c == '\t' then readValue e earlier .ended out rest
    else readValue e earlier .bare (c :: out) rest

/-! ## Assignments -/

/-- A variable's name at the front of a text, and what follows it and the blanks after it. -/
def readName (text : List Char) : Option (List Char × List Char) :=
  match text with
  | c :: _ =>
    if c.isAlpha || c == '_' then
      let (name, rest) := text.span fun c => c.isAlphanum || c == '_' || c == '.'
      some (name, trimStart rest)
    else none
  | [] => none

/-- What follows an equals sign. -/
def afterEquals : List Char → Option (List Char)
  | '=' :: rest => some (trimStart rest)
  | _ => none

/-- The name of an assignment and the text of its value. The word `export` may stand before
them. -/
def readTarget (text : List Char) : Option (List Char × List Char) := do
  let (name, rest) ← readName text
  match afterEquals rest with
  | some value => return (name, value)
  | none =>
    if name != "export".toList then none
    let (name, rest) ← readName rest
    let value ← afterEquals rest
    return (name, value)

/-- What a line holds: nothing at all, or a name with its value; a mistake is no result. A value
that is left out is empty. -/
def readLine (e : Environment) (earlier : List (String × String)) (line : List Char) :
    Option (Option (String × Option String)) :=
  let text := trimStart (trimEnd line)
  if text.isEmpty || text.head? == some '#' then some none
  else do
    let (name, value) ← readTarget text
    if value.isEmpty || value.head? == some '#' then return some (String.ofList name, none)
    let value ← readValue e earlier .bare [] value
    return some (String.ofList name, some (String.ofList value))

/-- A value that no variable can have, since it holds a null character. -/
structure NullValue where
  name : String
deriving DecidableEq

/-- The environment after a list of assignments. A variable that is set already stays as it is,
but later values refer to the latest assignment of a name only if the environment has none. -/
def run (e : Environment) (earlier : List (String × String)) :
    List (List Char) → Except NullValue Environment
  | [] => .ok e
  | line :: rest =>
    match readLine e earlier line with
    | none => .ok e
    | some none => run e earlier rest
    | some (some (name, value)) =>
      let text := value.getD ""
      let earlier := (name, text) :: earlier
      if (e.get? name).isNone && text.toList.contains '\x00' then .error ⟨name⟩
      else run (e.setDefault name text) earlier rest

end Assignments

/-- The environment after the assignments of a file. -/
def Environment.assign (e : Environment) (octets : ByteArray) :
    Except Assignments.NullValue Environment :=
  Assignments.run e [] (Assignments.joinLines .complete [] (Assignments.linesOf octets))

end CypherRoutes
