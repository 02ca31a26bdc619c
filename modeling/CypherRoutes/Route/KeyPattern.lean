/-
# An engine for keys

An engine that compiles the patterns which keys are, and few others: it knows characters,
backslashes, the one group, the end of the text and the borders of words. Each group, from the
first on, takes as much as it can.
-/
import CypherRoutes.Route.Pattern
import CypherRoutes.Text.Word

namespace CypherRoutes

/-! ## Reading -/

/-- A part of a pattern. -/
inductive KeyPart where
  | char (c : Char)
  /-- One or more word characters, which are captured. -/
  | group
  /-- No character, at the end of the text only. -/
  | finish
  /-- No character, where a word begins. -/
  | wordStart
  /-- No character, where a word ends. -/
  | wordEnd
deriving DecidableEq

/-- What a backslash and a character stand for. An angle bracket is a border of a word; all other
characters of ASCII but letters and digits stand for themselves. -/
def escapedPart? (c : Char) : Option KeyPart :=
  if c == '<' then some .wordStart
  else if c == '>' then some .wordEnd
  else if c.toNat < 0x80 && !c.isAlphanum then some (.char c)
  else none

/-- A character that stands for itself without a backslash. -/
def isLiteralChar (c : Char) : Bool :=
  !(['\\', '.', '+', '*', '?', '(', ')', '|', '[', '{', '^', '$'].contains c)

/-- The end of a text in a pattern. -/
def finishChar : Char := '$'

/-- The parts of a pattern; `fuel` bounds their number. -/
def readParts : (fuel : Nat) → List Char → Option (List KeyPart)
  | _, [] => some []
  | 0, _ :: _ => none
  | fuel + 1, c :: rest =>
    match groupText.toList.isPrefixOf? (c :: rest) with
    | some rest => (readParts fuel rest).map (.group :: ·)
    | none =>
      if c == '\\' then
        match rest with
        | d :: rest => do
          let part ← escapedPart? d
          let parts ← readParts fuel rest
          return part :: parts
        | [] => none
      else if c == finishChar then (readParts fuel rest).map (.finish :: ·)
      else if isLiteralChar c then (readParts fuel rest).map (.char c :: ·)
      else none

/-- The parts of a pattern that begins with the beginning of a text. Its last character may belong
to a backslash before it: a key that ends in a lone backslash asks for a dollar sign instead of the
end of the text. -/
def patternParts? (pattern : String) : Option (List KeyPart) :=
  match pattern.toList with
  | '^' :: rest => readParts rest.length rest
  | _ => none

/-! ## Matching -/

/-- The captures of the rest of a pattern on each suffix of a text, the whole text first and the
empty one last; nothing where the rest does not match. -/
abbrev Captures := List (Option (List (List Char)))

/-- What a group takes from each suffix of a text and what the rest then captures, given the
captures of the rest behind the first character of each suffix. A longer run wins. -/
def runs : List Char → Captures → List (Option (List Char × List (List Char)))
  | c :: text, behind :: later =>
    let others := runs text later
    let here :=
      if isWordChar c then
        match others with
        | some (word, more) :: _ => some (c :: word, more)
        | _ => behind.map fun more => ([c], more)
      else none
    here :: others
  | _, _ => [none]

/-- The captures where the characters on both sides permit a border: `permits` is told whether a
word character stands before the place and behind it. `before` tells what stands before the
text. -/
def atBorders (permits : Bool → Bool → Bool) : (before : Bool) → List Char → Captures → Captures
  | before, c :: text, here :: later =>
    (if permits before (isWord c) then here else none) :: atBorders permits (isWord c) text later
  | before, [], here :: _ => [if permits before false then here else none]
  | _, _, [] => []

/-- The captures of a pattern on each suffix of a text. -/
def capturesOfSuffixes : List KeyPart → List Char → Captures
  | [], text => text.map (fun _ => some []) ++ [some []]
  | .finish :: parts, text =>
    text.map (fun _ => none) ++ [(capturesOfSuffixes parts text).getLast?.join]
  | .wordStart :: parts, text =>
    atBorders (fun before behind => !before && behind) false text (capturesOfSuffixes parts text)
  | .wordEnd :: parts, text =>
    atBorders (fun before behind => before && !behind) false text (capturesOfSuffixes parts text)
  | .char c :: parts, text =>
    (text.zip (capturesOfSuffixes parts text).tail).map
      (fun (d, behind) => if c == d then behind else none) ++ [none]
  | .group :: parts, text =>
    (runs text (capturesOfSuffixes parts text).tail).map
      (Option.map fun (word, more) => word :: more)

/-- What the groups of a pattern take from a text that it matches from the beginning on. -/
def captures (parts : List KeyPart) (text : String) : Option (List String) :=
  (capturesOfSuffixes parts text.toList).head?.join.map (List.map String.ofList)

/-! ## The engine -/

/-- The pattern of a list of parts, in which every group has a part in a match. -/
def partsPattern (parts : List KeyPart) : Pattern where
  groups? text := (captures parts text).map (·.map some)

instance keyEngine : PatternEngine where
  compile? pattern := (patternParts? pattern).map partsPattern

end CypherRoutes
