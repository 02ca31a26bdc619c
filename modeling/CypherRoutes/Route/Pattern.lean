/-
# Patterns

A cache compiles each key as a pattern and matches paths with it. Which texts are patterns, and
what they match, is left to an engine (`PatternEngine`). Of the engine it is assumed, where this
matters, that it reads the keys of routes as they are meant (`LawfulPatternEngine`): a backslash
takes the meaning of its own from the character behind it, a group takes a word, and the rest
stands for itself.
-/
import CypherRoutes.Route.Key

namespace CypherRoutes

/-! ## Engines -/

/-- A compiled pattern. -/
structure Pattern where
  /-- What each group takes from a text, if the pattern matches it. A group without a part in the
  match takes nothing. -/
  groups? : String → Option (List (Option String))

/-- What the groups with a part in the match take, in order. -/
def Pattern.captures (pattern : Pattern) (text : String) : Option (List String) :=
  (pattern.groups? text).map (·.filterMap id)

/-- An engine for patterns. -/
class PatternEngine where
  /-- The pattern that a text is, if it is one. -/
  compile? : String → Option Pattern

/-- The pattern that a key is between the signs for the beginning and the end of a text, if it is
one. -/
def keyPattern? [PatternEngine] (key : String) : Option Pattern :=
  PatternEngine.compile? ("^" ++ key ++ "$")

/-! ## The meaning of keys -/

/-- A text is a word as a group of a key takes it. -/
def IsWord (token : String) : Prop := token ≠ "" ∧ ∀ c ∈ token.toList, isWordChar c = true

/-- The segments of a key match tokens, and the groups among them take words. -/
inductive KeyMatches : (segments : List KeySegment) → (tokens words : List String) → Prop where
  | nil : KeyMatches [] [] []
  | literal (text : String) {segments : List KeySegment} {tokens words : List String}
      (h : KeyMatches segments tokens words) :
      KeyMatches (.literal text :: segments) (text :: tokens) words
  | param {word : String} (hword : IsWord word) {segments : List KeySegment}
      {tokens words : List String} (h : KeyMatches segments tokens words) :
      KeyMatches (.param :: segments) (word :: tokens) (word :: words)

/-- An engine that reads the keys of routes as they are meant. It may refuse a key, say because it
is too long. -/
class LawfulPatternEngine [PatternEngine] : Prop where
  /-- The pattern of a key matches the texts in which the segments of the key match what stands
  between slashes, and its groups take the words. -/
  groups?_eq_some_iff {segments : List KeySegment} {pattern : Pattern}
    (h : keyPattern? (keyText segments) = some pattern) (text : String)
    (groups : List (Option String)) :
    pattern.groups? text = some groups ↔
      ∃ tokens words, KeyMatches segments tokens words ∧
        text = String.intercalate "/" tokens ∧ groups = words.map some

end CypherRoutes
