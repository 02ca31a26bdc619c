/-
# Phrases

A phrase is a piece of statement text in which the values of properties are still slots. It
becomes text in one of two modes, which differ in the slots alone: a slot is written as the
literal of its value, or as a placeholder with the name of its variable.
-/
import CypherRoutes.Cypher.Literal

namespace CypherRoutes

/-- Whether values are written as literals or as placeholders. -/
inductive Mode where
  | literal
  | parameterized
deriving DecidableEq

/-- The mode of a statement that uses parameters, or does not. -/
def Mode.ofUseParams (useParams : Bool) : Mode := if useParams then parameterized else literal

/-- The places of an entity in a statement. -/
inductive Place where
  /-- In the patterns of MATCH, CREATE and MERGE. -/
  | pattern
  /-- In the conditions of WHERE and the assignments of SET. -/
  | condition
  /-- Among the items of RETURN and WITH. -/
  | item
deriving DecidableEq

/-! ## Pieces -/

/-- A part of a phrase. -/
inductive Piece where
  /-- Text that is the same in both modes. -/
  | verbatim (text : String)
  /-- The value of a property under the property's variable. -/
  | slot (var : String) (value : Value)

/-- The text of a piece. -/
def Piece.text (mode : Mode) : Piece → String
  | .verbatim text => text
  | .slot var value =>
    match mode with
    | .literal => value.literal
    | .parameterized => "$" ++ var

/-- Pieces one after the other. -/
abbrev Phrase := List Piece

namespace Phrase

/-- The phrase of a fixed text. -/
def ofText (text : String) : Phrase := [.verbatim text]

/-- The text of a phrase. -/
def text (mode : Mode) (phrase : Phrase) : String := String.join (phrase.map (Piece.text mode))

/-- The slots of a phrase, in order. -/
def slots (phrase : Phrase) : List (String × Value) :=
  phrase.filterMap fun
    | .slot var value => some (var, value)
    | .verbatim _ => none

/-- Phrases with a separator between each two. -/
def joined (separator : String) (phrases : List Phrase) : Phrase :=
  List.intercalate (ofText separator) phrases

end Phrase

end CypherRoutes
