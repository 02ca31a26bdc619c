/-
# Relationships

A relationship has a direction, which decides the order of the two nodes that it relates, and may
have a join hint: the labels of the two nodes that it connects when it stands between fragments
with several nodes.
-/
import CypherRoutes.Graph.Property

namespace CypherRoutes

/-! ## Directions -/

/-- Which way a relationship points. -/
inductive Direction where
  | right
  | left
deriving DecidableEq

namespace Direction

/-- A pair in the order that puts the node where the relationship begins first. -/
def orient {α : Type} : Direction → α → α → α × α
  | right, a, b => (a, b)
  | left, a, b => (b, a)

/-- The opposite direction. -/
def reverse : Direction → Direction
  | right => left
  | left => right

/-- What stands before the dashes of an arrow. -/
def head : Direction → String
  | right => ""
  | left => "<"

/-- What stands behind the dashes of an arrow. -/
def point : Direction → String
  | right => ">"
  | left => ""

/-- A text of dashes with its arrow head. -/
def arrow (d : Direction) (dashes : String) : String := d.head ++ dashes ++ d.point

end Direction

/-- The label of the node on the left and of the node on the right that a relationship joins. -/
structure JoinHint where
  left : String
  right : String
deriving DecidableEq

/-! ## Relationships -/

/-- A relationship of a pattern. -/
structure Relationship where
  var : String
  kind : Option String
  props : List Property := []
  /-- The name under which a statement returns the relationship. -/
  asName : Option String := none
  /-- An anonymous relationship is written without its variable and is never returned. -/
  anonymous : Bool := false
  direction : Direction := .right
  hint : Option JoinHint := none
deriving BEq

namespace Relationship

/-- Whether the relationship has the given type. -/
def hasKind (r : Relationship) (kind : String) : Bool := r.kind == some kind

/-- The property with the given handle. -/
def prop? (r : Relationship) (handle : String) : Option Property := Property.find? handle r.props

/-- The relationship with a property attached; it replaces one of the same handle. -/
def attach (r : Relationship) (p : Property) : Relationship :=
  { r with props := Property.attach r.var r.props p }

/-- The relationship returned under another name. -/
def named (r : Relationship) (name : String) : Relationship := { r with asName := some name }

/-- The relationship pointing the given way. -/
def directed (r : Relationship) (direction : Direction) : Relationship :=
  { r with direction := direction }

/-- The relationship with the given join hint. -/
def hinted (r : Relationship) (hint : Option JoinHint) : Relationship := { r with hint := hint }

/-- The relationship without its variable in the text. -/
def anon (r : Relationship) : Relationship := { r with anonymous := true }

/-- The relationship without its properties. -/
def plain (r : Relationship) : Relationship := { r with props := [] }

/-- The relationship without its type. -/
def varOnly (r : Relationship) : Relationship := { r with kind := none }

/-- The values of the relationship's properties under their variables. -/
def params (r : Relationship) : List (String × Value) := r.props.flatMap Property.params

end Relationship

end CypherRoutes
