/-
# Numbering

Variables are numbered by kind of entity from zero: `n0` and `n1` for nodes, `r0` for
relationships, `p0` for properties and `g0` for paths. A numbering holds the next number of each
kind; every construction takes a numbering and gives back the one after it, so that two
constructions from equal numberings name their entities alike.
-/
import CypherRoutes.Graph.Entity

namespace CypherRoutes

/-- The next number of each kind of entity. -/
structure Numbering where
  nodes : Nat := 0
  relationships : Nat := 0
  properties : Nat := 0
  paths : Nat := 0
deriving DecidableEq

namespace Numbering

/-- The numbering that has named nothing yet. -/
def start : Numbering := {}

/-- The name of the `n`-th entity of a kind. -/
def varName (letter : Char) (n : Nat) : String := String.ofList (letter :: Nat.toDigits 10 n)

/-- A node with the next variable. -/
def node (s : Numbering) (label : Option String) : Node × Numbering :=
  ({ var := varName 'n' s.nodes, label }, { s with nodes := s.nodes + 1 })

/-- A relationship with the next variable, pointing to the right. -/
def relationship (s : Numbering) (kind : Option String) : Relationship × Numbering :=
  ({ var := varName 'r' s.relationships, kind }, { s with relationships := s.relationships + 1 })

/-- A property with the next variable and no owner. -/
def property (s : Numbering) (handle : String) (given : Option Value) : Property × Numbering :=
  ({ var := varName 'p' s.properties, handle, given, asName := none, owner := none },
    { s with properties := s.properties + 1 })

/-- A path with the next variable. -/
def path (s : Numbering) (triples : List Triple) : Path × Numbering :=
  ({ var := varName 'g' s.paths, triples }, { s with paths := s.paths + 1 })

/-- A node with a property for each entry of a record. -/
def nodeWithProps (s : Numbering) (label : String) (record : List (String × Value)) :
    Node × Numbering :=
  record.foldl
    (fun (n, s) (handle, value) =>
      let (p, s) := s.property handle (some value)
      (n.attach p, s))
    (s.node (some label))

end Numbering

end CypherRoutes
