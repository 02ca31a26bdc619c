/-
# Entities

Everything that a statement can be about: nodes, relationships, properties, triples and paths;
with the changes that apply to all of them.
-/
import CypherRoutes.Graph.Path

namespace CypherRoutes

/-- A node, a relationship, a property, a triple or a path. -/
inductive Entity where
  | node (n : Node)
  | relationship (r : Relationship)
  | property (p : Property)
  | triple (t : Triple)
  | path (g : Path)
deriving BEq

namespace Entity

/-! ## Members -/

/-- The nodes in the entity. -/
def nodes : Entity → List Node
  | node n => [n]
  | triple t => t.nodes
  | path g => g.nodes
  | relationship _ => []
  | property _ => []

/-- The relationships in the entity. -/
def edges : Entity → List Relationship
  | relationship r => [r]
  | triple t => [t.edge]
  | path g => g.edges
  | node _ => []
  | property _ => []

/-- The values of all properties in the entity under their variables. -/
def params : Entity → List (String × Value)
  | node n => n.params
  | relationship r => r.params
  | property p => p.params
  | triple t => t.params
  | path g => g.params

/-! ## Attaching properties to members -/

/-- The entity with a property attached to every copy of the node `var`. -/
def attachToNode (var : String) (p : Property) : Entity → Entity
  | node n => node (if n.var == var then n.attach p else n)
  | triple t => triple (t.attachToNode var p)
  | path g => path (g.map (·.attachToNode var p))
  | e => e

/-- The entity with a property attached to every copy of the relationship `var`. -/
def attachToEdge (var : String) (p : Property) : Entity → Entity
  | relationship r => relationship (if r.var == var then r.attach p else r)
  | triple t => triple (t.attachToEdge var p)
  | path g => path (g.map (·.attachToEdge var p))
  | e => e

/-- The entity with a property attached to its first node of the given label; nothing if it has
no such node. -/
def addPropToNode (e : Entity) (label : String) (p : Property) : Option Entity :=
  (e.nodes.find? (·.hasLabel label)).map fun n => e.attachToNode n.var p

/-- The entity with a property attached to its first relationship of the given type; nothing if
it has no such relationship. -/
def addPropToEdge (e : Entity) (kind : String) (p : Property) : Option Entity :=
  (e.edges.find? (·.hasKind kind)).map fun r => e.attachToEdge r.var p

/-! ## Changed copies -/

/-- The entity returned under another name. A triple or a path has no name of its own and stays
as it is. -/
def named (name : String) : Entity → Entity
  | node n => node (n.named name)
  | relationship r => relationship (r.named name)
  | property p => property (p.named name)
  | e => e

/-- The entity without properties, or without the value of a property. -/
def plain : Entity → Entity
  | node n => node n.plain
  | relationship r => relationship r.plain
  | property p => property p.plain
  | triple t => triple (t.map .plain .plain)
  | path g => path (g.map (·.map .plain .plain))

/-- The node or relationship without its variable in the text. -/
def anon : Entity → Entity
  | node n => node n.anon
  | relationship r => relationship r.anon
  | e => e

/-- The entity without its label or type; inside a triple or a path only the nodes lose theirs. -/
def varOnly : Entity → Entity
  | node n => node n.varOnly
  | relationship r => relationship r.varOnly
  | triple t => triple (t.map .varOnly id)
  | path g => path (g.map (·.map .varOnly id))
  | e => e

/-- The entity without properties and without label or type. -/
def plainVar (e : Entity) : Entity := e.varOnly.plain

end Entity

end CypherRoutes
