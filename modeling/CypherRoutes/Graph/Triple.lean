/-
# Triples

The atomic connected unit of a pattern: a relationship with the node where it begins and the node
where it ends.
-/
import CypherRoutes.Graph.Node
import CypherRoutes.Graph.Relationship

namespace CypherRoutes

/-- A relationship from its source to its target. -/
structure Triple where
  source : Node
  edge : Relationship
  target : Node
deriving BEq

/-- The triple of a relationship and two nodes, read in the relationship's direction. -/
def Relationship.relate (r : Relationship) (n m : Node) : Triple :=
  let (source, target) := r.direction.orient n m
  ⟨source, r, target⟩

namespace Triple

/-- The two nodes, the source first. -/
def nodes (t : Triple) : List Node := [t.source, t.target]

/-- Whether two triples are copies of one: the same edge between the same endpoints. -/
def sameAs (s t : Triple) : Bool :=
  s.edge.var == t.edge.var && s.source.sameEndpoint t.source && s.target.sameEndpoint t.target

/-- Whether two triples have an endpoint in common. -/
def touches (s t : Triple) : Bool := s.nodes.any fun n => t.nodes.any fun m => n.sameEndpoint m

/-- The triple with its nodes and its edge changed. -/
def map (node : Node → Node) (edge : Relationship → Relationship) (t : Triple) : Triple :=
  ⟨node t.source, edge t.edge, node t.target⟩

/-- The triple with a property attached to every copy of the node `var`. -/
def attachToNode (var : String) (p : Property) (t : Triple) : Triple :=
  t.map (fun n => if n.var == var then n.attach p else n) id

/-- The triple with a property attached to its edge, if that is `var`. -/
def attachToEdge (var : String) (p : Property) (t : Triple) : Triple :=
  t.map id fun r => if r.var == var then r.attach p else r

/-- The values of all properties under their variables. -/
def params (t : Triple) : List (String × Value) :=
  t.source.params ++ t.edge.params ++ t.target.params

end Triple

end CypherRoutes
