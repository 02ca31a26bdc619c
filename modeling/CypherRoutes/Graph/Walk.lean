/-
# Walks

The triples of a path are written as walks, alternating sequences of nodes and arrows. A triple
that touches an end of the walk at hand lengthens it there; any other begins a new walk.
-/
import CypherRoutes.Graph.Path

namespace CypherRoutes

/-- A step of a walk: an edge, which way its arrow points, and the node behind it. -/
structure Hop where
  edge : Relationship
  direction : Direction
  node : Node

/-- A walk from its first node over its hops. -/
structure Walk where
  first : Node
  hops : List Hop

namespace Walk

/-- The node at the end of a list of hops that starts at `n`. -/
def lastAfter (n : Node) : List Hop → Node
  | [] => n
  | hop :: rest => lastAfter hop.node rest

/-- The last node. -/
def last (w : Walk) : Node := lastAfter w.first w.hops

/-- The walk of one triple, from left to right. -/
def ofTriple (t : Triple) : Walk := ⟨t.source, [⟨t.edge, .right, t.target⟩]⟩

/-- The walk with a node and an arrow before its first node. -/
def prepend (w : Walk) (node : Node) (edge : Relationship) (direction : Direction) : Walk :=
  ⟨node, ⟨edge, direction, w.first⟩ :: w.hops⟩

/-- The walk with an arrow and a node behind its last node. -/
def append (w : Walk) (edge : Relationship) (direction : Direction) (node : Node) : Walk :=
  ⟨w.first, w.hops ++ [⟨edge, direction, node⟩]⟩

/-- The walk lengthened by a triple that touches one of its ends. The source is tried at the
front, then at the back, and then the target in the same order. -/
def extend? (w : Walk) (t : Triple) : Option Walk :=
  if t.source.sameEndpoint w.first then some (w.prepend t.target t.edge .left)
  else if t.source.sameEndpoint w.last then some (w.append t.edge .right t.target)
  else if t.target.sameEndpoint w.first then some (w.prepend t.source t.edge .right)
  else if t.target.sameEndpoint w.last then some (w.append t.edge .left t.source)
  else none

/-- The walks of a list of triples, of which the walk `w` is the one at hand. -/
def gather (w : Walk) : List Triple → List Walk
  | [] => [w]
  | t :: rest =>
    match w.extend? t with
    | some w => gather w rest
    | none => w :: gather (ofTriple t) rest

end Walk

/-- The walks of a path. -/
def Path.walks (g : Path) : List Walk :=
  match g.triples with
  | [] => []
  | t :: rest => Walk.gather (.ofTriple t) rest

end CypherRoutes
