/-
# Paths

A path is a list of triples that form connected fragments. Its nodes and edges are listed once
each, by variable, in order of first appearance.
-/
import CypherRoutes.Graph.Triple

namespace CypherRoutes

/-- A path with a variable of its own. -/
structure Path where
  var : String
  triples : List Triple
deriving BEq

/-- The items whose variable is not in `seen`, each variable once, in order. -/
def distinctBy {α : Type} (var : α → String) : (seen : List String) → List α → List α
  | _, [] => []
  | seen, a :: rest =>
    if seen.contains (var a) then distinctBy var seen rest
    else a :: distinctBy var (var a :: seen) rest

namespace Path

/-- The nodes, the first copy of each. -/
def nodes (g : Path) : List Node := distinctBy Node.var [] (g.triples.flatMap Triple.nodes)

/-- The edges, the first copy of each. -/
def edges (g : Path) : List Relationship :=
  distinctBy Relationship.var [] (g.triples.map Triple.edge)

/-- The path with every triple changed. -/
def map (f : Triple → Triple) (g : Path) : Path := { g with triples := g.triples.map f }

/-- The values of all triples' properties, copies of shared nodes included. -/
def params (g : Path) : List (String × Value) := g.triples.flatMap Triple.params

end Path

end CypherRoutes
