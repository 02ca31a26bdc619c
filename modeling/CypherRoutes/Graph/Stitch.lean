/-
# Stitching paths

A path is stitched from a sequence of entities. Ready triples and paths are fragments; between
and beside them, `node, relationship, node` makes a triple, and `relationship, node` continues
from the end of what came before. A fragment has to share an endpoint with the triple before it,
and a triple that is already there is not added again. A relationship between two fragments needs
a join hint that names the labels of its two nodes.
-/
import CypherRoutes.Graph.Numbering

namespace CypherRoutes

/-- Why entities do not form a path. Positions count the entities from one. -/
inductive PathError where
  | invalidArgument (entity : Entity) (position : Nat)
  | noOverlap (position : Nat)
  | ambiguousEnds (position : Nat)
  | joinEndpointsNotFound (position : Nat)
  | ambiguousFromNode (position : Nat)
  | ambiguousToNode (position : Nat)
  | incompletePath

/-- The position of the entity at fault, if there is one. -/
def PathError.position? : PathError → Option Nat
  | invalidArgument _ position => some position
  | noOverlap position => some position
  | ambiguousEnds position => some position
  | joinEndpointsNotFound position => some position
  | ambiguousFromNode position => some position
  | ambiguousToNode position => some position
  | incompletePath => none

/-- Entities that are not yet part of a triple. -/
inductive Pending where
  | nothing
  | node (n : Node)
  | nodeRel (n : Node) (r : Relationship)
  | rel (r : Relationship)

/-- A path in the making. -/
structure Stitch where
  triples : List Triple := []
  /-- The node from which a relationship continues; there is none behind a fragment of several
  triples. -/
  tail : Option Node := none
  pending : Pending := .nothing

namespace Stitch

/-- The triples with those of a fragment that are not there yet. -/
def merge (triples fragment : List Triple) : List Triple :=
  fragment.foldl (fun seen t => if seen.any (·.sameAs t) then seen else seen ++ [t]) triples

/-- The triples followed by a fragment, some triple of which has to touch the last one. -/
def append (triples fragment : List Triple) (position : Nat) : Except PathError (List Triple) :=
  match triples.getLast? with
  | none => .ok (merge triples fragment)
  | some last =>
    if fragment.any fun t => last.sameAs t || last.touches t then .ok (merge triples fragment)
    else .error (.noOverlap position)

/-- The node from which a relationship continues behind a fragment. -/
def fragmentTail : List Triple → Option Node
  | [only] => some only.target
  | _ => none

/-- What is stitched after a fragment follows the triples so far. -/
def addFragment (triples fragment : List Triple) (position : Nat) : Except PathError Stitch := do
  let triples ← append triples fragment position
  return { triples, tail := fragmentTail fragment }

/-- What is stitched after a relationship to a node follows the triples so far. -/
def addRelation (triples : List Triple) (r : Relationship) (n m : Node) (position : Nat) :
    Except PathError Stitch := do
  let triples ← append triples [r.relate n m] position
  return { triples, tail := some m }

/-- What is stitched after a node, a relationship and a fragment: the relationship leads to the
source of the fragment's first triple. -/
def addLeading (triples : List Triple) (n : Node) (r : Relationship) (head : Triple)
    (fragment : List Triple) (position : Nat) : Except PathError Stitch := do
  let triples ← append triples [r.relate n head.source] position
  addFragment triples fragment position

/-- The nodes that a join hint names: one of the last triple before, and one of the fragment. -/
def joinEnds? (hint : JoinHint) (triples fragment : List Triple) : Option (Node × Node) := do
  let last ← triples.getLast?
  let left ← last.nodes.find? (·.hasLabel hint.left)
  let right ← (fragment.flatMap Triple.nodes).find? (·.hasLabel hint.right)
  return (left, right)

/-- What is stitched after a relationship joins a fragment to the triples so far. -/
def join (triples : List Triple) (r : Relationship) (fragment : List Triple) (position : Nat) :
    Except PathError Stitch :=
  match r.hint with
  | none => .error (.ambiguousEnds (position - 1))
  | some hint =>
    match joinEnds? hint triples fragment with
    | none => .error (.joinEndpointsNotFound (position - 1))
    | some (left, right) => do
      let triples ← append triples [r.relate left right] position
      addFragment triples fragment position

/-- What is stitched after one more entity. -/
def take (s : Stitch) (e : Entity) (position : Nat) : Except PathError Stitch :=
  match s.pending, e with
  | .nothing, .node n => .ok { s with pending := .node n }
  | .nothing, .relationship r =>
    if s.triples.isEmpty then .error (.invalidArgument e position)
    else .ok { s with pending := .rel r }
  | .nothing, .triple t => addFragment s.triples [t] position
  | .nothing, .path g => addFragment s.triples g.triples position
  | .node n, .relationship r => .ok { s with pending := .nodeRel n r }
  | .nodeRel n r, .node m => addRelation s.triples r n m position
  | .nodeRel n r, .triple t => addLeading s.triples n r t [t] position
  | .nodeRel n r, .path g =>
    match g.triples with
    | [only] => addLeading s.triples n r only [only] position
    | _ => .error (.ambiguousToNode position)
  | .rel r, .node m =>
    match s.tail with
    | some n => addRelation s.triples r n m position
    | none => .error (.ambiguousFromNode position)
  | .rel r, .triple t => join s.triples r [t] position
  | .rel r, .path g => join s.triples r g.triples position
  | _, _ => .error (.invalidArgument e position)

/-- What is stitched after all entities of a list, the first of which has the given position. -/
def takeAll (s : Stitch) : List Entity → (position : Nat) → Except PathError Stitch
  | [], _ => .ok s
  | e :: rest, position => do
    let s ← s.take e position
    takeAll s rest (position + 1)

/-- The triples of a finished path: at least one, and nothing pending. -/
def finish (s : Stitch) : Except PathError (List Triple) :=
  match s.pending with
  | .nothing => if s.triples.isEmpty then .error .incompletePath else .ok s.triples
  | _ => .error .incompletePath

end Stitch

/-- The triples that a list of entities is stitched into. -/
def stitch (entities : List Entity) : Except PathError (List Triple) := do
  let s ← Stitch.takeAll {} entities 1
  s.finish

/-- The path that a list of entities is stitched into. A list that forms none takes no number. -/
def Path.ofEntities (s : Numbering) (entities : List Entity) :
    Except PathError (Path × Numbering) := do
  let triples ← stitch entities
  return s.path triples

/-- The path that a list of triples is stitched into. -/
def Path.ofTriples (s : Numbering) (triples : List Triple) :
    Except PathError (Path × Numbering) :=
  ofEntities s (triples.map .triple)

end CypherRoutes
