/-
# Entities as text

How every entity is written in each place of a statement. A pattern is one phrase; conditions are
one phrase for each property with a value; the items of a composite are those of its members.
-/
import CypherRoutes.Cypher.Phrase
import CypherRoutes.Graph.Stitch
import CypherRoutes.Graph.Walk

namespace CypherRoutes

/-- An item under the name it is returned by. -/
def itemText (item : String) : (asName : Option String) → String
  | some name => item ++ " as " ++ name
  | none => item

/-! ## Properties -/

namespace Property

/-- `handle:value`; nothing without a value. -/
def pattern? (p : Property) : Option Phrase :=
  p.value?.map fun value => [.verbatim (p.handle ++ ":"), .slot p.var value]

/-- `owner.handle op value`; nothing without an owner or a value. -/
def assignment? (op : String) (p : Property) : Option Phrase := do
  let owner ← p.owner
  let value ← p.value?
  return [.verbatim (owner ++ "." ++ p.handle ++ " " ++ op ++ " "), .slot p.var value]

/-- `owner.handle = value`; nothing without an owner or a value. -/
def condition? (p : Property) : Option Phrase := p.assignment? "="

/-- `owner.handle` under its name; nothing without an owner. -/
def item? (p : Property) : Option String :=
  p.owner.map fun owner => itemText (owner ++ "." ++ p.handle) p.asName

/-- The map of a list of properties with a blank before it; nothing if none has a value. -/
def mapPattern (props : List Property) : Phrase :=
  match props.filterMap pattern? with
  | [] => []
  | entries => .verbatim " \x7b" :: (Phrase.joined "," entries ++ [.verbatim "\x7d"])

end Property

/-! ## Nodes -/

/-- What is written of a variable and of a label or type. -/
def headText (anonymous : Bool) (var : String) (label : Option String) : String :=
  (if anonymous then "" else var) ++
    match label with
    | some label => ":" ++ label
    | none => ""

namespace Node

/-- `(var:label map)`. -/
def pattern (n : Node) : Phrase :=
  .verbatim ("(" ++ headText n.anonymous n.var n.label) ::
    (Property.mapPattern n.props ++ [.verbatim ")"])

/-- The condition of each property. -/
def conditions (n : Node) : List Phrase := n.props.filterMap Property.condition?

/-- The variable under its name; nothing for an anonymous node. -/
def item? (n : Node) : Option String :=
  if n.anonymous then none else some (itemText n.var n.asName)

end Node

/-! ## Relationships -/

namespace Relationship

/-- `-[var:type map]-`, and `--` when there is nothing to write between the brackets. -/
def pattern (r : Relationship) : Phrase :=
  let map := Property.mapPattern r.props
  if r.anonymous && r.kind.isNone && map.isEmpty then [.verbatim "--"]
  else .verbatim ("-[" ++ headText r.anonymous r.var r.kind) :: (map ++ [.verbatim "]-"])

/-- The pattern with an arrow head. -/
def arrow (r : Relationship) (d : Direction) : Phrase :=
  .verbatim d.head :: (r.pattern ++ [.verbatim d.point])

/-- The condition of each property. -/
def conditions (r : Relationship) : List Phrase := r.props.filterMap Property.condition?

/-- The variable under its name; nothing for an anonymous relationship. -/
def item? (r : Relationship) : Option String :=
  if r.anonymous then none else some (itemText r.var r.asName)

end Relationship

/-! ## Triples and paths -/

/-- `(source)-[edge]->(target)`. -/
def Triple.pattern (t : Triple) : Phrase :=
  t.source.pattern ++ t.edge.arrow .right ++ t.target.pattern

/-- The items of the source, the edge and the target. -/
def Triple.items (t : Triple) : List String :=
  [t.source.item?, t.edge.item?, t.target.item?].filterMap id

/-- An arrow and the node behind it. -/
def Hop.pattern (hop : Hop) : Phrase := hop.edge.arrow hop.direction ++ hop.node.pattern

/-- The nodes and arrows of a walk in order. -/
def Walk.pattern (w : Walk) : Phrase := w.first.pattern ++ w.hops.flatMap Hop.pattern

/-- The walks of a path, separated by commas. -/
def Path.pattern (g : Path) : Phrase := Phrase.joined ", " (g.walks.map Walk.pattern)

/-- The items of the nodes. -/
def Path.items (g : Path) : List String := g.nodes.filterMap Node.item?

/-! ## Entities -/

namespace Entity

/-- What is written as a pattern; nothing for a property without a value. -/
def patterns : Entity → List Phrase
  | node n => [n.pattern]
  | relationship r => [r.pattern]
  | property p => p.pattern?.toList
  | triple t => [t.pattern]
  | path g => [g.pattern]

/-- What is written as conditions. Triples and paths stand as patterns. -/
def conditions : Entity → List Phrase
  | node n => n.conditions
  | relationship r => r.conditions
  | property p => p.condition?.toList
  | triple t => [t.pattern]
  | path g => [g.pattern]

/-- What is written as returned items. -/
def items : Entity → List String
  | node n => n.item?.toList
  | relationship r => r.item?.toList
  | property p => p.item?.toList
  | triple t => t.items
  | path g => g.items

/-- The phrases of an entity in a place. -/
def phrases (e : Entity) : Place → List Phrase
  | .pattern => e.patterns
  | .condition => e.conditions
  | .item => e.items.map Phrase.ofText

/-- The word for the kind of entity. -/
def kindName : Entity → String
  | node _ => "Node"
  | relationship _ => "Relationship"
  | property _ => "Property"
  | triple _ => "Triple"
  | path _ => "Path"

/-- What stands for an entity in messages: its pattern with literal values, and for a property its
handle. -/
def summary (e : Entity) : String :=
  match e with
  | property p => p.handle
  | e => String.intercalate ", " (e.patterns.map (Phrase.text .literal))

/-- The kind of an entity with its summary. -/
def display (e : Entity) : String := e.kindName ++ "(" ++ e.summary ++ ")"

end Entity

/-! ## Failures of a path -/

/-- The sentence that tells why entities do not form a path. -/
def PathError.message : PathError → String
  | invalidArgument entity position =>
    "Entity '" ++ entity.display ++ "' is not valid at arg position " ++ toString position ++ "."
  | noOverlap position =>
    "Adjacent triples/paths do not overlap, at arg position " ++ toString position ++ "."
  | ambiguousEnds position =>
    "Ends of relationship are ambiguous; relationship at arg position " ++ toString position ++
      " needs join hints"
  | joinEndpointsNotFound position =>
    "Can't find endpoint nodes specified in join hints for relationship at arg position " ++
      toString position
  | ambiguousFromNode position =>
    "Can't create end triple, from-node is ambiguous, at arg position " ++ toString position ++ "."
  | ambiguousToNode position =>
    "Can't create start triple, to-node is ambiguous, at arg position " ++ toString position ++ "."
  | incompletePath => "Args do not define a complete Path."

end CypherRoutes
