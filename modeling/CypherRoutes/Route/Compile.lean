/-
# Compiling requests

A request is a list of tokens. It is followed down a route table, each token adding a property, a
node or a relationship to the entity built so far; the step of the last token says what is
returned. Every compile numbers its entities anew, so equal routes give equal text.
-/
import CypherRoutes.Cypher.Statement
import CypherRoutes.Route.Fault
import CypherRoutes.Route.Key
import CypherRoutes.Route.Table

namespace CypherRoutes

/-! ## Results -/

/-- A parameter of a route: its name, the property variable that carries its value, and which
group of the key captures it. -/
structure Binding where
  name : String
  var : String
  capture : Nat
deriving DecidableEq

/-- A compiled request. -/
structure Compiled where
  statement : Statement
  key : String
  /-- In the order of the route. -/
  bindings : List Binding
  pathId : Option String

/-- What has been built on the way down to some level. -/
structure Trail where
  entity : Option Entity := none
  key : List KeySegment := []
  bindings : List Binding := []
  /-- The variable of the node that the latest `_node: _var` built. -/
  unlabelled : Option String := none
  numbering : Numbering := .start

/-! ## Building -/

namespace PropSpec

/-- The property of a step: its value is the table's, or else the given one. -/
def build (s : Numbering) (given : Option Value) : PropSpec → Property × Numbering
  | ofToken handle => s.property handle given
  | fixed handle value => s.property handle (some value)

end PropSpec

/-- The relationship of a step. -/
def EdgeSpec.build (s : Numbering) (spec : EdgeSpec) : Relationship × Numbering :=
  let (r, s) := s.relationship (some spec.kind)
  ((r.directed spec.direction).hinted spec.hint, s)

/-- Two entities linked by a relationship: nodes make a triple and anything else a path. -/
def link (s : Numbering) (incoming : Entity) (r : Relationship) (added : Entity)
    (token : String) : Except RequestFault (Entity × Numbering) :=
  match incoming, added with
  | .node n, .node m => .ok (.triple (r.relate n m), s)
  | _, _ =>
    match Path.ofEntities s [incoming, .relationship r, added] with
    | .ok (g, s) => .ok (.path g, s)
    | .error error => .error (.unconnectable error token)

namespace NodeSpec

/-- A labelled node with the property of a block; such a property has a value only if the table
fixes one. -/
def buildNode (s : Numbering) (name : String) (prop : Option PropSpec) : Node × Numbering :=
  let (n, s) := s.node (some name)
  match prop with
  | none => (n, s)
  | some spec =>
    let (p, s) := spec.build s none
    (n.attach p, s)

/-- The entity of a step. In a linked block the node is numbered first, then the target and last
the edge between them. -/
def build (s : Numbering) (token : String) : NodeSpec → Except RequestFault (Entity × Numbering)
  | label name =>
    let (n, s) := s.node (some name)
    .ok (.node n, s)
  | unlabelled =>
    let (n, s) := s.node none
    .ok (.node n, s)
  | block name prop =>
    let (n, s) := buildNode s name prop
    .ok (.node n, s)
  | linked name prop edge target => do
    let (n, s) := buildNode s name prop
    let (m, s) ← build s token target
    let (r, s) := edge.build s
    link s (.node n) r m token

/-- Whether the step builds an unlabelled node. -/
def isUnlabelled : NodeSpec → Bool
  | unlabelled => true
  | _ => false

end NodeSpec

/-! ## Following a token -/

namespace Trail

/-- The entity with a property attached. A node or a relationship takes it itself; in a composite
the step has to select the member that does. -/
def attach (entity : Option Entity) (p : Property) (step : Step) (token : String) :
    Except RequestFault Entity :=
  match entity with
  | none => .error (.noEntityForProp token)
  | some (.node n) => .ok (.node (n.attach p))
  | some (.relationship r) => .ok (.relationship (r.attach p))
  | some composite =>
    match step.nodeSelector, step.edgeSelector with
    | none, none => .error (.ambiguousProp token)
    | label, kind => do
      let composite ← match label with
        | none => .ok composite
        | some label =>
          match composite.addPropToNode label p with
          | some changed => .ok changed
          | none => .error (.nodeNotPresent token)
      match kind with
      | none => .ok composite
      | some kind =>
        match composite.addPropToEdge kind p with
        | some changed => .ok changed
        | none => .error (.edgeNotPresent token)

/-- The property that a token contributes. A parameter without a `_prop` names the property
itself. -/
def propOf (s : Numbering) (token : String) (step : Step) (param : Option String) :
    Option Property × Numbering :=
  match step.prop, param with
  | some spec, _ =>
    let (p, s) := spec.build s (some (.string token))
    (some p, s)
  | none, some name =>
    let (p, s) := s.property name (some (.string token))
    (some p, s)
  | none, none => (none, s)

/-- The segment of a token. -/
def segmentOf (token : String) (param : Option String) : KeySegment :=
  match param with
  | some _ => .param
  | none => .literal token

/-- The binding of a parameter to its property, unless the table fixes the property's value. -/
def bindingOf (key : List KeySegment) (step : Step) (param : Option String)
    (p : Option Property) : List Binding :=
  match param, p with
  | some name, some p =>
    if step.prop.any PropSpec.isFixed then []
    else [{ name, var := p.var, capture := key.count .param }]
  | _, _ => []

/-- The entity after a step, from the one before it and the one that the step adds. -/
def connect (s : Numbering) (entity added : Option Entity) (step : Step) (token : String) :
    Except RequestFault (Option Entity × Numbering) :=
  match step.edge with
  | none => .ok (added.or entity, s)
  | some spec =>
    match entity, added with
    | none, _ => .error (.noEntityForEdge token)
    | some _, none => .error (.noNewEntity token)
    | some incoming, some added => do
      let (r, s) := spec.build s
      let (e, s) ← link s incoming r added token
      return (some e, s)

/-- The trail after one more token, which the level resolved to a step. -/
def follow (trail : Trail) (token : String) (step : Step) (param : Option String) :
    Except RequestFault Trail := do
  let (p, s) := propOf trail.numbering token step param
  let entity ← match p with
    | none => .ok trail.entity
    | some p => (attach trail.entity p step token).map some
  let (added, s) ← match step.node with
    | none => .ok (none, s)
    | some spec => do
      let (e, s) ← spec.build s token
      .ok (some e, s)
  let unlabelled :=
    if step.node.any NodeSpec.isUnlabelled then
      (added.bind fun e => e.nodes.head?).map Node.var
    else trail.unlabelled
  let (entity, s) ← connect s entity added step token
  return {
    entity
    key := trail.key ++ [segmentOf token param]
    bindings := trail.bindings ++ bindingOf trail.key step param p
    unlabelled
    numbering := s }

/-- The trail after a list of tokens, with the step and the text of the last one. -/
def followAll (trail : Trail) (level : Level) (token : String) :
    (rest : List String) → Except RequestFault (Trail × Step × String)
  | [] =>
    match level.resolve token with
    | none => .error (.notOnPath token)
    | some (step, param) => do
      let trail ← trail.follow token step param
      return (trail, step, token)
  | next :: rest =>
    match level.resolve token with
    | none => .error (.notOnPath token)
    | some (step, param) => do
      let trail ← trail.follow token step param
      followAll trail step.next next rest

end Trail

/-! ## Returning -/

namespace ReturnSpec

/-- The whole entity, or every node of a composite. -/
def allOf (entity : Entity) : List Term :=
  match entity with
  | .node _ => [.entity entity]
  | .relationship _ => [.entity entity]
  | composite => composite.nodes.map fun n => .entity (.node n)

/-- The nodes of the given label; and a relationship of that type, if the entity is one. -/
def namedOf (entity : Entity) (name : String) : List Term :=
  (entity.nodes.filter fun n => !n.anonymous && n.hasLabel name).map (.entity ∘ .node) ++
    match entity with
    | .relationship r => if !r.anonymous && r.hasKind name then [.entity entity] else []
    | _ => []

/-- A selected member, under the selector's name if names are kept. -/
def selected (keepNames : Bool) (e : Entity) (selector : ItemSelector) : Term :=
  match selector.asName with
  | some name => .entity (if keepNames then e.named name else e)
  | none => .entity e

/-- What the selectors take of a node: it may be selected by its label, and by `_var`. -/
def selectNode (keepNames : Bool) (unlabelled : Option String) (selectors : List ItemSelector)
    (n : Node) : List Term :=
  let byLabel := selectors.find? fun s => n.hasLabel s.name
  let byVar := if unlabelled == some n.var then selectors.find? (·.name == "_var") else none
  (byLabel.toList ++ byVar.toList).map (selected keepNames (.node n))

/-- The members that two lists of selectors take; a `*` stands for all nodes. -/
def selectedOf (entity : Entity) (nodes edges : List ItemSelector) (unlabelled : Option String)
    (keepNames : Bool) : List Term :=
  (if nodes.any (·.name == "*") then [.raw "*"]
    else (entity.nodes.filter (!·.anonymous)).flatMap (selectNode keepNames unlabelled nodes)) ++
  (entity.edges.filter (!·.anonymous)).flatMap fun r =>
    ((edges.find? fun s => r.hasKind s.name).map (selected keepNames (.relationship r))).toList

/-- The returned terms, the function around them and the name of the path. A function of the
return block is preferred to the step's. -/
def resolve (ret : ReturnSpec) (entity : Entity) (unlabelled : Option String)
    (func : Option FuncSpec) (token : String) :
    Except RequestFault (List Term × Option FuncSpec × Option String) :=
  match ret with
  | items => .ok (allOf entity, func, none)
  | named name =>
    match namedOf entity name with
    | [] => .error (.nothingNamed name token)
    | terms => .ok (terms, func, none)
  | select nodes edges own pathId =>
    let func := own.or func
    match selectedOf entity nodes edges unlabelled func.isNone with
    | [] => .error (.nothingSelected token)
    | terms => .ok (terms, func, pathId)

end ReturnSpec

/-- The terms, each inside the function if there is one. -/
def FuncSpec.wrap (func : Option FuncSpec) (terms : List Term) : List Term :=
  match func with
  | none => terms
  | some spec => terms.map fun t => .apply spec.kind [t] spec.asName

/-! ## Compiling -/

/-- How statements are written. -/
structure StatementOptions where
  useParams : Bool := true
  terminate : Bool := false
deriving DecidableEq

/-- The statement of a finished trail. -/
def Trail.finish (trail : Trail) (step : Step) (token : String) (options : StatementOptions) :
    Except RequestFault Compiled :=
  match step.ret, trail.entity with
  | none, _ => .error (.noReturn token)
  | some _, none => .error (.nothingReached token)
  | some ret, some entity => do
    let (terms, func, pathId) ← ret.resolve entity trail.unlabelled step.func token
    return {
      statement := {
        clauses := [.matching [.entity entity], .returning (FuncSpec.wrap func terms)]
        terminate := options.terminate
        useParams := options.useParams }
      key := keyText trail.key
      bindings := trail.bindings
      pathId }

namespace RouteTable

/-- The statement of a request. -/
def compile (table : RouteTable) (options : StatementOptions) (tokens : List String) :
    Except RequestFault Compiled :=
  match tokens with
  | [] => .error .noTokens
  | token :: rest => do
    let (trail, step, last) ← Trail.followAll {} table.root token rest
    trail.finish step last options

/-- The segments of the key that tokens resolve to from a level on. -/
def keySegments? (level : Level) : (tokens : List String) → Option (List KeySegment)
  | [] => some []
  | token :: rest => do
    let (step, param) ← level.resolve token
    let segments ← keySegments? step.next rest
    return Trail.segmentOf token param :: segments

/-- The key that a request resolves to, whether or not it compiles. -/
def keyFor (table : RouteTable) (tokens : List String) : Option String :=
  (keySegments? table.root tokens).map keyText

end RouteTable

end CypherRoutes
