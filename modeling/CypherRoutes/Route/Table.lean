/-
# Route tables

A route table is a tree of levels. At each level a token of a request is either one of the
literal segments or the value of the level's parameter; the step that it leads to tells what the
token contributes to the statement, and holds the next level.
-/
import CypherRoutes.Cypher.Function
import CypherRoutes.Graph.Relationship

namespace CypherRoutes

/-! ## What a step contributes -/

/-- A property that a step attaches. -/
inductive PropSpec where
  /-- Its value is the token at hand. -/
  | ofToken (handle : String)
  /-- Its value is fixed by the table. -/
  | fixed (handle : String) (value : Value)

/-- The handle of the property. -/
def PropSpec.handle : PropSpec → String
  | ofToken handle => handle
  | fixed handle _ => handle

/-- Whether the value is fixed by the table. -/
def PropSpec.isFixed : PropSpec → Bool
  | ofToken _ => false
  | fixed _ _ => true

/-- A relationship that a step builds. -/
structure EdgeSpec where
  kind : String
  direction : Direction
  hint : Option JoinHint
deriving DecidableEq

/-- What a step builds as a new entity. -/
inductive NodeSpec where
  /-- A node with a label. -/
  | label (label : String)
  /-- A node without a label, which can be returned as `_var`. -/
  | unlabelled
  /-- A node with a label and perhaps a property. -/
  | block (label : String) (prop : Option PropSpec)
  /-- Such a node with a relationship to another. -/
  | linked (label : String) (prop : Option PropSpec) (edge : EdgeSpec) (target : NodeSpec)

/-- A function around every returned item. -/
structure FuncSpec where
  kind : FuncKind
  asName : Option String
deriving DecidableEq

/-- What a `_return` list names: a label or a type, perhaps with the name to return it by. -/
structure ItemSelector where
  name : String
  asName : Option String
deriving DecidableEq

/-- What a route returns. -/
inductive ReturnSpec where
  /-- The entity, or every node of a composite. -/
  | items
  /-- The members of the given label or type. -/
  | named (name : String)
  /-- The members that two lists select, perhaps inside a function. -/
  | select (nodes edges : List ItemSelector) (func : Option FuncSpec) (pathId : Option String)
deriving DecidableEq

/-- The directives of a step. On a parameter level `_node` and `_edge` build nothing: they select
the member that takes the property. -/
structure Directives where
  node : Option NodeSpec := none
  edge : Option EdgeSpec := none
  nodeSelector : Option String := none
  edgeSelector : Option String := none
  prop : Option PropSpec := none
  ret : Option ReturnSpec := none
  func : Option FuncSpec := none

/-! ## The tree -/

mutual

/-- The segments at one place of a route. -/
structure Level where
  literals : List (String × Step)
  /-- The parameter's name and the step behind it. -/
  param : Option (String × Step)

/-- What follows a token: its directives and the level after it. -/
structure Step extends Directives where
  next : Level

end

namespace Level

/-- The level without segments. -/
def empty : Level := ⟨[], none⟩

/-- Whether no segment follows. -/
def isEmpty (level : Level) : Bool := level.literals.isEmpty && level.param.isNone

/-- The step of a token, and the name of the parameter if the token is its value. Literal segments
come first. -/
def resolve (level : Level) (token : String) : Option (Step × Option String) :=
  match level.literals.lookup token with
  | some step => some (step, none)
  | none => level.param.map fun (name, step) => (step, some name)

mutual

/-- The routes from a level on that end in a `_return`, each behind `start`, in table order. -/
def routesFrom (start : String) (level : Level) : List String :=
  match level with
  | ⟨literals, none⟩ => routesOf start literals
  | ⟨literals, some (name, ⟨directives, next⟩)⟩ =>
    let route := start ++ "/$" ++ name
    routesOf start literals ++
      ((if directives.ret.isSome then [route] else []) ++ routesFrom route next)
termination_by structural level

/-- The routes through a list of literal segments. -/
def routesOf (start : String) (literals : List (String × Step)) : List String :=
  match literals with
  | [] => []
  | (segment, ⟨directives, next⟩) :: rest =>
    let route := start ++ "/" ++ segment
    ((if directives.ret.isSome then [route] else []) ++ routesFrom route next) ++
      routesOf start rest
termination_by structural literals

end

end Level

/-- A route table. -/
structure RouteTable where
  root : Level

/-- Every route that ends in a `_return`, with `$name` for its parameters, in table order. -/
def RouteTable.routes (table : RouteTable) : List String := table.root.routesFrom ""

end CypherRoutes
