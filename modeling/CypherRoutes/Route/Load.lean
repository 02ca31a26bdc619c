/-
# Loading route tables

A table is loaded from a JSON value: objects are levels, members whose names begin with `_` are
directives, `$name` is a level's parameter and every other member a literal segment. Any malformed
block anywhere is a fault of the whole table. Unknown directives are passed over and remembered.
-/
import CypherRoutes.Route.Fault
import CypherRoutes.Route.Table

namespace CypherRoutes

/-! ## Blocks -/

/-- A member that is a text with at least one character. -/
def nonEmptyText? (name : String) (members : List (String × Value)) : Option String :=
  ((Value.member? name members).bind Value.string?).filter (!·.isEmpty)

/-- A property block: a handle, or a handle with a value other than null. -/
def PropSpec.ofValue (block : Value) : Except TableFault PropSpec :=
  match block with
  | .string handle => .ok (.ofToken handle)
  | .object members =>
    match nonEmptyText? "_handle" members, Value.member? "_value" members with
    | some handle, some value =>
      if value.isNull then .error (.propShape block) else .ok (.fixed handle value)
    | _, _ => .error (.propShape block)
  | _ => .error (.propShape block)

/-- The direction of an edge block; it points to the right unless it says otherwise. -/
def EdgeSpec.directionOf (block : Value) (members : List (String × Value)) :
    Except TableFault Direction :=
  match Value.member? "_dir" members with
  | none => .ok .right
  | some (.string "_right") => .ok .right
  | some (.string "_left") => .ok .left
  | some _ => .error (.edgeDirection block)

/-- The join hint of an edge block: a list of two labels. -/
def EdgeSpec.hintOf (block : Value) (members : List (String × Value)) :
    Except TableFault (Option JoinHint) :=
  match Value.member? "_join" members with
  | none => .ok none
  | some (.array [.string left, .string right]) => .ok (some ⟨left, right⟩)
  | some _ => .error (.edgeJoin block)

/-- An edge block: a type, or a map with a type. -/
def EdgeSpec.ofValue (block : Value) : Except TableFault EdgeSpec :=
  match block with
  | .string kind => .ok ⟨kind, .right, none⟩
  | .object members =>
    match nonEmptyText? "_type" members with
    | none => .error (.edgeWithoutType block)
    | some kind => do
      let direction ← directionOf block members
      let hint ← hintOf block members
      return ⟨kind, direction, hint⟩
  | _ => .error (.edgeShape block)

/-- The result of reading a member, if there is one. -/
def optionalMember {α : Type} (read : Value → Except TableFault α) (name : String)
    (members : List (String × Value)) : Except TableFault (Option α) :=
  match Value.member? name members with
  | none => .ok none
  | some block => (read block).map some

mutual

/-- A node block: `_var`, a label, or a map with a label and perhaps a property and a further node
behind an edge. An edge without a node, or a node without an edge, is passed over. -/
def NodeSpec.ofValue (block : Value) : Except TableFault NodeSpec :=
  match block with
  | .string text => .ok (if text == "_var" then .unlabelled else .label text)
  | .object members =>
    match nonEmptyText? "_label" members with
    | none => .error (.nodeWithoutLabel (.object members))
    | some name => do
      let prop ← optionalMember PropSpec.ofValue "_prop" members
      match Value.member? "_edge" members, NodeSpec.ofMembers members with
      | some edge, some target => do
        let edge ← EdgeSpec.ofValue edge
        let target ← target
        return .linked name prop edge target
      | _, _ => return .block name prop
  | other => .error (.nodeShape other)

/-- What the member `_node` is read as, if there is one. -/
def NodeSpec.ofMembers (members : List (String × Value)) : Option (Except TableFault NodeSpec) :=
  match members with
  | [] => none
  | (name, value) :: rest =>
    if name == "_node" then some (NodeSpec.ofValue value) else NodeSpec.ofMembers rest

end

/-- A selector's text: a name, and behind an `@` the name to return it by. -/
def ItemSelector.ofText (text : String) : ItemSelector :=
  let (name, rest) := text.toList.span (· != '@')
  match rest with
  | [] => ⟨text, none⟩
  | _ :: asName => ⟨String.ofList name, some (String.ofList asName)⟩

/-- A function block: the text of a function's name, and the name to return its result by. -/
def FuncSpec.ofValue (block : Value) : Except TableFault FuncSpec :=
  match block with
  | .string text =>
    let selector := ItemSelector.ofText text
    match FuncKind.ofName? selector.name with
    | some kind => .ok ⟨kind, selector.asName⟩
    | none => .error (.unknownFunction selector.name block)
  | _ => .error (.funcShape block)

/-- A list of selectors in a return block; without it there are none. -/
def ItemSelector.listOf (block : Value) (key : String) (members : List (String × Value)) :
    Except TableFault (List ItemSelector) :=
  match Value.member? key members with
  | none => .ok []
  | some (.array entries) =>
    entries.mapM fun
      | .string text => .ok (ofText text)
      | _ => .error (.entryNotText key block)
  | some _ => .error (.listExpected key block)

/-- A return block: `_items`, a label, or a map of selections. -/
def ReturnSpec.ofValue (block : Value) : Except TableFault ReturnSpec :=
  match block with
  | .string text => .ok (if text == "_items" then .items else .named text)
  | .object members => do
    let nodes ← ItemSelector.listOf block "_nodes" members
    let edges ← ItemSelector.listOf block "_edges" members
    let func ← optionalMember FuncSpec.ofValue "_func" members
    return .select nodes edges func ((Value.member? "_path_id" members).bind Value.string?)
  | _ => .error (.returnShape block)

/-! ## Levels -/

/-- The outcome of loading, with the unknown directives met on the way, in order. -/
structure Loading (α : Type) where
  unknown : List String
  outcome : Except TableFault α

namespace Loading

/-- A reading that meets no unknown directive. -/
def ofExcept {α : Type} (outcome : Except TableFault α) : Loading α := ⟨[], outcome⟩

instance : Monad Loading where
  pure a := ⟨[], .ok a⟩
  bind x f :=
    match x.outcome with
    | .error fault => ⟨x.unknown, .error fault⟩
    | .ok a => ⟨x.unknown ++ (f a).unknown, (f a).outcome⟩

/-- The warning about an unknown directive. -/
def warning (directive : String) : String :=
  "Ignoring unknown route directive '" ++ directive ++ "'"

/-- The warnings of a loading, in order. -/
def warnings {α : Type} (x : Loading α) : List String := x.unknown.map warning

end Loading

/-- What the name of a level's member stands for. -/
inductive Segment where
  | directive
  | param (name : String)
  | literal
deriving DecidableEq

/-- A directive begins with an underscore and a parameter with a dollar sign. -/
def Segment.ofKey (key : String) : Segment :=
  match key.toList with
  | '_' :: _ => directive
  | '$' :: name => param (String.ofList name)
  | _ => literal

namespace Directives

/-- The name of the member that takes a property on a parameter level. -/
def selectorOf (fault : Value → TableFault) (block : Value) : Except TableFault String :=
  match block with
  | .string name => .ok name
  | _ => .error (fault block)

/-- The directives with one more. -/
def add (isParam : Bool) (d : Directives) (key : String) (block : Value) : Loading Directives :=
  match key with
  | "_node" =>
    .ofExcept <|
      if isParam then
        (selectorOf .nodeSelector block).map fun name => { d with nodeSelector := some name }
      else (NodeSpec.ofValue block).map fun node => { d with node := some node }
  | "_edge" =>
    .ofExcept <|
      if isParam then
        (selectorOf .edgeSelector block).map fun name => { d with edgeSelector := some name }
      else (EdgeSpec.ofValue block).map fun edge => { d with edge := some edge }
  | "_prop" => .ofExcept <| (PropSpec.ofValue block).map fun prop => { d with prop := some prop }
  | "_return" => .ofExcept <| (ReturnSpec.ofValue block).map fun ret => { d with ret := some ret }
  | "_func" => .ofExcept <| (FuncSpec.ofValue block).map fun func => { d with func := some func }
  | other => ⟨[other], .ok d⟩

/-- The directives among the members of a level. -/
def ofMembers (isParam : Bool) (d : Directives) : List (String × Value) → Loading Directives
  | [] => pure d
  | (key, block) :: rest => do
    let d ← match Segment.ofKey key with
      | .directive => add isParam d key block
      | _ => pure d
    ofMembers isParam d rest

end Directives

mutual

/-- The step of a block: its directives are read before its segments. A null block has neither. -/
def Step.ofValue (isParam : Bool) (block : Value) : Loading Step :=
  match block with
  | .null => pure { next := .empty }
  | .object members => do
    let directives ← Directives.ofMembers isParam {} members
    let next ← Level.ofMembers (.object members) .empty members
    return { directives with next }
  | block => .ofExcept (.error (.levelNotMap block))

/-- A level with the segments among more members of the block `whole`. -/
def Level.ofMembers (whole : Value) (level : Level) (members : List (String × Value)) :
    Loading Level :=
  match members with
  | [] => pure level
  | (key, block) :: rest =>
    match Segment.ofKey key with
    | .directive => Level.ofMembers whole level rest
    | .literal => do
      let step ← Step.ofValue false block
      Level.ofMembers whole { level with literals := level.literals ++ [(key, step)] } rest
    | .param name =>
      if level.param.isSome then .ofExcept (.error (.secondParam key whole))
      else do
        let step ← Step.ofValue true block
        Level.ofMembers whole { level with param := some (name, step) } rest

end

/-- The value that holds a table's levels: its member `paths` if it has one, or else itself. -/
def RouteTable.levelsOf (value : Value) : Value := (value.get? "paths").getD value

/-- The table that a value holds. -/
def RouteTable.ofValue (value : Value) : Loading RouteTable :=
  match levelsOf value with
  | .object members => do
    let root ← Level.ofMembers (.object members) .empty members
    return ⟨root⟩
  | other => .ofExcept (.error (.tableNotMap other))

end CypherRoutes
