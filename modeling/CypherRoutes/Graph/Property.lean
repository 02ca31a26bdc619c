/-
# Properties

A property has a variable of its own, which names the parameter that carries its value, and a
handle, the key under which its owner holds it. The owner is known by its variable. A list of
properties behaves as a map from handles in order of first attachment.
-/
import CypherRoutes.Json.Value

namespace CypherRoutes

/-- A property of a node or a relationship. -/
structure Property where
  var : String
  handle : String
  /-- The value as it was given, if one was given. -/
  given : Option Value
  /-- The name under which a statement returns the property. -/
  asName : Option String
  /-- The variable of the node or relationship that it belongs to. -/
  owner : Option String
deriving BEq

namespace Property

/-- The value to match on; `null` is none. -/
def value? (p : Property) : Option Value := p.given.filter (!·.isNull)

/-- The property returned under another name. -/
def named (p : Property) (name : String) : Property := { p with asName := some name }

/-- The property of another owner. -/
def ownedBy (p : Property) (owner : String) : Property := { p with owner := some owner }

/-- The property without its value. -/
def plain (p : Property) : Property := { p with given := none }

/-- The value under the property's variable, if there is one. -/
def params (p : Property) : List (String × Value) :=
  match p.value? with
  | some value => [(p.var, value)]
  | none => []

/-- The list with the first property of `p`'s handle replaced by `p`, or `p` at its end. -/
def replace (p : Property) : List Property → List Property
  | [] => [p]
  | q :: rest => if q.handle == p.handle then p :: rest else q :: replace p rest

/-- The properties of `owner` after `p` is attached. -/
def attach (owner : String) (props : List Property) (p : Property) : List Property :=
  (p.ownedBy owner).replace props

/-- The property with the given handle. -/
def find? (handle : String) (props : List Property) : Option Property :=
  props.find? (·.handle == handle)

end Property

end CypherRoutes
