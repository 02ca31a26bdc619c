/-
# Nodes

A node is known by its variable: two nodes with one variable are copies of one endpoint, whatever
else they carry.
-/
import CypherRoutes.Graph.Property

namespace CypherRoutes

/-- A node of a pattern. -/
structure Node where
  var : String
  label : Option String
  props : List Property := []
  /-- The name under which a statement returns the node. -/
  asName : Option String := none
  /-- An anonymous node is written without its variable and is never returned. -/
  anonymous : Bool := false
deriving BEq

namespace Node

/-- Whether two nodes are copies of one endpoint. -/
def sameEndpoint (n m : Node) : Bool := n.var == m.var

/-- Whether the node has the given label. -/
def hasLabel (n : Node) (label : String) : Bool := n.label == some label

/-- The property with the given handle. -/
def prop? (n : Node) (handle : String) : Option Property := Property.find? handle n.props

/-- The node with a property attached; it replaces one of the same handle. -/
def attach (n : Node) (p : Property) : Node := { n with props := Property.attach n.var n.props p }

/-- The node returned under another name. -/
def named (n : Node) (name : String) : Node := { n with asName := some name }

/-- The node without its variable in the text. -/
def anon (n : Node) : Node := { n with anonymous := true }

/-- The node without its properties. -/
def plain (n : Node) : Node := { n with props := [] }

/-- The node without its label. -/
def varOnly (n : Node) : Node := { n with label := none }

/-- The values of the node's properties under their variables. -/
def params (n : Node) : List (String × Value) := n.props.flatMap Property.params

end Node

end CypherRoutes
