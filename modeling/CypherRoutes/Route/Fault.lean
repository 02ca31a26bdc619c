/-
# Faults

What can be wrong with a route table or with a request, each cause by itself. A cause has a kind,
a sentence that describes it, and an offender: the token of the request or the block of the table
that it points at.
-/
import CypherRoutes.Cypher.Pattern

namespace CypherRoutes

/-! ## Kinds and offenders -/

/-- The kinds of faults. -/
inductive FaultKind where
  | emptyRequest
  | tokenNotOnPath
  | malformedNode
  | malformedEdge
  | malformedProp
  | malformedReturn
  | malformedFunc
  | unknownFunction
  | malformedRouteTable
  | ambiguousPropTarget
  | nodeNotPresent
  | edgeNotPresent
  | noIncomingEntity
  | noNewEntity
  | noReturn
  | nothingToReturn
  | unconnectable
deriving DecidableEq

/-- The name of a kind. -/
def FaultKind.name : FaultKind → String
  | emptyRequest => "EmptyRequest"
  | tokenNotOnPath => "TokenNotOnPath"
  | malformedNode => "MalformedNode"
  | malformedEdge => "MalformedEdge"
  | malformedProp => "MalformedProp"
  | malformedReturn => "MalformedReturn"
  | malformedFunc => "MalformedFunc"
  | unknownFunction => "UnknownFunction"
  | malformedRouteTable => "MalformedRouteTable"
  | ambiguousPropTarget => "AmbiguousPropTarget"
  | nodeNotPresent => "NodeNotPresent"
  | edgeNotPresent => "EdgeNotPresent"
  | noIncomingEntity => "NoIncomingEntity"
  | noNewEntity => "NoNewEntity"
  | noReturn => "NoReturn"
  | nothingToReturn => "NothingToReturn"
  | unconnectable => "Unconnectable"

/-- What a fault points at. -/
inductive Offender where
  | token (text : String)
  | block (value : Value)
  | nothing

/-- The offender in words; a block is written as JSON. -/
def Offender.text : Offender → String
  | token text => "token '" ++ text ++ "'"
  | block value => "block " ++ Json.write value
  | nothing => ""

/-! ## Faults of a table -/

/-- What is wrong with a block of a route table. -/
inductive TableFault where
  | tableNotMap (block : Value)
  | levelNotMap (block : Value)
  | secondParam (key : String) (level : Value)
  | nodeSelector (block : Value)
  | edgeSelector (block : Value)
  | nodeWithoutLabel (block : Value)
  | nodeShape (block : Value)
  | edgeWithoutType (block : Value)
  | edgeDirection (block : Value)
  | edgeJoin (block : Value)
  | edgeShape (block : Value)
  | propShape (block : Value)
  | funcShape (block : Value)
  | unknownFunction (name : String) (block : Value)
  | listExpected (key : String) (block : Value)
  | entryNotText (key : String) (block : Value)
  | returnShape (block : Value)

namespace TableFault

/-- The kind of the fault. -/
def kind : TableFault → FaultKind
  | tableNotMap _ => .malformedRouteTable
  | levelNotMap _ => .malformedRouteTable
  | secondParam _ _ => .malformedRouteTable
  | nodeSelector _ => .malformedNode
  | edgeSelector _ => .malformedEdge
  | nodeWithoutLabel _ => .malformedNode
  | nodeShape _ => .malformedNode
  | edgeWithoutType _ => .malformedEdge
  | edgeDirection _ => .malformedEdge
  | edgeJoin _ => .malformedEdge
  | edgeShape _ => .malformedEdge
  | propShape _ => .malformedProp
  | funcShape _ => .malformedFunc
  | unknownFunction _ _ => .unknownFunction
  | listExpected _ _ => .malformedReturn
  | entryNotText _ _ => .malformedReturn
  | returnShape _ => .malformedReturn

/-- The sentence that describes the fault. -/
def description : TableFault → String
  | tableNotMap _ => "Route table must be a map of path segments"
  | levelNotMap _ => "Route level must be a map"
  | secondParam key _ => "More than one parameter marker at this level ('" ++ key ++ "')"
  | nodeSelector _ => "On a parameter level _node and _edge must name a label or type"
  | edgeSelector _ => "On a parameter level _node and _edge must name a label or type"
  | nodeWithoutLabel _ => "_node block requires _label key"
  | nodeShape _ => "Can't process _node block"
  | edgeWithoutType _ => "_edge block requires _type key"
  | edgeDirection _ => "_dir must be _right or _left"
  | edgeJoin _ => "_join must list two node labels"
  | edgeShape _ => "Can't process _edge block"
  | propShape _ => "Can't process _prop block"
  | funcShape _ => "Block type other than simple string not yet handled for _func"
  | unknownFunction name _ => "Sorry, no cypher function '" ++ name ++ "' is currently defined"
  | listExpected key _ => key ++ " key must point to a list"
  | entryNotText key _ => key ++ " entries must be strings"
  | returnShape _ => "_return block must be _items, a label, or a map"

/-- The block at fault. -/
def block : TableFault → Value
  | tableNotMap block => block
  | levelNotMap block => block
  | secondParam _ level => level
  | nodeSelector block => block
  | edgeSelector block => block
  | nodeWithoutLabel block => block
  | nodeShape block => block
  | edgeWithoutType block => block
  | edgeDirection block => block
  | edgeJoin block => block
  | edgeShape block => block
  | propShape block => block
  | funcShape block => block
  | unknownFunction _ block => block
  | listExpected _ block => block
  | entryNotText _ block => block
  | returnShape block => block

/-- What the fault points at. -/
def offender (fault : TableFault) : Offender := .block fault.block

end TableFault

/-! ## Faults of a request -/

/-- Why a request does not compile. Every cause but the first names the token at which it
arises. -/
inductive RequestFault where
  | noTokens
  | notOnPath (token : String)
  | noEntityForProp (token : String)
  | ambiguousProp (token : String)
  | nodeNotPresent (token : String)
  | edgeNotPresent (token : String)
  | noEntityForEdge (token : String)
  | noNewEntity (token : String)
  | unconnectable (error : PathError) (token : String)
  | noReturn (token : String)
  | nothingReached (token : String)
  | nothingNamed (name : String) (token : String)
  | nothingSelected (token : String)

namespace RequestFault

/-- The kind of the fault. -/
def kind : RequestFault → FaultKind
  | noTokens => .emptyRequest
  | notOnPath _ => .tokenNotOnPath
  | noEntityForProp _ => .noIncomingEntity
  | ambiguousProp _ => .ambiguousPropTarget
  | nodeNotPresent _ => .nodeNotPresent
  | edgeNotPresent _ => .edgeNotPresent
  | noEntityForEdge _ => .noIncomingEntity
  | noNewEntity _ => .noNewEntity
  | unconnectable _ _ => .unconnectable
  | noReturn _ => .noReturn
  | nothingReached _ => .nothingToReturn
  | nothingNamed _ _ => .nothingToReturn
  | nothingSelected _ => .nothingToReturn

/-- The sentence that describes the fault. -/
def description : RequestFault → String
  | noTokens => "No path tokens to compile"
  | notOnPath token => "Token '" ++ token ++ "' not on valid path"
  | noEntityForProp _ => "No incoming entity to attach the property to"
  | ambiguousProp _ => "Both _edge and _node must be defined here"
  | nodeNotPresent _ => "Node specified by _node is not present"
  | edgeNotPresent _ => "Edge specified by _edge is not present"
  | noEntityForEdge _ => "No incoming entity to apply _edge to here"
  | noNewEntity _ => "No new entity to link to"
  | unconnectable error _ => error.message
  | noReturn _ => "Reached end of path, but found no _return spec"
  | nothingReached _ => "No entity to return"
  | nothingNamed name _ => "No named node to return with label '" ++ name ++ "'"
  | nothingSelected _ => "No named nodes or edges matching the path _return spec"

/-- What the fault points at. -/
def offender : RequestFault → Offender
  | noTokens => .nothing
  | notOnPath token => .token token
  | noEntityForProp token => .token token
  | ambiguousProp token => .token token
  | nodeNotPresent token => .token token
  | edgeNotPresent token => .token token
  | noEntityForEdge token => .token token
  | noNewEntity token => .token token
  | unconnectable _ token => .token token
  | noReturn token => .token token
  | nothingReached token => .token token
  | nothingNamed _ token => .token token
  | nothingSelected token => .token token

end RequestFault

end CypherRoutes
