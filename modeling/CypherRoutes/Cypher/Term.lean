/-
# Terms

The arguments of clauses and functions: entities, functions of terms, and text that is passed
through.
-/
import CypherRoutes.Cypher.Function
import CypherRoutes.Cypher.Pattern
import CypherRoutes.Params

namespace CypherRoutes

/-- An argument of a clause or a function. -/
inductive Term where
  | entity (e : Entity)
  /-- A function of terms, with the name under which its result is returned. -/
  | apply (kind : FuncKind) (args : List Term) (asName : Option String)
  /-- Text such as `*`, written as it is. -/
  | raw (text : String)

namespace Term

mutual

/-- The phrases of a term in a place. A function has a place of its own for its arguments. -/
def phrases : Term → Place → List Phrase
  | entity e, place => e.phrases place
  | apply kind args asName, _ => [kind.around asName (allPhrases args kind.place)]
  | raw text, _ => [Phrase.ofText text]

/-- The phrases of a list of terms in a place. -/
def allPhrases : List Term → Place → List Phrase
  | [], _ => []
  | t :: rest, place => phrases t place ++ allPhrases rest place

end

/-- The values that an entity needs in a place: none among returned items, and none for a property
without an owner among conditions, where it is not written. -/
def entityParams : Entity → Place → List (String × Value)
  | _, .item => []
  | .property p, .condition => if p.owner.isNone then [] else p.params
  | e, _ => e.params

mutual

/-- The values that a term needs in a place. -/
def params : Term → Place → List (String × Value)
  | entity e, place => entityParams e place
  | apply kind args _, _ => allParams args kind.place
  | raw _, _ => []

/-- The values that a list of terms needs in a place. -/
def allParams : List Term → Place → List (String × Value)
  | [], _ => []
  | t :: rest, place => params t place ++ allParams rest place

end

/-- A term that is a property. -/
def property? : Term → Option Property
  | entity (.property p) => some p
  | _ => none

end Term

end CypherRoutes
