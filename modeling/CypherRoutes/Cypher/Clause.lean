/-
# Clauses

The clauses of a statement, each with its text and the values that it needs. Assignments look at
properties only and pass over all other terms.
-/
import CypherRoutes.Cypher.Term

namespace CypherRoutes

/-- What joins the conditions of a WHERE clause. -/
inductive BoolOp where
  | and
  | or
deriving DecidableEq

/-- The text between two conditions. -/
def BoolOp.joiner : BoolOp → String
  | .and => " AND "
  | .or => " OR "

/-- What a REMOVE clause takes away from its target. -/
inductive Removal where
  | label (name : String)
  | property (handle : String)
deriving DecidableEq

/-- The text behind the target. -/
def Removal.text : Removal → String
  | .label name => ":" ++ name
  | .property handle => "." ++ handle

/-- A clause of a statement. -/
inductive Clause where
  | matching (terms : List Term)
  | optionalMatching (terms : List Term)
  | create (terms : List Term)
  | merge (terms : List Term)
  | filter (op : BoolOp) (terms : List Term)
  /-- An update writes `+=` instead of `=`. -/
  | assign (update : Bool) (terms : List Term)
  | onCreateSet (terms : List Term)
  | onMatchSet (terms : List Term)
  | remove (target : Term) (removal : Removal)
  | returning (terms : List Term)
  | passing (terms : List Term)
  | unwind (terms : List Term)
  /-- Text that is written as it is. -/
  | raw (text : String)

namespace Clause

/-! ## Text -/

/-- A keyword and the phrases of terms in a place. -/
def listing (keyword : String) (place : Place) (joiner : String) (terms : List Term) : Phrase :=
  .verbatim (keyword ++ " ") :: Phrase.joined joiner (Term.allPhrases terms place)

/-- A keyword and the assignments of the properties among the terms. -/
def assignments (keyword op : String) (terms : List Term) : Phrase :=
  .verbatim (keyword ++ " ") ::
    Phrase.joined ", " ((terms.filterMap Term.property?).filterMap (Property.assignment? op))

/-- The phrase of a clause. A REMOVE clause names the first item of its target. -/
def phrase : Clause → Phrase
  | matching terms => listing "MATCH" .pattern ", " terms
  | optionalMatching terms => listing "OPTIONAL MATCH" .pattern ", " terms
  | create terms => listing "CREATE" .pattern ", " terms
  | merge terms => listing "MERGE" .pattern ", " terms
  | filter op terms => listing "WHERE" .condition op.joiner terms
  | assign update terms => assignments "SET" (if update then "+=" else "=") terms
  | onCreateSet terms => assignments "ON CREATE SET" "=" terms
  | onMatchSet terms => assignments "ON MATCH SET" "=" terms
  | remove target removal =>
    .verbatim "REMOVE " :: ((target.phrases .item).headD [] ++ [.verbatim removal.text])
  | returning terms => listing "RETURN" .item ", " terms
  | passing terms => listing "WITH" .item ", " terms
  | unwind terms => listing "UNWIND" .item ", " terms
  | raw text => Phrase.ofText text

/-! ## Values -/

/-- The values that the properties among the terms need in their assignments. -/
def assignmentParams (terms : List Term) : List (String × Value) :=
  (terms.filterMap Term.property?).flatMap fun p => Term.entityParams (.property p) .condition

/-- The values that a clause needs. -/
def params : Clause → List (String × Value)
  | matching terms => Term.allParams terms .pattern
  | optionalMatching terms => Term.allParams terms .pattern
  | create terms => Term.allParams terms .pattern
  | merge terms => Term.allParams terms .pattern
  | filter _ terms => Term.allParams terms .condition
  | assign _ terms => assignmentParams terms
  | onCreateSet terms => assignmentParams terms
  | onMatchSet terms => assignmentParams terms
  | remove _ _ => []
  | returning terms => Term.allParams terms .item
  | passing terms => Term.allParams terms .item
  | unwind terms => Term.allParams terms .item
  | raw _ => []

end Clause

end CypherRoutes
