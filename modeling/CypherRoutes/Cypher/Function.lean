/-
# Functions

The functions that can be applied to terms, with the names by which they are looked up. Each has
a place for its arguments, a text between them and a text around them.
-/
import CypherRoutes.Cypher.Phrase

namespace CypherRoutes

/-- A function of terms. -/
inductive FuncKind where
  | count
  | exists
  | labels
  | group
  | and
  | or
  | not
  | isNull
  | isNotNull
deriving DecidableEq

namespace FuncKind

/-- All functions. -/
def all : List FuncKind :=
  [.count, .exists, .labels, .group, .and, .or, .not, .isNull, .isNotNull]

/-- The name by which a function is looked up. -/
def name : FuncKind → String
  | .count => "count"
  | .exists => "exists"
  | .labels => "labels"
  | .group => "group"
  | .and => "And"
  | .or => "Or"
  | .not => "Not"
  | .isNull => "is_null"
  | .isNotNull => "is_not_null"

/-- The function of the given name. -/
def ofName? (name : String) : Option FuncKind := all.find? (·.name == name)

/-- The place in which a function's arguments are written: the connectives join conditions. -/
def place : FuncKind → Place
  | .and => .condition
  | .or => .condition
  | .not => .condition
  | _ => .item

/-- What stands between two arguments. -/
def joiner : FuncKind → String
  | .and => " AND "
  | .or => " OR "
  | .group => " "
  | _ => ","

/-- What stands before the arguments. -/
def opening : FuncKind → String
  | .count => "count("
  | .exists => "exists("
  | .labels => "labels("
  | .group => "("
  | .not => "NOT "
  | _ => ""

/-- What stands behind the arguments. -/
def closing : FuncKind → String
  | .count => ")"
  | .exists => ")"
  | .labels => ")"
  | .group => ")"
  | .isNull => " IS NULL"
  | .isNotNull => " IS NOT NULL"
  | _ => ""

/-- A function around its arguments, under the name by which the result is returned. -/
def around (kind : FuncKind) (asName : Option String) (args : List Phrase) : Phrase :=
  .verbatim kind.opening :: (Phrase.joined kind.joiner args ++
    [.verbatim (kind.closing ++
      match asName with
      | some name => " as " ++ name
      | none => "")])

/-- Every function is found under its own name. -/
theorem ofName?_name (kind : FuncKind) : ofName? kind.name = some kind := by
  cases kind <;> decide

end FuncKind

end CypherRoutes
