/-
# Statements

A statement is a sequence of clauses. It is written in the mode that it asks for, and carries the
values of the parameters that its clauses need.
-/
import CypherRoutes.Cypher.Clause
import CypherRoutes.Cypher.Inline

namespace CypherRoutes

/-- A sequence of clauses. -/
structure Statement where
  clauses : List Clause
  /-- Whether the text ends with a semicolon. -/
  terminate : Bool := false
  /-- Whether values are written as placeholders. -/
  useParams : Bool := false

namespace Statement

/-- The statement as one phrase. -/
def phrase (s : Statement) : Phrase :=
  Phrase.joined " " (s.clauses.map Clause.phrase) ++
    if s.terminate then [.verbatim ";"] else []

/-- The text in a given mode. -/
def textIn (s : Statement) (mode : Mode) : String := s.phrase.text mode

/-- The mode that the statement asks for. -/
def mode (s : Statement) : Mode := .ofUseParams s.useParams

/-- The text of the statement. -/
def text (s : Statement) : String := s.textIn s.mode

/-- The values of the parameters by property variable. -/
def params (s : Statement) : Params := .ofList (s.clauses.flatMap Clause.params)

/-- The values that go with the text when the statement is run: none if it holds no
placeholders. -/
def runParams (s : Statement) : Params := if s.useParams then s.params else .empty

/-- The text with its parameters inlined. -/
def inlined (s : Statement) (params : Params) : Except MissingParameter String :=
  inlineParameters s.text params

end Statement

end CypherRoutes
