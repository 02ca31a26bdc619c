/-
# Inlining parameters

A statement's text with every placeholder replaced by the literal of its value. A placeholder is
a dollar sign and the longest run of name characters after it; inside a quoted literal there are
none, and a dollar sign with no name after it stands for itself.
-/
import CypherRoutes.Cypher.Literal
import CypherRoutes.Params
import CypherRoutes.Text.Alphanumeric

namespace CypherRoutes

/-- A parameter that a text needs and that has no value. -/
structure MissingParameter where
  name : String
deriving DecidableEq

/-- The text of the failure. -/
def MissingParameter.message (missing : MissingParameter) : String :=
  "Missing required parameter: " ++ missing.name

/-! ## Pieces of a text -/

/-- A part of a statement's text. -/
inductive Fragment where
  /-- Text that is kept, a quoted literal included. -/
  | kept (text : List Char)
  /-- The place of a parameter's value. -/
  | placeholder (name : String)
deriving DecidableEq

/-- Where a text stands between two characters. -/
inductive Quoting where
  | outside
  | inside
  /-- Inside a literal, after a backslash. -/
  | escaped
deriving DecidableEq

/-- The state after a character inside a literal. -/
def Quoting.next : Quoting → Char → Quoting
  | .escaped, _ => .inside
  | _, '\\' => .escaped
  | _, '\'' => .outside
  | _, _ => .inside

/-- The text cut into its placeholders and the characters between them. `name` holds, in reverse,
the name of the placeholder that is being read, if there is one. -/
def fragments : Quoting → (name : Option (List Char)) → List Char → List Fragment
  | _, none, [] => []
  | _, some name, [] => [finish name]
  | .outside, some name, c :: rest =>
    if isNameChar c then fragments .outside (some (c :: name)) rest
    else finish name :: start c rest
  | .outside, none, c :: rest => start c rest
  | quoting, _, c :: rest => .kept [c] :: fragments (quoting.next c) none rest
where
  /-- The placeholder of a name that has ended. -/
  finish (name : List Char) : Fragment :=
    if name.isEmpty then .kept ['$'] else .placeholder (String.ofList name.reverse)
  /-- The fragments from a character on that belongs to no name. -/
  start (c : Char) (rest : List Char) : List Fragment :=
    if c == '$' then fragments .outside (some []) rest
    else .kept [c] :: fragments (if c == '\'' then .inside else .outside) none rest

/-! ## Substitution -/

/-- The text of a fragment. -/
def Fragment.text (params : Params) : Fragment → Except MissingParameter (List Char)
  | .kept text => .ok text
  | .placeholder name =>
    match params.get? name with
    | some value => .ok value.literal.toList
    | none => .error ⟨name⟩

/-- The fragments' texts one after the other, or the first missing parameter. -/
def substitute (params : Params) : List Fragment → Except MissingParameter (List Char)
  | [] => .ok []
  | fragment :: rest => do
    let text ← fragment.text params
    let more ← substitute params rest
    return text ++ more

/-- A text with its placeholders replaced by values. -/
def inlineParameters (text : String) (params : Params) : Except MissingParameter String :=
  (substitute params (fragments .outside none text.toList)).map String.ofList

end CypherRoutes
