/-
# Settings from the environment

Each setting has a variable of its own; a variable that is not set leaves the default.
-/
import CypherRoutes.Environment
import CypherRoutes.Settings

namespace CypherRoutes

/-! ## Values of variables -/

/-- A boolean variable is one of two words. -/
def readBoolText (text : String) : Except String Bool :=
  if text == "true" then .ok true
  else if text == "false" then .ok false
  else .error "provided string was not `true` or `false`"

/-- The number that decimal digits make behind the digits of `n`. Of a wrong character and a number
that is too great the one met first counts. -/
def readDigits (n : Nat) : List Char → Except String Nat
  | [] => .ok n
  | c :: rest =>
    if !c.isDigit then .error "invalid digit found in string"
    else
      let n := n * 10 + (c.toNat - '0'.toNat)
      if n < countBound then readDigits n rest
      else .error "number too large to fit in target type"

/-- A count has at least one decimal digit, perhaps behind a plus, and fits 64 bits. -/
def readCountText (text : String) : Except String Nat :=
  match text.toList with
  | [] => .error "cannot parse integer from empty string"
  | '+' :: c :: rest => readDigits 0 (c :: rest)
  | all => readDigits 0 all

/-- The value of a variable, or a default if it is not set. -/
def Environment.readVariable {α : Type} (e : Environment) (name : String)
    (read : String → Except String α) (default : α) : Except SettingsError α :=
  match e.get? name with
  | none => .ok default
  | some text =>
    match read text with
    | .ok a => .ok a
    | .error reason => .error (.variable name text reason)

/-- The settings that the environment asks for. -/
def Settings.ofEnvironment (e : Environment) : Except SettingsError Settings := do
  let useParams ← e.readVariable "PATHCYPHER_USE_PARAMS" readBoolText true
  let terminate ← e.readVariable "PATHCYPHER_TERMINATE" readBoolText false
  let enabled ← e.readVariable "PATHCYPHER_QUERY_CACHE_ENABLED" readBoolText true
  let maxEntries ← e.readVariable "PATHCYPHER_QUERY_CACHE_MAX_ENTRIES" readCountText 1000
  Settings.validate { useParams, terminate, cache := { enabled, maxEntries } }

end CypherRoutes
