/-
# Settings from values

Settings as a JSON value: an object of named fields, or an array of the fields in order. A field
that is left out has its default; unknown fields of an object are passed over, but an array has no
further items.
-/
import CypherRoutes.Settings

namespace CypherRoutes

namespace Settings

/-- A boolean field. -/
def boolOf? : Value → Option Bool
  | .bool b => some b
  | _ => none

/-- A count that fits 64 bits. -/
def countOf? : Value → Option Nat
  | .number (.integer n) => if 0 ≤ n && n < countBound then some n.toNat else none
  | _ => none

/-- The fields of a value by name; an array has the given names in order. -/
def fieldsOf? (names : List String) : Value → Option (List (String × Value))
  | .object members => some members
  | .array items => if names.length < items.length then none else some (names.zip items)
  | _ => none

/-- A field, or its default if it is left out. -/
def field? {α : Type} (read : Value → Option α) (default : α) (name : String)
    (fields : List (String × Value)) : Option α :=
  match fields.lookup name with
  | none => some default
  | some value => read value

end Settings

/-- The settings of a cache that a value holds. -/
def CacheSettings.ofValue? (value : Value) : Option CacheSettings := do
  let fields ← Settings.fieldsOf? ["enabled", "max_entries"] value
  let enabled ← Settings.field? Settings.boolOf? true "enabled" fields
  let maxEntries ← Settings.field? Settings.countOf? 1000 "max_entries" fields
  return { enabled, maxEntries }

/-- The settings that a value holds. -/
def Settings.ofValue? (value : Value) : Option Settings := do
  let fields ← fieldsOf? ["use_params", "terminate", "cache"] value
  let useParams ← field? boolOf? true "use_params" fields
  let terminate ← field? boolOf? false "terminate" fields
  let cache ← field? CacheSettings.ofValue? {} "cache" fields
  return { useParams, terminate, cache }

end CypherRoutes
