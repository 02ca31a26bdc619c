/-
# Settings

The settings of a compiler and of its cache, with their defaults and the rule that they have to
meet: the cache has room for at least one entry.
-/
import CypherRoutes.Json.Write

namespace CypherRoutes

/-- Counts fit 64 bits. -/
def countBound : Nat := 0x10000000000000000

/-- The settings of the cache. -/
structure CacheSettings where
  enabled : Bool := true
  /-- How many entries the cache holds. -/
  maxEntries : Nat := 1000
deriving DecidableEq

/-- The settings of a compiler. -/
structure Settings where
  /-- Whether statements are written with placeholders. -/
  useParams : Bool := true
  /-- Whether every statement ends with a semicolon. -/
  terminate : Bool := false
  cache : CacheSettings := {}
deriving DecidableEq

/-- The settings of the cache as a JSON object. -/
def CacheSettings.value (s : CacheSettings) : Value :=
  .object [("enabled", .bool s.enabled), ("max_entries", .number (.integer s.maxEntries))]

/-- The settings as a JSON object. -/
def Settings.value (s : Settings) : Value :=
  .object [("use_params", .bool s.useParams), ("terminate", .bool s.terminate),
    ("cache", s.cache.value)]

/-! ## Failures -/

/-- Why settings are refused. -/
inductive SettingsError where
  /-- A variable of the environment that cannot be read, with its value and the reason. -/
  | variable (name value reason : String)
  /-- A file that cannot be read. -/
  | file (reason : String)
  /-- A file's text that holds no settings. -/
  | content (text : String)
  /-- Settings that leave the cache no room. -/
  | noRoom

/-- The sentence about a cache without room. -/
def SettingsError.noRoomMessage : String :=
  "Validation error: cache.max_entries: Query cache needs room for at least one entry"

/-- The settings, if they leave the cache room. -/
def Settings.validate (s : Settings) : Except SettingsError Settings :=
  if s.cache.maxEntries = 0 then .error .noRoom else .ok s

end CypherRoutes
