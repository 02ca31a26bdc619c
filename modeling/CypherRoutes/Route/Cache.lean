/-
# The cache

Compiled requests by key, with room for a fixed number of them; when a new key needs room the
least recently used one makes way. A lookup hits if the key is there and its pattern matches the
path, and then gives the values of the pattern's groups. A key is stored if the engine compiles it
as a pattern.

The counts are natural numbers. They agree with counters of 64 bits as long as there are fewer than
2^64 calls.
-/
import CypherRoutes.Number.Double
import CypherRoutes.Route.Pattern
import CypherRoutes.Settings

namespace CypherRoutes

/-- An entry of the cache. -/
structure CacheEntry (α : Type) where
  key : String
  pattern : Pattern
  payload : α
  /-- How often the entry was hit since it was stored. -/
  accesses : Nat

/-- What a lookup that hits gives. -/
structure CacheHit (α : Type) where
  key : String
  payload : α
  captures : List String

/-- Entries in the order of their last use, the latest last, and the counts of what happened. -/
structure Cache (α : Type) where
  settings : CacheSettings
  entries : List (CacheEntry α) := []
  hits : Nat := 0
  misses : Nat := 0
  evictions : Nat := 0

namespace Cache

variable {α : Type}

/-- An empty cache. -/
def ofSettings (settings : CacheSettings) : Cache α := { settings }

/-- The number of entries. -/
def size (c : Cache α) : Nat := c.entries.length

/-- The entry stored under a key. -/
def find? (c : Cache α) (key : String) : Option (CacheEntry α) :=
  c.entries.find? (·.key == key)

/-- The entries under all other keys. -/
def without (c : Cache α) (key : String) : List (CacheEntry α) :=
  c.entries.filter (·.key != key)

/-- Looks a path up under a key. A hit makes the entry the latest used one. A cache that is not
enabled is always empty and counts nothing. -/
def get (c : Cache α) (key path : String) : Option (CacheHit α) × Cache α :=
  if c.settings.enabled then
    let hit? := do
      let entry ← c.find? key
      let values ← entry.pattern.captures path
      return (entry, values)
    match hit? with
    | some (entry, values) =>
      (some { key, payload := entry.payload, captures := values },
        { c with
          entries := c.without key ++ [{ entry with accesses := entry.accesses + 1 }]
          hits := c.hits + 1 })
    | none => (none, { c with misses := c.misses + 1 })
  else (none, c)

/-- The cache with room for an entry of the given key: a new key takes the place of the least
recently used one if the cache is full. -/
def makeRoom (c : Cache α) (key : String) : Cache α :=
  if (c.find? key).isNone && c.settings.maxEntries ≤ c.size then
    match c.entries with
    | [] => c
    | _ :: rest => { c with entries := rest, evictions := c.evictions + 1 }
  else c

/-- Stores a payload under a key, as the latest used entry. A key that is no pattern is not
stored. -/
def insert [PatternEngine] (c : Cache α) (key : String) (payload : α) : Cache α :=
  if c.settings.enabled then
    match keyPattern? key with
    | none => c
    | some pattern =>
      let c := c.makeRoom key
      { c with entries := c.without key ++ [{ key, pattern, payload, accesses := 0 }] }
  else c

/-- The cache without entries; the counts stay. -/
def clear (c : Cache α) : Cache α := { c with entries := [] }

/-- The hits of the entries that are stored now. -/
def totalAccesses (c : Cache α) : Nat :=
  c.entries.foldr (fun entry total => entry.accesses + total) 0

end Cache

/-! ## Metrics -/

/-- The counts of a cache. -/
structure CacheMetrics where
  hits : Nat
  misses : Nat
  evictions : Nat
  size : Nat
  maxEntries : Nat
  totalAccesses : Nat
deriving DecidableEq

/-- The counts of a cache as they are now. -/
def Cache.metrics {α : Type} (c : Cache α) : CacheMetrics where
  hits := c.hits
  misses := c.misses
  evictions := c.evictions
  size := c.size
  maxEntries := c.settings.maxEntries
  totalAccesses := c.totalAccesses

namespace CacheMetrics

/-- The quotient of two counts, each rounded to binary64 first; zero if the second is zero. -/
def rate (a b : Nat) : Double :=
  if b = 0 then .zero false
  else
    (do
      let x ← Double.ofNat false a
      let y ← Double.ofNat false b
      x.div y).getD (.zero false)

/-- Which part of the lookups hit. -/
def hitRate (m : CacheMetrics) : Double := rate m.hits (m.hits + m.misses)

/-- Which part of the room is taken. -/
def utilization (m : CacheMetrics) : Double := rate m.size m.maxEntries

/-- The counts as a JSON object. -/
def value (m : CacheMetrics) : Value :=
  let count (n : Nat) : Value := .number (.integer n)
  .object [("hits", count m.hits), ("misses", count m.misses), ("evictions", count m.evictions),
    ("size", count m.size), ("max_entries", count m.maxEntries),
    ("total_accesses", count m.totalAccesses)]

end CacheMetrics

end CypherRoutes
