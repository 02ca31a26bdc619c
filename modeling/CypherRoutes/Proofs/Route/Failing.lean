/-
# Requests that fail

A request that fails was looked up in vain, so the compiler is as before, but for one more miss; and
the number of misses decides nothing, so it answers every later request as if the failing one had
not been made (`Compiler.compile_of_error`). What is stored under a key was compiled for the same
route, and whether a request compiles is decided by its route, so nothing is ever stored under the
key of a request that fails.
-/
import CypherRoutes.Proofs.Route.Recency
import CypherRoutes.Proofs.Route.Transparency

namespace CypherRoutes

/-! ## The number of misses -/

namespace Cache

variable {α : Type}

/-- The cache with a number of further misses. -/
def missed (c : Cache α) (n : ℕ) : Cache α := { c with misses := c.misses + n }

variable (c : Cache α) (n : ℕ)

@[simp] theorem settings_missed : (c.missed n).settings = c.settings := rfl

@[simp] theorem entries_missed : (c.missed n).entries = c.entries := rfl

@[simp] theorem size_missed : (c.missed n).size = c.size := rfl

@[simp] theorem find?_missed (key : String) : (c.missed n).find? key = c.find? key := rfl

/-- A lookup finds the same whatever was missed before. -/
theorem get_missed (key path : String) :
    (c.missed n).get key path = ((c.get key path).1, (c.get key path).2.missed n) := by
  rw [get, get, settings_missed, find?_missed]
  split_ifs
  · cases (do
        let entry ← c.find? key
        let values ← entry.pattern.captures path
        return (entry, values)) with
    | none =>
        rw [missed, missed]
        simp only [Nat.add_right_comm]
    | some hit => rfl
  · rfl

/-- So an insert makes the same room. -/
theorem makeRoom_missed (key : String) :
    (c.missed n).makeRoom key = (c.makeRoom key).missed n := by
  rw [makeRoom, makeRoom, find?_missed, settings_missed, size_missed, entries_missed]
  split_ifs
  · cases c.entries <;> rfl
  · rfl

/-- And stores the same. -/
theorem insert_missed [PatternEngine] (key : String) (payload : α) :
    (c.missed n).insert key payload = (c.insert key payload).missed n := by
  rw [insert, insert, settings_missed]
  split_ifs
  · cases keyPattern? key with
    | none => rfl
    | some pattern =>
        simp only [makeRoom_missed]
        rfl
  · rfl

end Cache

namespace Compiler

/-- The compiler with a number of further misses in its cache. -/
def missed (c : Compiler) (n : ℕ) : Compiler := { c with cache := c.cache.missed n }

/-- Whether a request is looked up: the cache is used, and the tokens resolve to a key. -/
def consults (c : Compiler) (path : String) : Bool :=
  c.caching && (c.table.keyFor (tokensOf path)).isSome

/-- The answers to the requests of a list of calls, in order. -/
def answers [PatternEngine] (c : Compiler) : List CompilerCall → List (Except RequestFault Query)
  | [] => []
  | .compile path :: rest => (c.compile path).1 :: (c.compile path).2.answers rest
  | .clearCache :: rest => c.clearCache.answers rest

section Missed

variable (c : Compiler) (n : ℕ)

@[simp] theorem table_missed : (c.missed n).table = c.table := rfl

@[simp] theorem cache_missed : (c.missed n).cache = c.cache.missed n := rfl

@[simp] theorem caching_missed : (c.missed n).caching = c.caching := rfl

@[simp] theorem options_missed : (c.missed n).options = c.options := rfl

/-- A lookup finds the same whatever was missed before. -/
theorem lookup_missed (path : String) :
    (c.missed n).lookup path = ((c.lookup path).1, (c.lookup path).2.missed n) := by
  rw [lookup, lookup, caching_missed, table_missed, cache_missed]
  split_ifs
  · cases c.table.keyFor (tokensOf path) with
    | none => rfl
    | some key =>
        simp only [Cache.get_missed]
        rfl
  · rfl

variable [PatternEngine]

/-- A compile is kept in the same way. -/
theorem store_missed (build : Build) : (c.missed n).store build = (c.store build).missed n := by
  rw [store, store, caching_missed, cache_missed, Cache.insert_missed, missed]
  split_ifs <;> rfl

/-- So a request has the same answer. -/
theorem compile_missed (path : String) :
    (c.missed n).compile path = ((c.compile path).1, (c.compile path).2.missed n) := by
  rw [compile, compile, lookup_missed]
  generalize c.lookup (withoutSlash path) = result
  obtain ⟨hit, c'⟩ := result
  cases hit with
  | some hit => rfl
  | none =>
      simp only [table_missed, options_missed]
      cases c'.table.compile c'.options (tokensOf (withoutSlash path)) with
      | error fault => rfl
      | ok compiled =>
          simp only [store_missed]
          rfl

/-- And all requests have, with the same entries and counts left behind. -/
theorem answers_missed (calls : List CompilerCall) :
    (c.missed n).answers calls = c.answers calls ∧
      (c.missed n).run calls = (c.run calls).missed n := by
  induction calls generalizing c with
  | nil => exact ⟨rfl, rfl⟩
  | cons call rest ih =>
      cases call with
      | clearCache => exact ih c.clearCache
      | compile path =>
          obtain ⟨hanswers, hrun⟩ := ih (c.compile path).2
          have hstep := c.compile_missed n path
          constructor
          · rw [answers, answers, hstep, hanswers]
          · show ((c.missed n).compile path).2.run rest = _
            rw [hstep]
            exact hrun

end Missed

/-! ## A request that fails -/

variable {table : RouteTable} {settings : Settings} {c : Compiler}

/-- A lookup in vain is a miss of the cache, if the cache was asked. -/
theorem lookup_of_miss {path : String} (hmiss : (c.lookup path).1 = none) :
    (c.lookup path).2 = c.missed (c.consults path).toNat := by
  rw [lookup] at hmiss ⊢
  rw [consults]
  split_ifs at hmiss ⊢ with hcaching
  · have henabled : c.cache.settings.enabled = true := by
      rw [caching, Bool.and_eq_true] at hcaching
      exact hcaching.2
    rw [hcaching]
    cases hkey : c.table.keyFor (tokensOf path) with
    | none => rfl
    | some key =>
        simp only [hkey] at hmiss
        simp only [Cache.get_of_miss henabled hmiss]
        rfl
  · rw [Bool.eq_false_iff.mpr hcaching]
    rfl

/-- A request that fails was looked up in vain. -/
theorem lookup_of_error [PatternEngine] {path : String} {fault : RequestFault}
    (h : (c.compile path).1 = .error fault) :
    (c.lookup (withoutSlash path)).1 = none ∧
      (c.compile path).2 = (c.lookup (withoutSlash path)).2 := by
  rw [compile] at h ⊢
  generalize c.lookup (withoutSlash path) = result at h ⊢
  obtain ⟨hit, c'⟩ := result
  cases hit with
  | some hit => cases h
  | none =>
      simp only at h ⊢
      cases hcompile : c'.table.compile c'.options (tokensOf (withoutSlash path)) with
      | error fault' => exact ⟨trivial, rfl⟩
      | ok compiled =>
          rw [hcompile] at h
          cases h

/-- The table refuses a request that fails: what hits the cache does not fail. -/
theorem Sound.fault_of_error [PatternEngine] (h : c.Sound table settings) {path : String}
    {fault : RequestFault} (hfault : (c.compile path).1 = .error fault) :
    table.compile settings.options (tokensOf (withoutSlash path)) = .error fault := by
  rcases h.compile_cases path with ⟨hit, -, hc⟩ | ⟨fault', htable, hc⟩ | ⟨build, -, -, hc⟩
  · rw [hc] at hfault
    cases hfault
  · rw [hc] at hfault
    rw [htable, Except.error.inj hfault]
  · rw [hc] at hfault
    cases hfault

/-- A request whose key is stored compiles: the entry was compiled for the same route. -/
theorem Sound.compiles_of_stored [PatternEngine] (h : c.Sound table settings)
    {path key : String} (hkey : table.keyFor (tokensOf path) = some key)
    (hstored : key ∈ c.cache.keys) :
    ∃ compiled, table.compile settings.options (tokensOf path) = .ok compiled := by
  obtain ⟨ws, hws, rfl⟩ := RouteTable.keyFor_eq_some_iff.mp hkey
  obtain ⟨entry, hfind⟩ := Option.isSome_iff_exists.mp (Cache.isSome_find?_iff.mpr hstored)
  obtain ⟨⟨tokens, vs, hvs, hsegments, hcompile⟩, -⟩ := h.entry hws hfind
  obtain ⟨compiled, hcompiled, -⟩ := RouteTable.compile_rebound hvs hws hsegments hcompile
  exact ⟨compiled, hcompiled⟩

/-- A request that fails leaves a compiler as it was, whatever the engine takes for patterns and
whatever was compiled and cleared before: with the same entries in the same order of use and with
the same counts, but for one more miss if the cache was asked. Nothing is stored under the key of
the request. Every later list of calls has the answers that it would have had without the request,
from the cache or not, and leaves the same behind but for that miss. -/
theorem compile_of_error [PatternEngine] {calls : List CompilerCall}
    (hc : (ofTable table settings).run calls = c) {path : String} {fault : RequestFault}
    (h : (c.compile path).1 = .error fault) :
    (c.compile path).2 = c.missed (c.consults (withoutSlash path)).toNat ∧
      (∀ key, table.keyFor (tokensOf (withoutSlash path)) = some key → key ∉ c.cache.keys) ∧
      ∀ later, (c.compile path).2.answers later = c.answers later ∧
        (c.compile path).2.run later
          = (c.run later).missed (c.consults (withoutSlash path)).toNat := by
  have hsound : c.Sound table settings := hc ▸ (sound_ofTable table settings).run calls
  obtain ⟨hmiss, hcompile⟩ := lookup_of_error h
  have hleft : (c.compile path).2 = c.missed (c.consults (withoutSlash path)).toNat :=
    hcompile.trans (lookup_of_miss hmiss)
  refine ⟨hleft, fun key hkey hstored => ?_, fun later => ?_⟩
  · obtain ⟨compiled, hcompiled⟩ := hsound.compiles_of_stored hkey hstored
    rw [hsound.fault_of_error h] at hcompiled
    cases hcompiled
  · rw [hleft]
    exact c.answers_missed _ later

/-- The table of `/model/$handle`, where a request must name the handle. -/
def namedModels : RouteTable where
  root := ⟨[("model", ⟨{ node := some (.label "model") }, ⟨[], some ("handle",
    ⟨{ prop := some (.ofToken "handle"), ret := some .items }, .empty⟩)⟩⟩)], none⟩

/-- A compiler that has compiled a request for a model. -/
def withModel : Compiler := (ofTable namedModels {}).run [.compile "/model/u"]

/-- The request without a handle fails and is one miss; the request after it is still served from
the cache. -/
theorem compile_of_error_withModel :
    (∃ fault, (withModel.compile "/model").1 = .error fault) ∧
      (withModel.compile "/model").2 = withModel.missed 1 ∧
      (withModel.compile "/model").2.answers [.compile "/model/w"]
        = withModel.answers [.compile "/model/w"] ∧
      ∃ query, withModel.answers [.compile "/model/w"] = [.ok query] ∧ query.cached = true := by
  obtain ⟨fault, hfault⟩ := exists_error_of_isNone (x := (withModel.compile "/model").1)
    (by decide +kernel)
  have hmade : (ofTable namedModels {}).run [.compile "/model/u"] = withModel := rfl
  obtain ⟨hleft, -, hlater⟩ := compile_of_error hmade hfault
  obtain ⟨query, hquery, hcached⟩ := exists_ok_of_observed (f := Query.cached) (b := true)
    (x := (withModel.compile "/model/w").1) (by decide +kernel)
  have hconsults : withModel.consults (withoutSlash "/model") = true := by decide +kernel
  rw [hconsults] at hleft
  refine ⟨⟨fault, hfault⟩, hleft, (hlater _).1, query, ?_, hcached⟩
  rw [answers, answers, hquery]

end Compiler

end CypherRoutes
