/-
# Requests that are served from the cache

A request is served from the cache exactly if its tokens resolve to a key that is stored and the
value of every parameter is a word (`Compiler.Sound.cached_iff`). What it is served is the statement
of the latest query that was compiled anew under this key: a compile puts its statement in the place
of the one before, and no call gives an entry another one (`Compiler.Recorded`).
-/
import CypherRoutes.Proofs.Route.Keys
import CypherRoutes.Proofs.Route.Recency
import CypherRoutes.Proofs.Route.Transparency

namespace CypherRoutes

/-! ## When a lookup hits -/

/-- The tokens resolve to a key that is stored, and the value of every parameter is a word. -/
structure RouteTable.Serves (table : RouteTable) (cache : Cache Build) (tokens : List String)
    (visits : List Visit) (key : String) : Prop where
  visit : table.root.visit tokens = some visits
  keyFor : table.keyFor tokens = some key
  stored : key ∈ cache.keys
  words : ∀ token ∈ paramTokens visits, IsWord token

namespace Compiler

variable {table : RouteTable} {settings : Settings} {c : Compiler}

section Engine

variable [PatternEngine]

/-- A sound compiler uses its cache if it writes parameters and the cache is enabled. -/
theorem Sound.caching_eq (h : c.Sound table settings) (huse : settings.useParams = true)
    (henabled : settings.cache.enabled = true) : c.caching = true := by
  rw [caching, h.settings_eq, h.cache_settings, huse, henabled]
  rfl

/-- A path is looked up under the key of its tokens. -/
theorem Sound.lookup_eq (h : c.Sound table settings) (huse : settings.useParams = true)
    (henabled : settings.cache.enabled = true) {path key : String}
    (hkey : table.keyFor (tokensOf path) = some key) :
    (c.lookup path).1 = (c.cache.get key path).1 := by
  rw [Compiler.lookup, if_pos (h.caching_eq huse henabled), h.table_eq, hkey]

/-- A path that does not resolve is not found. -/
theorem Sound.lookup_eq_none (h : c.Sound table settings) {path : String}
    (hkey : table.keyFor (tokensOf path) = none) : (c.lookup path).1 = none := by
  rw [Compiler.lookup, h.table_eq, hkey]
  split_ifs <;> rfl

/-- A lookup hits exactly if the tokens resolve to a stored key and the values of the parameters
are words. These are what it captures. -/
theorem Sound.lookup_eq_some_iff [LawfulPatternEngine] (h : c.Sound table settings)
    (huse : settings.useParams = true) (henabled : settings.cache.enabled = true)
    {path : String} {hit : CacheHit Build} :
    (c.lookup path).1 = some hit ↔
      ∃ visits key entry, table.Serves c.cache (tokensOf path) visits key ∧
        c.cache.find? key = some entry ∧ hit = ⟨key, entry.payload, paramTokens visits⟩ := by
  have henabled' : c.cache.settings.enabled = true := by rw [h.cache_settings, henabled]
  cases hkey : table.keyFor (tokensOf path) with
  | none =>
      rw [h.lookup_eq_none hkey]
      constructor
      · intro hhit
        cases hhit
      · rintro ⟨visits, key, entry, hserves, -, -⟩
        exact absurd (hkey.symm.trans hserves.keyFor) (by simp)
  | some key =>
      obtain ⟨visits, hvisits, rfl⟩ := RouteTable.keyFor_eq_some_iff.mp hkey
      rw [h.lookup_eq huse henabled hkey]
      constructor
      · intro hhit
        obtain ⟨entry, values, hfind, hvalues, rfl⟩ := (Cache.get_eq_some_iff henabled').mp hhit
        obtain ⟨hwords, rfl⟩ := (h.captures_iff hvisits hfind).mp hvalues
        refine ⟨visits, _, entry, ⟨hvisits, hkey, ?_, hwords⟩, hfind, rfl⟩
        exact Cache.isSome_find?_iff.mp (by rw [hfind]; rfl)
      · rintro ⟨visits', key', entry, hserves, hfind, rfl⟩
        obtain rfl := Option.some.inj (hvisits.symm.trans hserves.visit)
        obtain rfl := Option.some.inj (hkey.symm.trans hserves.keyFor)
        have hvalues := (h.captures_iff hvisits hfind).mpr ⟨hserves.words, rfl⟩
        exact (Cache.get_eq_some_iff henabled').mpr ⟨entry, _, hfind, hvalues, rfl⟩

/-- A query is from the cache exactly if the lookup of its path hits. -/
theorem cached_iff_lookup {path : String} {q : Query} :
    (c.compile path).1 = .ok q ∧ q.cached = true ↔
      ∃ hit, (c.lookup (withoutSlash path)).1 = some hit ∧
        q = .rebind hit.payload hit.captures := by
  rw [compile]
  generalize c.lookup (withoutSlash path) = result
  obtain ⟨hit, c'⟩ := result
  cases hit with
  | some hit =>
      simp only [Except.ok.injEq, Option.some.injEq, exists_eq_left']
      constructor
      · rintro ⟨rfl, -⟩
        rfl
      · rintro rfl
        exact ⟨rfl, rfl⟩
  | none =>
      constructor
      · rintro ⟨hq, hcached⟩
        simp only at hq
        cases htable : c'.table.compile c'.options (tokensOf (withoutSlash path)) with
        | error fault =>
            rw [htable] at hq
            cases hq
        | ok compiled =>
            rw [htable] at hq
            obtain rfl := Except.ok.inj hq
            cases hcached
      · rintro ⟨hit, hhit, -⟩
        cases hhit

/-- A query is from the cache exactly if the tokens resolve to a stored key and the values of the
parameters are words. It is the stored statement with these values. -/
theorem Sound.cached_iff [LawfulPatternEngine] (h : c.Sound table settings)
    (huse : settings.useParams = true) (henabled : settings.cache.enabled = true)
    {path : String} {q : Query} :
    (c.compile path).1 = .ok q ∧ q.cached = true ↔
      ∃ visits key entry, table.Serves c.cache (tokensOf (withoutSlash path)) visits key ∧
        c.cache.find? key = some entry ∧ q = .rebind entry.payload (paramTokens visits) := by
  rw [cached_iff_lookup]
  constructor
  · rintro ⟨hit, hhit, rfl⟩
    obtain ⟨visits, key, entry, hserves, hfind, rfl⟩ :=
      (h.lookup_eq_some_iff huse henabled).mp hhit
    exact ⟨visits, key, entry, hserves, hfind, rfl⟩
  · rintro ⟨visits, key, entry, hserves, hfind, rfl⟩
    exact ⟨_, (h.lookup_eq_some_iff huse henabled).mpr ⟨visits, key, entry, hserves, hfind, rfl⟩,
      rfl⟩

end Engine

/-! ## The record of what was compiled -/

/-- The query that a call compiles anew, and not from the cache. -/
def newQuery? [PatternEngine] (c : Compiler) : CompilerCall → Option Query
  | .compile path => (c.compile path).1.toOption.filter (!·.cached)
  | .clearCache => none

/-- The queries that a list of calls compiles anew, the latest first. -/
def record [PatternEngine] (c : Compiler) : List CompilerCall → List Query
  | [] => []
  | call :: rest => (c.call call).record rest ++ (c.newQuery? call).toList

/-- The latest query of a record under a key. -/
def latest? (record : List Query) (key : String) : Option Query :=
  record.find? (·.build.compiled.key == key)

/-- Every entry is what the latest query under its key was compiled to, and no two queries were
compiled at once. -/
structure Recorded (record : List Query) (c : Compiler) : Prop where
  stored : c.cache.Holds fun key _ build => latest? record key = some (.fresh build)
  past : ∀ q ∈ record, q.build.serial < c.builds
  distinct : (record.map fun q => q.build.serial).Nodup

/-- The latest query under a key has this key and is on the record. -/
theorem of_latest? {record : List Query} {key : String} {q : Query}
    (h : latest? record key = some q) : q ∈ record ∧ q.build.compiled.key = key := by
  rw [latest?] at h
  have hkey := List.find?_some h
  exact ⟨List.mem_of_find?_eq_some h, by simpa using hkey⟩

/-- A query under another key is not the latest one under a key. -/
theorem latest?_cons_of_ne {record : List Query} {key : String} {build : Build}
    (h : key ≠ build.compiled.key) :
    latest? (.fresh build :: record) key = latest? record key :=
  List.find?_cons_of_neg (by simpa [Query.fresh] using Ne.symm h)

namespace Recorded

variable {record : List Query}

/-- Nothing is on the record of a new compiler. -/
theorem ofTable (table : RouteTable) (settings : Settings) :
    Recorded [] (ofTable table settings) :=
  ⟨Cache.holds_ofSettings _, fun _ h => absurd h List.not_mem_nil, List.nodup_nil⟩

/-- Clearing takes nothing off the record. -/
theorem clearCache (h : Recorded record c) : Recorded record c.clearCache :=
  ⟨Cache.holds_clear _, h.past, h.distinct⟩

/-- A lookup changes no entry. -/
theorem lookup (h : Recorded record c) (path : String) : Recorded record (c.lookup path).2 := by
  rw [Compiler.lookup]
  split_ifs
  · cases c.table.keyFor (tokensOf path) with
    | none => exact h
    | some key => exact ⟨h.stored.get key path, h.past, h.distinct⟩
  · exact h

/-- Only the query itself shares its statement. -/
theorem serial_eq_iff (h : Recorded record c) {q r : Query} (hq : q ∈ record) (hr : r ∈ record) :
    q.build.serial = r.build.serial ↔ r = q :=
  ⟨fun hsame => (List.inj_on_of_nodup_map h.distinct hq hr hsame).symm, fun hsame => by rw [hsame]⟩

variable [PatternEngine]

/-- A compile takes the place of what was stored under its key, and is the latest one under it. If
the engine refuses the key, nothing is stored under it before and after the compile. -/
theorem store (h : Recorded record c) (hcaching : c.caching = true)
    (hpatterns : c.cache.Holds fun key pattern _ => keyPattern? key = some pattern)
    {build : Build} (hserial : build.serial = c.builds) :
    Recorded (.fresh build :: record) (c.store build) where
  stored := by
    have henabled : c.cache.settings.enabled = true := by
      rw [caching, Bool.and_eq_true] at hcaching
      exact hcaching.2
    rw [Compiler.store, if_pos hcaching]
    cases hpattern : keyPattern? build.compiled.key with
    | some pattern =>
        refine h.stored.insert_replacing henabled hpattern ?_ fun key _ value hne hlatest => ?_
        · exact List.find?_cons_of_pos (beq_self_eq_true _)
        · rw [latest?_cons_of_ne hne, hlatest]
    | none =>
        rw [Cache.insert_eq_self hpattern]
        intro entry hentry
        have hne : entry.key ≠ build.compiled.key := by
          intro hkey
          have hsome := hpatterns entry hentry
          rw [hkey, hpattern] at hsome
          cases hsome
        rw [latest?_cons_of_ne hne, h.stored entry hentry]
  past := by
    intro q hq
    show q.build.serial < c.builds + 1
    rcases List.mem_cons.mp hq with rfl | hq
    · exact Nat.lt_succ_of_le hserial.le
    · have hpast := h.past q hq
      omega
  distinct := by
    rw [List.map_cons, List.nodup_cons]
    refine ⟨fun hmem => ?_, h.distinct⟩
    obtain ⟨q, hq, hsame⟩ := List.mem_map.mp hmem
    have hpast := h.past q hq
    rw [hsame, show (Query.fresh build).build.serial = build.serial from rfl, hserial] at hpast
    exact lt_irrefl _ hpast

/-- A call puts what it compiles anew on the record. -/
theorem call (h : Recorded record c) (hsound : c.Sound table settings)
    (huse : settings.useParams = true) (henabled : settings.cache.enabled = true)
    (call : CompilerCall) : Recorded ((c.newQuery? call).toList ++ record) (c.call call) := by
  cases call with
  | clearCache => exact h.clearCache
  | compile path =>
      have hlookup := h.lookup (withoutSlash path)
      rw [newQuery?, Compiler.call]
      rcases hsound.compile_cases path with
        ⟨hit, -, hc⟩ | ⟨fault, -, hc⟩ | ⟨build, hserial, hbuild, hc⟩
      · rw [hc]
        exact hlookup
      · rw [hc]
        exact hlookup
      · have hsound' := hsound.lookup (withoutSlash path)
        rw [hc]
        refine hlookup.store (hsound'.caching_eq huse henabled) hsound'.patterns ?_
        rw [builds_lookup, hserial]

/-- Everything that a list of calls compiles anew is put on the record. -/
theorem run (h : Recorded record c) (hsound : c.Sound table settings)
    (huse : settings.useParams = true) (henabled : settings.cache.enabled = true)
    (calls : List CompilerCall) : Recorded (c.record calls ++ record) (c.run calls) := by
  induction calls generalizing c record with
  | nil => exact h
  | cons call rest ih =>
      have hstep := h.call hsound huse henabled call
      rw [Compiler.record, List.append_assoc]
      exact ih hstep (hsound.run [call])

end Recorded

/-! ## What is served -/

/-- Let a compiler write parameters and use its cache, whatever it has compiled and cleared before,
and let the engine read keys as they are meant. A request is served from the cache exactly if its
tokens resolve to a key that is stored and the value of every parameter is a word. The lookup then
captures these values, in the order of the path, and the query shares the statement of one query
that was compiled anew: the latest under this key. -/
theorem served_from_cache [PatternEngine] [LawfulPatternEngine] (table : RouteTable)
    {settings : Settings} (huse : settings.useParams = true)
    (henabled : settings.cache.enabled = true) (calls : List CompilerCall) (path : String) :
    ((∃ q, (((ofTable table settings).run calls).compile path).1 = .ok q ∧ q.cached = true) ↔
      ∃ visits key, table.Serves ((ofTable table settings).run calls).cache
        (tokensOf (withoutSlash path)) visits key) ∧
    ∀ q, (((ofTable table settings).run calls).compile path).1 = .ok q → q.cached = true →
      ∃ visits key latest, table.Serves ((ofTable table settings).run calls).cache
          (tokensOf (withoutSlash path)) visits key ∧
        latest? ((ofTable table settings).record calls) key = some latest ∧
        (((ofTable table settings).run calls).lookup (withoutSlash path)).1
          = some ⟨key, latest.build, paramTokens visits⟩ ∧
        q = .rebind latest.build (paramTokens visits) ∧
        ∀ r ∈ (ofTable table settings).record calls, q.sharesStatement r = true ↔ r = latest := by
  have hsound := (sound_ofTable table settings).run calls
  have hrecorded := (Recorded.ofTable table settings).run (sound_ofTable table settings) huse
    henabled calls
  rw [List.append_nil] at hrecorded
  constructor
  · constructor
    · rintro ⟨q, hq⟩
      obtain ⟨visits, key, entry, hserves, -, -⟩ := (hsound.cached_iff huse henabled).mp hq
      exact ⟨visits, key, hserves⟩
    · rintro ⟨visits, key, hserves⟩
      obtain ⟨entry, hfind⟩ :=
        Option.isSome_iff_exists.mp (Cache.isSome_find?_iff.mpr hserves.stored)
      exact ⟨_, (hsound.cached_iff huse henabled).mpr ⟨visits, key, entry, hserves, hfind, rfl⟩⟩
  · intro q hq hcached
    obtain ⟨visits, key, entry, hserves, hfind, rfl⟩ :=
      (hsound.cached_iff huse henabled).mp ⟨hq, hcached⟩
    obtain ⟨hentry, rfl⟩ := Cache.mem_of_find? hfind
    have hlatest := hrecorded.stored entry hentry
    obtain ⟨hmem, -⟩ := of_latest? hlatest
    refine ⟨visits, entry.key, .fresh entry.payload, hserves, hlatest, ?_, rfl, fun r hr => ?_⟩
    · exact (hsound.lookup_eq_some_iff huse henabled).mpr
        ⟨visits, entry.key, entry, hserves, hfind, rfl⟩
    · rw [Query.sharesStatement, beq_iff_eq]
      exact hrecorded.serial_eq_iff hmem hr

/-- The table of `/v1.0/$handle/$version`, where both parameters set properties of the model. -/
def versioned : RouteTable where
  root := ⟨[("v1.0", ⟨{ node := some (.label "model") }, ⟨[], some ("handle",
    ⟨{ prop := some (.ofToken "handle") }, ⟨[], some ("version",
      ⟨{ prop := some (.ofToken "version"), ret := some .items }, .empty⟩)⟩⟩)⟩⟩)], none⟩

/-- One route is compiled before the cache is cleared, and twice after it. -/
def recompiled : List CompilerCall :=
  [.compile "/v1.0/a/1", .clearCache, .compile "/v1.0/a/1", .compile "/v1.0/a-b/1"]

/-- A request for words is served the statement of the third compile, with its words; and the
request for what is no word is not served, though its key is stored. -/
theorem served_from_cache_versioned :
    ({} : Settings).useParams = true ∧ ({} : Settings).cache.enabled = true ∧
      (∃ q, (((ofTable versioned {}).run recompiled).compile "/v1.0/b/2").1 = .ok q ∧
        q.cached = true ∧ q.build.serial = 2 ∧
        ∃ hit, (((ofTable versioned {}).run recompiled).lookup "v1.0/b/2").1 = some hit ∧
          hit.captures = ["b", "2"]) ∧
      ¬ ∃ q, (((ofTable versioned {}).run recompiled).compile "/v1.0/a-b/1").1 = .ok q ∧
        q.cached = true := by
  have huse : ({} : Settings).useParams = true := rfl
  have henabled : ({} : Settings).cache.enabled = true := rfl
  refine ⟨huse, henabled, ?_, ?_⟩
  · obtain ⟨-, hserved⟩ := served_from_cache versioned huse henabled recompiled "/v1.0/b/2"
    obtain ⟨q, hq, hcached⟩ := exists_ok_of_observed (f := Query.cached) (b := true)
      (x := (((ofTable versioned {}).run recompiled).compile "/v1.0/b/2").1) (by decide +kernel)
    obtain ⟨visits, key, latest, hserves, hlatest, hlookup, rfl, -⟩ := hserved q hq hcached
    have hkey : versioned.keyFor (tokensOf (withoutSlash "/v1.0/b/2"))
        = some "v1\\.0/([a-zA-Z0-9_]+)/([a-zA-Z0-9_]+)" := by
      decide +kernel
    obtain rfl := Option.some.inj (hkey.symm.trans hserves.keyFor)
    have hserial : (latest? ((ofTable versioned {}).record recompiled)
        "v1\\.0/([a-zA-Z0-9_]+)/([a-zA-Z0-9_]+)").map (·.build.serial) = some 2 := by
      decide +kernel
    rw [hlatest] at hserial
    have hvalues : (versioned.root.visit (tokensOf (withoutSlash "/v1.0/b/2"))).map paramTokens
        = some ["b", "2"] := by
      decide +kernel
    rw [hserves.visit] at hvalues
    exact ⟨_, hq, rfl, Option.some.inj hserial, _, hlookup, Option.some.inj hvalues⟩
  · obtain ⟨hserved, -⟩ := served_from_cache versioned huse henabled recompiled "/v1.0/a-b/1"
    rw [hserved]
    rintro ⟨visits, key, hserves⟩
    have hvalues : (versioned.root.visit (tokensOf (withoutSlash "/v1.0/a-b/1"))).map paramTokens
        = some ["a-b", "1"] := by
      decide +kernel
    rw [hserves.visit] at hvalues
    have hvalue : "a-b" ∈ paramTokens visits := by
      rw [Option.some.inj hvalues]
      exact List.mem_cons_self
    obtain ⟨-, hall⟩ := hserves.words "a-b" hvalue
    exact absurd (hall '-' (by decide)) (by decide)

end Compiler

end CypherRoutes
