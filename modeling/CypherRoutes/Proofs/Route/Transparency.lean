/-
# The cache is transparent

Whatever was compiled or cleared before, a compiler answers a request as if it had no cache. Every
entry of the cache was compiled for some request and stands under the key that this request
resolves to; a request that hits the entry has the same key, so it is on the same route, and the
groups of the key give its own values. The last is so for every engine that reads keys as they are
meant.
-/
import CypherRoutes.Proofs.Key.Captures
import CypherRoutes.Proofs.Route.Cache
import CypherRoutes.Proofs.Route.Paths
import CypherRoutes.Proofs.Route.Rebinding

namespace CypherRoutes

/-! ## Histories -/

/-- A call that changes a compiler. -/
inductive CompilerCall where
  | compile (path : String)
  | clearCache
deriving DecidableEq

/-- The compiler after a call. -/
def Compiler.call [PatternEngine] (c : Compiler) : CompilerCall → Compiler
  | .compile path => (c.compile path).2
  | .clearCache => c.clearCache

/-- The compiler after a list of calls. -/
def Compiler.run [PatternEngine] (c : Compiler) (calls : List CompilerCall) : Compiler :=
  calls.foldl call c

/-- How a compiler of the given settings writes statements. -/
def Settings.options (settings : Settings) : StatementOptions :=
  ⟨settings.useParams, settings.terminate⟩

/-! ## What the cache holds -/

/-- The payload was compiled for a path that resolves to the key. -/
def Build.StoredAs [PatternEngine] (table : RouteTable) (settings : Settings) (key : String)
    (pattern : Pattern) (build : Build) : Prop :=
  ∃ path visits, table.root.visit (tokensOf path) = some visits ∧
    key = keyText (visits.map Visit.segment) ∧
    keyPattern? (keyText (visits.map Visit.segment)) = some pattern ∧
    table.compile settings.options (tokensOf path) = .ok build.compiled

/-- What every call keeps: the table, the settings, and that the cache holds what it should. -/
structure Compiler.Sound [PatternEngine] (table : RouteTable) (settings : Settings)
    (c : Compiler) : Prop where
  table_eq : c.table = table
  settings_eq : c.settings = settings
  cache_settings : c.cache.settings = settings.cache
  holds : c.cache.Holds (Build.StoredAs table settings)

namespace Compiler

variable {table : RouteTable} {settings : Settings} {c : Compiler}

/-- A lookup is no compile. -/
theorem builds_lookup (c : Compiler) (path : String) : (c.lookup path).2.builds = c.builds := by
  rw [Compiler.lookup]
  split_ifs
  · cases c.table.keyFor (tokensOf path) <;> rfl
  · rfl

/-- A hit: the compiler writes parameters, the path resolves, and there is a compiled request with
the same segments whose bindings the values of the path are for. -/
structure Hit (table : RouteTable) (settings : Settings) (path : String) (hit : CacheHit Build)
    (vs ws : List Visit) : Prop where
  useParams : settings.useParams = true
  visit : table.root.visit (tokensOf path) = some ws
  segments : vs.map Visit.segment = ws.map Visit.segment
  captures : hit.captures = paramTokens ws
  compiled : ∃ tokens, table.root.visit tokens = some vs ∧
    table.compile settings.options tokens = .ok hit.payload.compiled

/-- What the cache gives for a path is what a compile of the path gives, with the values rebound. -/
theorem Hit.rebound {path : String} {hit : CacheHit Build} {vs ws : List Visit}
    (h : Hit table settings path hit vs ws) :
    ∃ fresh, table.compile settings.options (tokensOf path) = .ok fresh ∧
      hit.payload.compiled.Of settings.options vs ∧ fresh.Of settings.options ws ∧
      hit.payload.compiled.Rebound hit.captures fresh := by
  obtain ⟨tokens, hvs, hcompile⟩ := h.compiled
  obtain ⟨fresh, hfresh, hrebound⟩ :=
    RouteTable.compile_rebound hvs h.visit h.segments hcompile
  obtain ⟨vs', hvs', hof⟩ := RouteTable.compiled_of hcompile
  obtain ⟨ws', hws', hof'⟩ := RouteTable.compiled_of hfresh
  obtain rfl := Option.some.inj (hvs.symm.trans hvs')
  obtain rfl := Option.some.inj (h.visit.symm.trans hws')
  exact ⟨fresh, hfresh, hof, hof', h.captures ▸ hrebound⟩

section Engine

variable [PatternEngine]

/-- A new compiler is sound. -/
theorem sound_ofTable (table : RouteTable) (settings : Settings) :
    (ofTable table settings).Sound table settings :=
  ⟨rfl, rfl, rfl, Cache.holds_ofSettings _⟩

/-- Clearing keeps a compiler sound. -/
theorem Sound.clearCache (h : c.Sound table settings) : c.clearCache.Sound table settings :=
  ⟨h.table_eq, h.settings_eq, h.cache_settings, Cache.holds_clear _⟩

/-- A lookup keeps a compiler sound. -/
theorem Sound.lookup (h : c.Sound table settings) (path : String) :
    (c.lookup path).2.Sound table settings := by
  rw [Compiler.lookup]
  split_ifs
  · cases c.table.keyFor (tokensOf path) with
    | none => exact h
    | some key =>
        exact ⟨h.table_eq, h.settings_eq, (Cache.settings_get _ _ _).trans h.cache_settings,
          h.holds.get key path⟩
  · exact h

/-- Every entry has the pattern of its key. -/
theorem Sound.patterns (h : c.Sound table settings) :
    c.cache.Holds fun key pattern _ => keyPattern? key = some pattern := by
  intro entry hentry
  obtain ⟨path, visits, -, hkey, hpattern, -⟩ := h.holds entry hentry
  rw [hkey, hpattern]

/-- What is stored under the key of a path was compiled for the same segments, and has the pattern
of the key. -/
theorem Sound.entry (h : c.Sound table settings) {path : String} {ws : List Visit}
    (hws : table.root.visit (tokensOf path) = some ws) {entry : CacheEntry Build}
    (hfind : c.cache.find? (keyText (ws.map Visit.segment)) = some entry) :
    (∃ tokens vs, table.root.visit tokens = some vs ∧
      vs.map Visit.segment = ws.map Visit.segment ∧
      table.compile settings.options tokens = .ok entry.payload.compiled) ∧
    keyPattern? (keyText (ws.map Visit.segment)) = some entry.pattern := by
  obtain ⟨hmem, hentry⟩ := Cache.mem_of_find? hfind
  obtain ⟨path', vs, hvs, hstored, hpattern, hcompile⟩ := h.holds entry hmem
  -- one key, so one list of segments
  have hsegments : vs.map Visit.segment = ws.map Visit.segment :=
    segments_of_key hvs hws (hstored.symm.trans hentry)
  exact ⟨⟨tokensOf path', vs, hvs, hsegments, hcompile⟩, hsegments ▸ hpattern⟩

/-- The pattern of what is stored under the key of a path matches the path if the values of the
parameters are words, and takes these. -/
theorem Sound.captures_iff [LawfulPatternEngine] (h : c.Sound table settings) {path : String}
    {ws : List Visit} (hws : table.root.visit (tokensOf path) = some ws)
    {entry : CacheEntry Build}
    (hfind : c.cache.find? (keyText (ws.map Visit.segment)) = some entry)
    {values : List String} :
    entry.pattern.captures path = some values
      ↔ (∀ token ∈ paramTokens ws, IsWord token) ∧ values = paramTokens ws :=
  captures_of_visit hws (h.entry hws hfind).2

/-- What a lookup hits. -/
theorem Sound.hit [LawfulPatternEngine] (h : c.Sound table settings) {path : String}
    {hit : CacheHit Build} (hhit : (c.lookup path).1 = some hit) :
    ∃ vs ws, Hit table settings path hit vs ws := by
  rw [Compiler.lookup] at hhit
  split_ifs at hhit with hcaching
  have huse : settings.useParams = true := by
    rw [caching, h.settings_eq, Bool.and_eq_true] at hcaching
    exact hcaching.1
  cases hkey : c.table.keyFor (tokensOf path) with
  | none => simp [hkey] at hhit
  | some key =>
      simp only [hkey] at hhit
      obtain ⟨entry, hfind, hcaptures, hpayload⟩ := Cache.get_eq_some hhit
      rw [h.table_eq] at hkey
      obtain ⟨ws, hws, rfl⟩ := RouteTable.keyFor_eq_some_iff.mp hkey
      obtain ⟨⟨tokens, vs, hvs, hsegments, hcompile⟩, -⟩ := h.entry hws hfind
      obtain ⟨-, hvalues⟩ := (h.captures_iff hws hfind).mp hcaptures
      exact ⟨vs, ws, huse, hws, hsegments, hvalues, tokens, hvs, hpayload ▸ hcompile⟩

/-- A compile that was not in the cache is stored under its own key. -/
theorem Sound.store (h : c.Sound table settings) {path : String} {build : Build}
    (hcompile : table.compile settings.options (tokensOf path) = .ok build.compiled) :
    (c.store build).Sound table settings := by
  refine ⟨h.table_eq, h.settings_eq, ?_, ?_⟩
  · rw [Compiler.store]
    split_ifs
    · exact (Cache.settings_insert _ _ _).trans h.cache_settings
    · exact h.cache_settings
  · rw [Compiler.store]
    split_ifs
    · refine h.holds.insert fun pattern hpattern => ?_
      obtain ⟨visits, hvisits, hof⟩ := RouteTable.compiled_of hcompile
      exact ⟨path, visits, hvisits, hof.key, hof.key ▸ hpattern, hcompile⟩
    · exact h.holds

/-! ## Compiling -/

/-- How a sound compiler writes statements. -/
theorem Sound.options_eq (h : c.Sound table settings) : c.options = settings.options := by
  rw [options, h.settings_eq, Settings.options]

/-- A compile either hits the cache, or is refused or kept as if there were no cache. -/
theorem Sound.compile_cases (h : c.Sound table settings) (path : String) :
    (∃ hit, (c.lookup (withoutSlash path)).1 = some hit ∧
      c.compile path
        = (.ok (.rebind hit.payload hit.captures), (c.lookup (withoutSlash path)).2)) ∨
    (∃ fault, table.compile settings.options (tokensOf (withoutSlash path)) = .error fault ∧
      c.compile path = (.error fault, (c.lookup (withoutSlash path)).2)) ∨
    ∃ build : Build, build.serial = c.builds ∧
      table.compile settings.options (tokensOf (withoutSlash path)) = .ok build.compiled ∧
      c.compile path = (.ok (.fresh build), (c.lookup (withoutSlash path)).2.store build) := by
  have hlookup := h.lookup (withoutSlash path)
  have hbuilds := c.builds_lookup (withoutSlash path)
  rw [compile]
  generalize c.lookup (withoutSlash path) = result at hlookup hbuilds ⊢
  obtain ⟨hit, c'⟩ := result
  simp only at hlookup hbuilds ⊢
  cases hit with
  | some hit => exact .inl ⟨hit, rfl, rfl⟩
  | none =>
      simp only [hlookup.table_eq, hlookup.options_eq]
      cases htable : table.compile settings.options (tokensOf (withoutSlash path)) with
      | error fault => exact .inr (.inl ⟨fault, rfl, rfl⟩)
      | ok compiled => exact .inr (.inr ⟨⟨c'.builds, compiled⟩, hbuilds, rfl, rfl⟩)

/-- Compiling keeps a compiler sound. -/
theorem Sound.compile (h : c.Sound table settings) (path : String) :
    (c.compile path).2.Sound table settings := by
  have hlookup := h.lookup (withoutSlash path)
  rcases h.compile_cases path with ⟨hit, -, hc⟩ | ⟨fault, -, hc⟩ | ⟨build, -, hbuild, hc⟩
  · rw [hc]
    exact hlookup
  · rw [hc]
    exact hlookup
  · rw [hc]
    exact hlookup.store hbuild

/-- Every history keeps a compiler sound. -/
theorem Sound.run (h : c.Sound table settings) (calls : List CompilerCall) :
    (c.run calls).Sound table settings := by
  induction calls generalizing c with
  | nil => exact h
  | cons call rest ih =>
      refine ih (c := c.call call) ?_
      cases call with
      | compile path => exact h.compile path
      | clearCache => exact h.clearCache

/-- A sound compiler answers a request as a compile of its tokens does. -/
theorem Sound.answers [LawfulPatternEngine] (h : c.Sound table settings) (path : String) :
    SameOutcome Eq Query.Answers (c.compile path).1
      (table.compile settings.options (tokensOf (withoutSlash path))) := by
  rcases h.compile_cases path with ⟨hit, hhit, hc⟩ | ⟨fault, hfault, hc⟩ |
    ⟨build, -, hbuild, hc⟩
  · -- the entry was compiled for another path on the route
    obtain ⟨vs, ws, hon⟩ := h.hit hhit
    obtain ⟨fresh, hfresh, hof, hof', hrebound⟩ := hon.rebound
    rw [hc, hfresh]
    exact .ok (Query.rebind_answers hof hof' hon.useParams hrebound hit.payload.serial)
  · rw [hc, hfault]
    exact .error rfl
  · rw [hc, hbuild]
    exact .ok (Query.fresh_answers hbuild build.serial)

end Engine

/-- Let the engine read keys as they are meant. Whatever was compiled or cleared before, a request
is answered as the table alone answers its tokens: with the same fault, or with the same text, key
and path and with the same value at every placeholder of the text. -/
theorem compile_answers [PatternEngine] [LawfulPatternEngine] (table : RouteTable)
    (settings : Settings) (calls : List CompilerCall) (path : String) :
    SameOutcome Eq Query.Answers (((ofTable table settings).run calls).compile path).1
      (table.compile settings.options (tokensOf (withoutSlash path))) :=
  ((sound_ofTable table settings).run calls).answers path

/-- The table of `/v1.0/$kind/$handle`, where the first parameter sets a property to a value of the
table, and the second one sets the property `handle`. -/
def pinned : RouteTable where
  root := ⟨[("v1.0", ⟨{ node := some (.label "model") }, ⟨[], some ("kind",
    ⟨{ prop := some (.fixed "kind" (.string "public")) }, ⟨[], some ("handle",
      ⟨{ prop := some (.ofToken "handle"), ret := some .items }, .empty⟩)⟩⟩)⟩⟩)], none⟩

/-- The second request on the route is answered from the cache as a compile of its tokens answers
it. Its value is what the second group takes; the first group stands for a token that sets
nothing. -/
theorem compile_answers_pinned :
    ∃ q fresh,
      (((ofTable pinned {}).run [.compile "/v1.0/a/u"]).compile "/v1.0/b/w").1 = .ok q ∧
        (q.cached, (q.params.get? "p1").bind Value.string?) = (true, some "w") ∧
        pinned.compile (Settings.options {}) (tokensOf (withoutSlash "/v1.0/b/w")) = .ok fresh ∧
        q.Answers fresh := by
  obtain ⟨q, hq, hobserved⟩ := exists_ok_of_observed
    (f := fun q => (q.cached, (q.params.get? "p1").bind Value.string?)) (b := (true, some "w"))
    (x := (((ofTable pinned {}).run [.compile "/v1.0/a/u"]).compile "/v1.0/b/w").1)
    (by decide +kernel)
  obtain ⟨fresh, hfresh, -⟩ := exists_ok_of_observed (f := fun _ => ()) (b := ())
    (x := pinned.compile (Settings.options {}) (tokensOf (withoutSlash "/v1.0/b/w")))
    (by decide +kernel)
  have hanswers := compile_answers pinned {} [.compile "/v1.0/a/u"] "/v1.0/b/w"
  rw [hq, hfresh] at hanswers
  cases hanswers with
  | ok hanswer => exact ⟨q, fresh, hq, hobserved, hfresh, hanswer⟩

end Compiler

end CypherRoutes
