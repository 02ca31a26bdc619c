/-
# The parameters of a cached query

A query from the cache has a parameter for every binding of its route, and a fresh one only for
the properties that its statement shows. The two agree exactly if every binding's property is
still there at the end of the route (`params_of_cached`): it is not if a later step attaches a
property of the same handle to the same node, or puts another entity in the place of the node.
-/
import CypherRoutes.Proofs.Route.Transparency

namespace CypherRoutes

namespace Query

/-- The names of rebound parameters, when there is a capture for every binding. -/
theorem mem_names_rebindParams {captures : List String} {bindings : List Binding}
    (hnodup : (bindings.map Binding.var).Nodup)
    (hcapture : ∀ b ∈ bindings, b.capture < captures.length) (params : Params) (v : String) :
    v ∈ (rebindParams params captures bindings).names
      ↔ v ∈ params.names ∨ ∃ b ∈ bindings, b.var = v := by
  rw [Params.mem_names_iff, Params.mem_names_iff, get?_rebindParams captures hnodup]
  by_cases hbound : ∃ b ∈ bindings, b.var = v
  · have hsome : (rebound captures bindings v).isSome := by
      rw [rebound]
      cases hfind : bindings.find? (·.var == v) with
      | none =>
          obtain ⟨b, hb, hvar⟩ := hbound
          exact absurd hvar (by simpa using List.find?_eq_none.mp hfind b hb)
      | some b =>
          have hlt := hcapture b (List.mem_of_find?_eq_some hfind)
          rw [Option.bind_some, List.getElem?_eq_getElem hlt]
          rfl
    obtain ⟨token, htoken⟩ := Option.isSome_iff_exists.mp hsome
    simp [htoken, hbound]
  · rw [rebound_eq_none fun b hb hvar => hbound ⟨b, hb, hvar⟩]
    simp [hbound]

/-- The value of a parameter is missing if it has no binding, or if the query has no value for the
variable of the first one. -/
theorem param?_eq_none_iff (q : Query) (name : String) :
    q.param? name = none ↔
      ∀ b, q.build.compiled.bindings.find? (·.name == name) = some b →
        b.var ∉ q.params.names := by
  rw [param?]
  cases q.build.compiled.bindings.find? (·.name == name) with
  | none => simp
  | some b => simp [Params.mem_names_iff]

end Query

namespace Compiler

/-- A query from the cache, with the compile that its request would get without a cache. -/
theorem Sound.cached [PatternEngine] [LawfulPatternEngine] {table : RouteTable}
    {settings : Settings} {c : Compiler} (h : c.Sound table settings) {path : String} {q : Query}
    (hq : (c.compile path).1 = .ok q) (hcached : q.cached = true) :
    ∃ fresh captures, table.compile settings.options (tokensOf (withoutSlash path)) = .ok fresh ∧
      fresh.bindings = q.build.compiled.bindings ∧
      q.params = Query.rebindParams q.statement.params captures fresh.bindings ∧
      (∀ v, v ∈ q.statement.params.names ↔ v ∈ fresh.statement.params.names) ∧
      (fresh.bindings.map Binding.var).Nodup ∧
      ∀ b ∈ fresh.bindings, b.capture < captures.length := by
  rcases h.compile_cases path with ⟨hit, hhit, hc⟩ | ⟨fault, -, hc⟩ | ⟨build, -, -, hc⟩
  · obtain ⟨vs, ws, hon⟩ := h.hit hhit
    obtain ⟨fresh, hfresh, hof, hof', hrebound⟩ := hon.rebound
    rw [hc] at hq
    obtain rfl := Except.ok.inj hq
    refine ⟨fresh, hit.captures, hfresh, hrebound.bindings, ?_, fun v => ?_, hof'.nodup, ?_⟩
    · rw [hrebound.bindings]
      rfl
    · rw [hof'.faithful.mem_names_iff, hrebound.placeholders]
      exact hof.faithful.mem_names_iff v
    · rw [hon.captures]
      exact hof'.capture
  · rw [hc] at hq
    cases hq
  · rw [hc] at hq
    obtain rfl := Except.ok.inj hq
    cases hcached

/-- Let the engine read keys as they are meant. Whatever was compiled or cleared before, a query
from the cache has the parameters of a fresh compile of its path and those of the route's bindings.
So it drops none; it adds none exactly if every binding's property is in the statement; and `param?`
finds a value where a fresh query finds one, except for a name whose property is not in the
statement. -/
theorem params_of_cached [PatternEngine] [LawfulPatternEngine] {table : RouteTable}
    {settings : Settings} {calls : List CompilerCall} {path : String} {q : Query}
    (hq : (((ofTable table settings).run calls).compile path).1 = .ok q)
    (hcached : q.cached = true) :
    ∃ fresh : Build,
      table.compile settings.options (tokensOf (withoutSlash path)) = .ok fresh.compiled ∧
      (∀ v, v ∈ q.params.names ↔ v ∈ (Query.fresh fresh).params.names ∨
        ∃ b ∈ fresh.compiled.bindings, b.var = v) ∧
      ((∀ v, v ∈ q.params.names ↔ v ∈ (Query.fresh fresh).params.names) ↔
        ∀ b ∈ fresh.compiled.bindings, b.var ∈ (Query.fresh fresh).params.names) ∧
      ∀ name, (q.param? name = none ↔ (Query.fresh fresh).param? name = none) ↔
        ∀ b, fresh.compiled.bindings.find? (·.name == name) = some b →
          b.var ∈ (Query.fresh fresh).params.names := by
  obtain ⟨fresh, captures, hfresh, hbindings, hparams, hnames, hnodup, hcapture⟩ :=
    ((sound_ofTable table settings).run calls).cached hq hcached
  have hmem : ∀ v, v ∈ q.params.names ↔ v ∈ fresh.statement.params.names ∨
      ∃ b ∈ fresh.bindings, b.var = v := by
    intro v
    rw [hparams, Query.mem_names_rebindParams hnodup hcapture, hnames]
  refine ⟨⟨0, fresh⟩, hfresh, hmem, ?_, fun name => ?_⟩
  · constructor
    · intro h b hb
      exact (h b.var).mp ((hmem b.var).mpr (.inr ⟨b, hb, rfl⟩))
    · intro h v
      rw [hmem]
      refine ⟨fun hv => hv.elim id ?_, .inl⟩
      rintro ⟨b, hb, rfl⟩
      exact h b hb
  · -- both look for the first binding of the name; the query from the cache has its value
    rw [Query.param?_eq_none_iff, Query.param?_eq_none_iff, ← hbindings]
    show _ ↔ ∀ b, fresh.bindings.find? (·.name == name) = some b →
      b.var ∈ fresh.statement.params.names
    cases hfind : fresh.bindings.find? (·.name == name) with
    | none => simp [hfind, Query.fresh]
    | some b =>
        have hb : b.var ∈ q.params.names :=
          (hmem b.var).mpr (.inr ⟨b, List.mem_of_find?_eq_some hfind, rfl⟩)
        simp [hfind, hb, Query.fresh]

/-! ## A parameter too many -/

/-- The table of `/model/$a/$b`, where both parameters set the property `handle` of the model. -/
def twiceSet : RouteTable where
  root := ⟨[("model",
    ⟨{ node := some (.label "model") }, ⟨[], some ("a",
      ⟨{ prop := some (.ofToken "handle") }, ⟨[], some ("b",
        ⟨{ prop := some (.ofToken "handle"), ret := some .items }, .empty⟩)⟩⟩)⟩⟩)], none⟩

/-- What is seen of a query: whether it is from the cache, the names of its parameters, and
whether the route's parameter `a` has a value. -/
def observe (q : Query) : Bool × List String × Bool :=
  (q.cached, q.params.names, (q.param? "a").isSome)

/-- The second request on the route has a parameter `p0` that its text does not show, and a value
for `a`, which the same request has not when it is compiled. -/
theorem cached_twiceSet :
    (∃ q, (((ofTable twiceSet {}).run [.compile "/model/x/y"]).compile "/model/u/v").1 = .ok q ∧
      observe q = (true, ["p0", "p1"], true)) ∧
    ∃ q, ((ofTable twiceSet {}).compile "/model/u/v").1 = .ok q ∧
      observe q = (false, ["p1"], false) :=
  ⟨exists_ok_of_observed (by decide +kernel), exists_ok_of_observed (by decide +kernel)⟩

/-- The characterization at this request. -/
theorem params_of_cached_twiceSet :
    ∃ q, (((ofTable twiceSet {}).run [.compile "/model/x/y"]).compile "/model/u/v").1 = .ok q ∧
      q.cached = true ∧ ∃ fresh : Build,
        twiceSet.compile (Settings.options {}) (tokensOf (withoutSlash "/model/u/v"))
          = .ok fresh.compiled ∧
        ((∀ v, v ∈ q.params.names ↔ v ∈ (Query.fresh fresh).params.names) ↔
          ∀ b ∈ fresh.compiled.bindings, b.var ∈ (Query.fresh fresh).params.names) := by
  obtain ⟨q, hq, hcached⟩ := exists_ok_of_observed (f := Query.cached) (b := true)
    (x := (((ofTable twiceSet {}).run [.compile "/model/x/y"]).compile "/model/u/v").1)
    (by decide +kernel)
  obtain ⟨fresh, hfresh, -, hagree, -⟩ := params_of_cached hq hcached
  exact ⟨q, hq, hcached, fresh, hfresh, hagree⟩

end Compiler

end CypherRoutes
