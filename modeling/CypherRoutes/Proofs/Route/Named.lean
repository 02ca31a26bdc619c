/-
# Named returns

A route that returns a name returns the nodes of the matched entity that have the name for a label,
each once, and no relationship, whatever its type (`RouteTable.compile_named`). The entity of a
route has one node more than it has relationships, so a single triple has two different nodes, and
the nodes of a path are listed by variable.
-/
import CypherRoutes.Proofs.Route.Scope

namespace CypherRoutes

/-! ## As many nodes as a tree has -/

/-- A level without an `_edge` declares one node more than it declares relationships. -/
theorem NodeSpec.nodeCount_eq (spec : NodeSpec) : spec.nodeCount = spec.edgeCount + 1 := by
  induction spec with
  | linked name prop edge target ih => rw [nodeCount, edgeCount, ih]
  | label => rfl
  | unlabelled => rfl
  | block => rfl

/-- Levels that are all joined to what was before them declare as many nodes as relationships. -/
theorem nodesIn_eq_edgesIn {introduced : List Introduction}
    (h : ∀ x ∈ introduced, x.edge.isSome) : nodesIn introduced = edgesIn introduced := by
  induction introduced with
  | nil => rfl
  | cons x rest ih =>
      have hx := h x List.mem_cons_self
      rw [nodesIn_cons, edgesIn_cons, ih fun y hy => h y (List.mem_cons_of_mem _ hy),
        Introduction.edgeCount, if_pos hx, x.node.nodeCount_eq]

namespace Entity

variable {visits : List Visit} {e : Entity}

/-- An entity of a route has one node more than it has relationships. -/
theorem ReachedBy.length_vars (h : e.ReachedBy visits) :
    (e.nodeCopies.map Node.var).dedup.length = e.edgeCopies.length + 1 := by
  obtain ⟨earlier, first, later, -, hfirst, hlater, hnodes, hedges⟩ := h.declared
  have hone : first.edgeCount = first.node.edgeCount := by
    rw [Introduction.edgeCount, hfirst, if_neg (by decide), Nat.add_zero]
  rw [hnodes, hedges, nodesIn_cons, edgesIn_cons, nodesIn_eq_edgesIn hlater, hone,
    first.node.nodeCount_eq, Nat.add_right_comm]

/-- No two of its nodes have one variable. -/
theorem ReachedBy.nodup_nodes (h : e.ReachedBy visits) : (e.nodes.map Node.var).Nodup := by
  rcases h.connected.shape with ⟨n, rfl⟩ | ⟨t, rfl⟩ | ⟨g, rfl, -⟩
  · exact List.nodup_singleton _
  · -- with equal variables there would be one node for one relationship
    refine List.nodup_cons.mpr ⟨fun hvar => ?_, List.nodup_singleton _⟩
    have hlength : (t.source.var :: [t.target].map Node.var).dedup.length = 2 := h.length_vars
    rw [List.dedup_cons_of_mem hvar] at hlength
    exact absurd hlength (by simp)
  · exact nodup_map_distinctBy _ _ _

/-- Its nodes are all the copies. -/
theorem ReachedBy.mem_nodes_iff (h : e.ReachedBy visits) {n : Node} :
    n ∈ e.nodes ↔ n ∈ e.nodeCopies := by
  refine ⟨mem_nodeCopies_of_mem_nodes, fun hn => ?_⟩
  obtain ⟨m, hm, hvar⟩ := exists_mem_nodes hn
  exact h.apart.nodes m (mem_nodeCopies_of_mem_nodes hm) n hn hvar ▸ hm

end Entity

/-! ## What a name returns -/

namespace Entity

/-- The nodes with a label. -/
def labelled (e : Entity) (name : String) : List Node := e.nodes.filter (·.hasLabel name)

variable {visits : List Visit} {e : Entity} {name : String}

theorem ReachedBy.mem_labelled_iff (h : e.ReachedBy visits) {n : Node} :
    n ∈ e.labelled name ↔ n ∈ e.nodeCopies ∧ n.label = some name := by
  rw [labelled, List.mem_filter, h.mem_nodes_iff, Node.hasLabel, beq_iff_eq]

theorem ReachedBy.nodup_labelled (h : e.ReachedBy visits) :
    ((e.labelled name).map Node.var).Nodup :=
  h.nodup_nodes.sublist (List.filter_sublist.map Node.var)

theorem ReachedBy.labelled_eq_nil_iff (h : e.ReachedBy visits) :
    e.labelled name = [] ↔ ∀ n ∈ e.nodeCopies, n.label ≠ some name := by
  rw [List.eq_nil_iff_forall_not_mem]
  refine forall_congr' fun n => ?_
  rw [h.mem_labelled_iff, not_and]

theorem ReachedBy.labelled_ne_nil_iff (h : e.ReachedBy visits) :
    e.labelled name ≠ [] ↔ ∃ n ∈ e.nodeCopies, n.label = some name := by
  simp only [ne_eq, h.labelled_eq_nil_iff, not_forall, not_not, exists_prop]

/-- A name returns the nodes that it labels. -/
theorem ReachedBy.namedOf_eq (h : e.ReachedBy visits) :
    ReturnSpec.namedOf e name = (e.labelled name).map fun n => .entity (.node n) := by
  have hshown : (e.nodes.filter fun n => !n.anonymous && n.hasLabel name) = e.labelled name := by
    refine List.filter_congr fun n hn => ?_
    rw [(h.tidy.nodes n (h.mem_nodes_iff.mp hn)).shown, Bool.not_false, Bool.true_and]
  rcases h.connected.shape with ⟨n, rfl⟩ | ⟨t, rfl⟩ | ⟨g, rfl, -⟩
  · exact (List.append_nil _).trans (congrArg (List.map _) hshown)
  · exact (List.append_nil _).trans (congrArg (List.map _) hshown)
  · exact (List.append_nil _).trans (congrArg (List.map _) hshown)

/-- So it resolves exactly if it labels a node. -/
theorem ReachedBy.resolve_named_eq (h : e.ReachedBy visits) (unlabelled : Option String)
    (func : Option FuncSpec) (token : String) :
    (ReturnSpec.named name).resolve e unlabelled func token =
      if e.labelled name = [] then .error (.nothingNamed name token)
      else .ok ((e.labelled name).map fun n => .entity (.node n), func, none) := by
  rw [ReturnSpec.resolve, h.namedOf_eq]
  cases e.labelled name with
  | nil => rfl
  | cons n rest => rfl

end Entity

/-! ## Compiled requests -/

/-- A trail without an entity does not finish. -/
theorem Trail.finish_of_none {trail : Trail} {step : Step} {ret : ReturnSpec}
    (hentity : trail.entity = none) (hret : step.ret = some ret) (token : String)
    (options : StatementOptions) :
    trail.finish step token options = .error (.nothingReached token) := by
  simp only [finish, hret, hentity]

/-- A trail with a reached entity that ends in a name finishes exactly if the name labels a node,
and returns the nodes that it labels. -/
theorem Trail.finish_named {trail : Trail} {visits : List Visit} {step : Step} {name : String}
    {e : Entity} (hentity : trail.entity = some e) (hreached : e.ReachedBy visits)
    (hret : step.ret = some (.named name)) (token : String) (options : StatementOptions) :
    trail.finish step token options =
      if e.labelled name = [] then .error (.nothingNamed name token)
      else .ok
        { statement := statementOf e ((e.labelled name).map fun n => .entity (.node n)) step.func
            options
          key := keyText trail.key
          bindings := trail.bindings
          pathId := none } := by
  simp only [finish, hret, hentity, hreached.resolve_named_eq]
  split_ifs
  · rfl
  · rfl

namespace RouteTable

/-- A walk that reaches a return by name compiles exactly if the matched entity has a node with the
name for a label. The statement then matches the entity and returns exactly these nodes, each once
and inside the function of the step; no relationship is returned, whatever its type. Otherwise the
fault is that nothing has the name, or that there is no entity. -/
theorem compile_named {table : RouteTable} {options : StatementOptions} {token : String}
    {rest : List String} {trail : Trail} {step : Step} {last name : String}
    (hfollow : Trail.followAll {} table.root token rest = .ok (trail, step, last))
    (hret : step.ret = some (.named name)) :
    ((∃ c, table.compile options (token :: rest) = .ok c) ↔
      ∃ e, trail.entity = some e ∧ ∃ n ∈ e.nodeCopies, n.label = some name) ∧
    (∀ c, table.compile options (token :: rest) = .ok c →
      ∃ (e : Entity) (members : List Node), trail.entity = some e ∧
        c.statement.clauses = [.matching [.entity e],
          .returning (FuncSpec.wrap step.func (members.map fun n => .entity (.node n)))] ∧
        (members.map Node.var).Nodup ∧
        ∀ n, n ∈ members ↔ n ∈ e.nodeCopies ∧ n.label = some name) ∧
    (∀ e, trail.entity = some e → (∀ n ∈ e.nodeCopies, n.label ≠ some name) →
      table.compile options (token :: rest) = .error (.nothingNamed name last)) ∧
    (trail.entity = none →
      table.compile options (token :: rest) = .error (.nothingReached last)) := by
  have hcompile : table.compile options (token :: rest) = trail.finish step last options := by
    rw [compile, hfollow]
    rfl
  obtain ⟨visits, v, -, hvisits, -, -⟩ := Trail.followAll_eq_ok_iff.mp hfollow
  rw [hcompile]
  cases hentity : trail.entity with
  | none =>
      rw [Trail.finish_of_none hentity hret]
      refine ⟨⟨?_, ?_⟩, ?_, ?_, ?_⟩
      · rintro ⟨c, h⟩
        cases h
      · rintro ⟨e, he, -⟩
        cases he
      · intro c h
        cases h
      · intro e he
        cases he
      · intro _
        rfl
  | some e =>
      have hreached := Trail.reachedBy_of_followVisits hvisits hentity
      rw [Trail.finish_named hentity hreached hret]
      refine ⟨⟨?_, ?_⟩, ?_, ?_, ?_⟩
      · rintro ⟨c, h⟩
        split_ifs at h with hlabelled
        exact ⟨e, rfl, hreached.labelled_ne_nil_iff.mp hlabelled⟩
      · rintro ⟨e', he', hn⟩
        obtain rfl := Option.some.inj he'
        rw [if_neg (hreached.labelled_ne_nil_iff.mpr hn)]
        exact ⟨_, rfl⟩
      · intro c h
        split_ifs at h
        obtain rfl := Except.ok.inj h
        exact ⟨e, e.labelled name, rfl, rfl, hreached.nodup_labelled,
          fun n => hreached.mem_labelled_iff⟩
      · intro e' he' hn
        obtain rfl := Option.some.inj he'
        rw [if_pos (hreached.labelled_eq_nil_iff.mpr hn)]
      · intro he
        cases he

/-- The table of `/a/b/c`, where the label of two nodes is the type of a relationship too. -/
def coinciding : RouteTable where
  root := ⟨[("a", ⟨{ node := some (.label "A") },
    ⟨[("b", ⟨{ node := some (.label "B"), edge := some ⟨"A", .right, none⟩ },
      ⟨[("c", ⟨{ node := some (.label "A")
                 edge := some ⟨"s", .right, some ⟨"B", "A"⟩⟩
                 ret := some (.named "A")
                 func := some ⟨.count, some "k"⟩ }, .empty⟩)], none⟩⟩)], none⟩⟩)], none⟩

/-- The two nodes are returned, and the relationship is not. -/
theorem compile_named_coinciding :
    ∃ trail step last c, ∃ (e : Entity) (members : List Node),
      Trail.followAll {} coinciding.root "a" ["b", "c"] = .ok (trail, step, last) ∧
      step.ret = some (.named "A") ∧ coinciding.compile {} ["a", "b", "c"] = .ok c ∧
      c.statement.textIn .parameterized =
        "MATCH (n0:A)-[r0:A]->(n1:B)-[r1:s]->(n2:A) RETURN count(n0) as k, count(n2) as k" ∧
      trail.entity = some e ∧
      c.statement.clauses = [.matching [.entity e],
        .returning (FuncSpec.wrap step.func (members.map fun n => .entity (.node n)))] ∧
      (members.map Node.var).Nodup ∧
      ∀ n, n ∈ members ↔ n ∈ e.nodeCopies ∧ n.label = some "A" := by
  obtain ⟨⟨trail, step, last⟩, hfollow, hret⟩ := exists_ok_of_observed
    (f := fun r : Trail × Step × String => r.2.1.ret) (b := some (.named "A"))
    (x := Trail.followAll {} coinciding.root "a" ["b", "c"]) (by decide +kernel)
  obtain ⟨c, hc, htext⟩ := exists_ok_of_observed
    (f := fun c : Compiled => c.statement.textIn .parameterized)
    (b := "MATCH (n0:A)-[r0:A]->(n1:B)-[r1:s]->(n2:A) RETURN count(n0) as k, count(n2) as k")
    (x := coinciding.compile {} ["a", "b", "c"]) (by decide +kernel)
  obtain ⟨e, members, hentity, hclauses, hnodup, hmembers⟩ :=
    (compile_named hfollow hret).2.1 c hc
  exact ⟨trail, step, last, c, e, members, hfollow, hret, hc, htext, hentity, hclauses, hnodup,
    hmembers⟩

/-- The table of `/a/b`, which returns the type of its relationship. -/
def typed : RouteTable where
  root := ⟨[("a", ⟨{ node := some (.label "A") },
    ⟨[("b", ⟨{ node := some (.label "B")
               edge := some ⟨"r", .right, none⟩
               ret := some (.named "r") }, .empty⟩)], none⟩⟩)], none⟩

/-- The walk reaches the return with a relationship of the named type, and nothing is found. -/
theorem nothing_named_typed :
    ∃ trail step last e r, Trail.followAll {} typed.root "a" ["b"] = .ok (trail, step, last) ∧
      step.ret = some (.named "r") ∧ trail.entity = some e ∧ r ∈ e.edges ∧ r.kind = some "r" ∧
      typed.compile {} ["a", "b"] = .error (.nothingNamed "r" "b") := by
  exact ⟨_, _, _, _, _, rfl, rfl, rfl, List.mem_singleton_self _, rfl, rfl⟩

end RouteTable

end CypherRoutes
