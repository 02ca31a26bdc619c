/-
# The slots of phrases

The slots in the phrases of an entity are the values of its properties. A path is written as walks,
which leave out copies of nodes, so there the two agree when the copies do
(`Entity.mem_slots_patterns_iff`). Elsewhere in a statement no other slots occur.
-/
import CypherRoutes.Cypher.Statement
import CypherRoutes.Proofs.Graph.Coherent

namespace CypherRoutes

/-! ## Phrases -/

namespace Phrase

@[simp] theorem slots_append (a b : Phrase) : slots (a ++ b) = slots a ++ slots b :=
  List.filterMap_append

@[simp] theorem slots_nil : slots [] = [] := rfl

@[simp] theorem slots_verbatim (text : String) (rest : Phrase) :
    slots (.verbatim text :: rest) = slots rest := rfl

@[simp] theorem slots_slot (var : String) (value : Value) (rest : Phrase) :
    slots (.slot var value :: rest) = (var, value) :: slots rest := rfl

/-- Separators have no slots. -/
theorem slots_joined (separator : String) (phrases : List Phrase) :
    slots (joined separator phrases) = phrases.flatMap slots := by
  rw [joined]
  induction phrases with
  | nil => rfl
  | cons p rest ih =>
      cases rest with
      | nil => simp [List.intercalate]
      | cons q rest =>
          rw [List.intercalate_cons_cons, slots_append, slots_append, ih]
          simp [ofText]

/-- The variables that a phrase shows as placeholders, in order. -/
def placeholders (phrase : Phrase) : List String := phrase.slots.map Prod.fst

end Phrase

/-! ## Nodes and relationships -/

namespace Property

/-- A property is written with its value in a slot, if it has one. -/
theorem slots_pattern? (p : Property) : p.pattern?.toList.flatMap Phrase.slots = p.params := by
  rw [pattern?, params]
  cases p.value? <;> rfl

/-- A property has its own value under its own variable. -/
theorem mem_params_iff {p : Property} {v : String} {value : Value} :
    (v, value) ∈ p.params ↔ p.var = v ∧ p.value? = some value := by
  rw [params]
  cases p.value? with
  | none => simp
  | some other => simp [eq_comm]

/-- The slots of a map are the values of the properties. -/
theorem slots_mapPattern (props : List Property) :
    Phrase.slots (mapPattern props) = props.flatMap Property.params := by
  have hentries : (props.filterMap pattern?).flatMap Phrase.slots
      = props.flatMap Property.params := by
    induction props with
    | nil => rfl
    | cons p rest ih =>
        rw [List.flatMap_cons, ← ih, ← slots_pattern?, List.filterMap_cons]
        cases p.pattern? with
        | none => rfl
        | some entry => simp
  rw [← hentries, mapPattern]
  cases props.filterMap pattern? with
  | nil => rfl
  | cons entry rest => simp [Phrase.slots_joined]

/-- A condition has the property's value in its slot. -/
theorem mem_params_of_mem_slots_condition? {p : Property} {x : String × Value}
    (h : x ∈ p.condition?.toList.flatMap Phrase.slots) : x ∈ p.params := by
  rw [condition?, assignment?] at h
  rw [params]
  cases howner : p.owner with
  | none => simp [howner] at h
  | some owner =>
      cases hvalue : p.value? with
      | none => simp [howner, hvalue] at h
      | some value => simpa [howner, hvalue] using h

/-- The same for the conditions of a list of properties. -/
theorem mem_params_of_mem_slots_conditions {props : List Property} {x : String × Value}
    (h : x ∈ (props.filterMap condition?).flatMap Phrase.slots) :
    x ∈ props.flatMap Property.params := by
  obtain ⟨phrase, hphrase, hx⟩ := List.mem_flatMap.mp h
  obtain ⟨p, hp, hcondition⟩ := List.mem_filterMap.mp hphrase
  refine List.mem_flatMap.mpr ⟨p, hp, mem_params_of_mem_slots_condition? ?_⟩
  rw [hcondition]
  exact List.mem_flatMap.mpr ⟨phrase, List.mem_singleton_self _, hx⟩

end Property

/-- The slots of a node. -/
theorem Node.slots_pattern (n : Node) : n.pattern.slots = n.params := by
  simp [Node.pattern, Property.slots_mapPattern, Node.params]

/-- The slots of a relationship. -/
theorem Relationship.slots_pattern (r : Relationship) : r.pattern.slots = r.params := by
  rw [Relationship.pattern, Relationship.params, ← Property.slots_mapPattern]
  by_cases hbare : (r.anonymous && r.kind.isNone && (Property.mapPattern r.props).isEmpty) = true
  · have hmap : Property.mapPattern r.props = [] := by
      rw [Bool.and_eq_true] at hbare
      exact List.isEmpty_iff.mp hbare.2
    rw [if_pos hbare, hmap]
    rfl
  · rw [if_neg hbare]
    simp

/-- The slots of an arrow. -/
theorem Relationship.slots_arrow (r : Relationship) (d : Direction) :
    (r.arrow d).slots = r.params := by
  simp [Relationship.arrow, Relationship.slots_pattern]

/-- The slots of a triple. -/
theorem Triple.slots_pattern (t : Triple) : t.pattern.slots = t.params := by
  simp [Triple.pattern, Node.slots_pattern, Relationship.slots_arrow, Triple.params]

/-! ## Walks -/

namespace Walk

/-- The nodes of a walk. -/
def nodes (w : Walk) : List Node := w.first :: w.hops.map Hop.node

/-- The edges of a walk. -/
def edges (w : Walk) : List Relationship := w.hops.map Hop.edge

/-- The slots of a walk are those of its nodes and edges. -/
theorem mem_slots_pattern_iff {w : Walk} {x : String × Value} :
    x ∈ w.pattern.slots ↔ (∃ n ∈ w.nodes, x ∈ n.params) ∨ ∃ r ∈ w.edges, x ∈ r.params := by
  obtain ⟨first, hops⟩ := w
  have hhops : x ∈ Phrase.slots (hops.flatMap Hop.pattern)
      ↔ ∃ hop ∈ hops, x ∈ hop.edge.params ∨ x ∈ hop.node.params := by
    induction hops with
    | nil => simp
    | cons hop rest ih =>
        rw [List.flatMap_cons, Phrase.slots_append, List.mem_append, ih, Hop.pattern,
          Phrase.slots_append, Relationship.slots_arrow, Node.slots_pattern, List.mem_append]
        simp
  rw [pattern, Phrase.slots_append, List.mem_append, hhops, Node.slots_pattern]
  constructor
  · rintro (hx | ⟨hop, hhop, hx | hx⟩)
    · exact .inl ⟨first, List.mem_cons_self, hx⟩
    · exact .inr ⟨hop.edge, List.mem_map_of_mem hhop, hx⟩
    · exact .inl ⟨hop.node, List.mem_cons_of_mem _ (List.mem_map_of_mem hhop), hx⟩
  · rintro (⟨n, hn, hx⟩ | ⟨r, hr, hx⟩)
    · rcases List.mem_cons.mp hn with rfl | hn
      · exact .inl hx
      · obtain ⟨hop, hhop, rfl⟩ := List.mem_map.mp hn
        exact .inr ⟨hop, hhop, .inr hx⟩
    · obtain ⟨hop, hhop, rfl⟩ := List.mem_map.mp hr
      exact .inr ⟨hop, hhop, .inl hx⟩

/-- A walk ends at one of its nodes. -/
theorem last_mem_nodes (w : Walk) : w.last ∈ w.nodes := by
  obtain ⟨first, hops⟩ := w
  have hafter : ∀ (hops : List Hop) (n : Node), lastAfter n hops ∈ n :: hops.map Hop.node := by
    intro hops
    induction hops with
    | nil => exact fun n => List.mem_cons_self
    | cons hop rest ih => exact fun n => List.mem_cons_of_mem _ (ih hop.node)
  exact hafter hops first

/-- A list of nodes stands for another: it has only nodes of the other, and of each of these some
copy. -/
structure StandsFor (ns ms : List Node) : Prop where
  subset : ns ⊆ ms
  exists_copy : ∀ m ∈ ms, ∃ n ∈ ns, n.var = m.var

theorem StandsFor.refl (ns : List Node) : StandsFor ns ns :=
  ⟨List.Subset.refl ns, fun n hn => ⟨n, hn, rfl⟩⟩

theorem StandsFor.trans {ns ms ks : List Node} (h : StandsFor ns ms) (h' : StandsFor ms ks) :
    StandsFor ns ks := by
  refine ⟨fun n hn => h'.subset (h.subset hn), fun k hk => ?_⟩
  obtain ⟨m, hm, hmk⟩ := h'.exists_copy k hk
  obtain ⟨n, hn, hnm⟩ := h.exists_copy m hm
  exact ⟨n, hn, hnm.trans hmk⟩

theorem StandsFor.append {ns ms ns' ms' : List Node} (h : StandsFor ns ms)
    (h' : StandsFor ns' ms') : StandsFor (ns ++ ns') (ms ++ ms') := by
  constructor
  · intro n hn
    exact List.mem_append.mpr ((List.mem_append.mp hn).imp (fun h'' => h.subset h'')
      (fun h'' => h'.subset h''))
  · intro m hm
    rcases List.mem_append.mp hm with hm | hm
    · obtain ⟨n, hn, hvar⟩ := h.exists_copy m hm
      exact ⟨n, List.mem_append_left _ hn, hvar⟩
    · obtain ⟨n, hn, hvar⟩ := h'.exists_copy m hm
      exact ⟨n, List.mem_append_right _ hn, hvar⟩

/-- The variable of an endpoint that a walk and a triple have in common. -/
theorem var_eq_of_sameEndpoint {n m : Node} (h : n.sameEndpoint m = true) : m.var = n.var :=
  (beq_iff_eq.mp h).symm

/-- A walk lengthened by a triple has the triple's edge and the triple's node at the new end; of
the other node it keeps the copy that was there before. -/
theorem extend?_eq_some {w w' : Walk} {t : Triple} (h : w.extend? t = some w') :
    ∃ old added kept, w'.nodes.Perm (added :: w.nodes) ∧ w'.edges.Perm (t.edge :: w.edges) ∧
      t.nodes.Perm [old, added] ∧ kept ∈ w.nodes ∧ kept.var = old.var := by
  have hfirst : w.first ∈ w.nodes := List.mem_cons_self
  have hlast := w.last_mem_nodes
  rw [extend?] at h
  -- the triple's source or its target is at the beginning or at the end of the walk
  split_ifs at h with hsf hsl htf htl <;> obtain rfl := Option.some.inj h
  · exact ⟨t.source, t.target, w.first, .refl _, .refl _, .refl _, hfirst,
      var_eq_of_sameEndpoint hsf⟩
  · refine ⟨t.source, t.target, w.last, ?_, ?_, .refl _, hlast, var_eq_of_sameEndpoint hsl⟩
    · simpa [append, nodes] using List.perm_append_singleton t.target w.nodes
    · simp [append, edges]
  · exact ⟨t.target, t.source, w.first, .refl _, .refl _, .swap _ _ _, hfirst,
      var_eq_of_sameEndpoint htf⟩
  · refine ⟨t.target, t.source, w.last, ?_, ?_, .swap _ _ _, hlast, var_eq_of_sameEndpoint htl⟩
    · simpa [append, nodes] using List.perm_append_singleton t.source w.nodes
    · simp [append, edges]

/-- The nodes of a walk lengthened by a triple. -/
theorem standsFor_extend? {w w' : Walk} {t : Triple} (h : w.extend? t = some w') :
    StandsFor w'.nodes (w.nodes ++ t.nodes) := by
  obtain ⟨old, added, kept, hnodes, -, htriple, hkept, hvar⟩ := extend?_eq_some h
  -- the old end of the triple is written as the copy that the walk has of it
  constructor
  · intro n hn
    rw [hnodes.mem_iff] at hn
    rw [List.mem_append, htriple.mem_iff]
    rcases List.mem_cons.mp hn with rfl | hn
    · exact .inr (List.mem_cons_of_mem _ (List.mem_singleton_self _))
    · exact .inl hn
  · intro n hn
    rw [List.mem_append, htriple.mem_iff] at hn
    simp only [hnodes.mem_iff]
    rcases hn with hn | hn
    · exact ⟨n, List.mem_cons_of_mem _ hn, rfl⟩
    · rcases List.mem_cons.mp hn with rfl | hn
      · exact ⟨kept, List.mem_cons_of_mem _ hkept, hvar⟩
      · rw [List.mem_singleton.mp hn]
        exact ⟨added, List.mem_cons_self, rfl⟩

/-- The nodes on the walks of a list of triples, the walk at hand included. -/
theorem standsFor_gather (w : Walk) (triples : List Triple) :
    StandsFor ((gather w triples).flatMap nodes) (w.nodes ++ triples.flatMap Triple.nodes) := by
  induction triples generalizing w with
  | nil =>
      rw [gather, List.flatMap_singleton, List.flatMap_nil, List.append_nil]
      exact .refl _
  | cons t rest ih =>
      rw [gather, List.flatMap_cons]
      cases hextend : w.extend? t with
      | some w' =>
          rw [← List.append_assoc]
          exact (ih w').trans ((standsFor_extend? hextend).append (.refl _))
      | none =>
          -- the walk ends here, and the triple begins the next one
          rw [List.flatMap_cons]
          exact (StandsFor.refl _).append (ih (ofTriple t))

/-- The edges on the walks of a list of triples. -/
theorem perm_edges_gather (w : Walk) (triples : List Triple) :
    ((gather w triples).flatMap edges).Perm (w.edges ++ triples.map Triple.edge) := by
  induction triples generalizing w with
  | nil =>
      rw [gather, List.flatMap_singleton, List.map_nil, List.append_nil]
  | cons t rest ih =>
      rw [gather, List.map_cons]
      cases hextend : w.extend? t with
      | some w' =>
          obtain ⟨old, added, kept, -, hedges, -, -, -⟩ := extend?_eq_some hextend
          have hlonger : (w'.edges ++ rest.map Triple.edge).Perm
              (t.edge :: (w.edges ++ rest.map Triple.edge)) := hedges.append_right _
          exact ((ih w').trans hlonger).trans List.perm_middle.symm
      | none =>
          rw [List.flatMap_cons]
          exact (ih (ofTriple t)).append_left w.edges

end Walk

/-- The nodes on the walks of a path. -/
theorem Path.standsFor_walks (g : Path) :
    Walk.StandsFor (g.walks.flatMap Walk.nodes) (g.triples.flatMap Triple.nodes) := by
  rw [Path.walks]
  cases g.triples with
  | nil => exact .refl _
  | cons t rest => exact Walk.standsFor_gather (.ofTriple t) rest

/-- The edges on the walks of a path. -/
theorem Path.perm_edges_walks (g : Path) :
    (g.walks.flatMap Walk.edges).Perm (g.triples.map Triple.edge) := by
  rw [Path.walks]
  cases g.triples with
  | nil => exact .refl _
  | cons t rest => exact Walk.perm_edges_gather (.ofTriple t) rest

/-- The slots of a path are those of the nodes and edges on its walks. -/
theorem Path.mem_slots_pattern_iff {g : Path} {x : String × Value} :
    x ∈ g.pattern.slots ↔ (∃ n ∈ g.walks.flatMap Walk.nodes, x ∈ n.params) ∨
      ∃ r ∈ g.walks.flatMap Walk.edges, x ∈ r.params := by
  rw [Path.pattern, Phrase.slots_joined, List.flatMap_map, List.mem_flatMap]
  simp only [Walk.mem_slots_pattern_iff, List.mem_flatMap]
  constructor
  · rintro ⟨w, hw, ⟨n, hn, hx⟩ | ⟨r, hr, hx⟩⟩
    · exact .inl ⟨n, ⟨w, hw, hn⟩, hx⟩
    · exact .inr ⟨r, ⟨w, hw, hr⟩, hx⟩
  · rintro (⟨n, ⟨w, hw, hn⟩, hx⟩ | ⟨r, ⟨w, hw, hr⟩, hx⟩)
    · exact ⟨w, hw, .inl ⟨n, hn, hx⟩⟩
    · exact ⟨w, hw, .inr ⟨r, hr, hx⟩⟩

/-! ## Entities -/

namespace Entity

/-- The values of an entity are those of its copies of nodes and of edges. -/
theorem mem_params_iff_copies {e : Entity} {x : String × Value} :
    x ∈ e.params ↔ (∃ n ∈ e.nodeCopies, x ∈ n.params) ∨
      (∃ r ∈ e.edgeCopies, x ∈ r.params) ∨ ∃ p, e = .property p ∧ x ∈ p.params := by
  have htriple : ∀ t : Triple, x ∈ t.params ↔
      (∃ n ∈ t.nodes, x ∈ n.params) ∨ x ∈ t.edge.params := by
    intro t
    simp only [Triple.params, Triple.nodes, List.mem_append, List.mem_cons, List.not_mem_nil,
      or_false, exists_eq_or_imp, exists_eq_left]
    tauto
  cases e with
  | node n => simp [params, nodeCopies, edgeCopies]
  | relationship r => simp [params, nodeCopies, edgeCopies]
  | property p => simp [params, nodeCopies, edgeCopies]
  | triple t => simp [params, nodeCopies, edgeCopies, htriple]
  | path g =>
      simp only [params, nodeCopies, edgeCopies, Path.params, List.mem_flatMap, htriple,
        List.mem_map, reduceCtorEq, false_and, exists_false, or_false]
      constructor
      · rintro ⟨t, ht, ⟨n, hn, hx⟩ | hx⟩
        · exact .inl ⟨n, ⟨t, ht, hn⟩, hx⟩
        · exact .inr ⟨t.edge, ⟨t, ht, rfl⟩, hx⟩
      · rintro (⟨n, ⟨t, ht, hn⟩, hx⟩ | ⟨r, ⟨t, ht, rfl⟩, hx⟩)
        · exact ⟨t, ht, .inl ⟨n, hn, hx⟩⟩
        · exact ⟨t, ht, .inr hx⟩

/-- The values of an entity are those of its properties. -/
theorem mem_params_iff {e : Entity} {x : String × Value} :
    x ∈ e.params ↔ ∃ p ∈ e.props, x ∈ p.params := by
  rw [mem_params_iff_copies]
  simp only [Node.params, Relationship.params, List.mem_flatMap]
  constructor
  · rintro (⟨n, hn, p, hp, hx⟩ | ⟨r, hr, p, hp, hx⟩ | ⟨p, he, hx⟩)
    · exact ⟨p, mem_props_of_mem_nodeCopies hn hp, hx⟩
    · exact ⟨p, mem_props_of_mem_edgeCopies hr hp, hx⟩
    · exact ⟨p, mem_props_iff.mpr (.inr (.inr he)), hx⟩
  · rintro ⟨p, hp, hx⟩
    rcases mem_props_iff.mp hp with ⟨n, hn, hpn⟩ | ⟨r, hr, hpr⟩ | he
    · exact .inl ⟨n, hn, p, hpn, hx⟩
    · exact .inr (.inl ⟨r, hr, p, hpr, hx⟩)
    · exact .inr (.inr ⟨p, he, hx⟩)

/-- The slots of a path's text are among the values of its copies. -/
theorem mem_params_of_mem_slots_path {g : Path} {x : String × Value}
    (h : x ∈ g.pattern.slots) : x ∈ (path g).params := by
  rw [mem_params_iff_copies]
  rcases Path.mem_slots_pattern_iff.mp h with ⟨n, hn, hx⟩ | ⟨r, hr, hx⟩
  · exact .inl ⟨n, g.standsFor_walks.subset hn, hx⟩
  · exact .inr (.inl ⟨r, g.perm_edges_walks.mem_iff.mp hr, hx⟩)

/-- The pattern of a coherent entity has the values of all its properties in slots. -/
theorem mem_slots_patterns_iff {e : Entity} (h : e.Coherent) {x : String × Value} :
    x ∈ e.patterns.flatMap Phrase.slots ↔ x ∈ e.params := by
  cases e with
  | node n => simp [patterns, Node.slots_pattern, params]
  | relationship r => simp [patterns, Relationship.slots_pattern, params]
  | property p => rw [patterns, Property.slots_pattern?, params]
  | triple t => simp [patterns, Triple.slots_pattern, params]
  | path g =>
      rw [patterns, List.flatMap_singleton]
      refine ⟨mem_params_of_mem_slots_path, fun hx => ?_⟩
      rw [Path.mem_slots_pattern_iff]
      rcases mem_params_iff_copies.mp hx with ⟨n, hn, hx⟩ | ⟨r, hr, hx⟩ | ⟨p, hp, -⟩
      · -- the copy on a walk is the copy that has the value
        obtain ⟨m, hm, hvar⟩ := g.standsFor_walks.exists_copy n hn
        have hcopy : m = n := h.nodes m (g.standsFor_walks.subset hm) n hn hvar
        exact .inl ⟨m, hm, hcopy ▸ hx⟩
      · exact .inr ⟨r, g.perm_edges_walks.mem_iff.mpr hr, hx⟩
      · cases hp

/-- Wherever an entity is written, its slots are among its values. -/
theorem mem_params_of_mem_slots_phrases {e : Entity} {place : Place} {x : String × Value}
    (h : x ∈ (e.phrases place).flatMap Phrase.slots) : x ∈ e.params := by
  cases place with
  | pattern =>
      cases e with
      | path g => exact mem_params_of_mem_slots_path (by simpa [phrases, patterns] using h)
      | node n => simpa [phrases, patterns, Node.slots_pattern, params] using h
      | relationship r => simpa [phrases, patterns, Relationship.slots_pattern, params] using h
      | property p => rwa [phrases, patterns, Property.slots_pattern?] at h
      | triple t => simpa [phrases, patterns, Triple.slots_pattern, params] using h
  | condition =>
      cases e with
      | path g => exact mem_params_of_mem_slots_path (by simpa [phrases, conditions] using h)
      | node n => exact Property.mem_params_of_mem_slots_conditions h
      | relationship r => exact Property.mem_params_of_mem_slots_conditions h
      | property p => exact Property.mem_params_of_mem_slots_condition? h
      | triple t => simpa [phrases, conditions, Triple.slots_pattern, params] using h
  | item =>
      obtain ⟨phrase, hphrase, hx⟩ := List.mem_flatMap.mp h
      obtain ⟨item, -, rfl⟩ := List.mem_map.mp hphrase
      exact absurd hx List.not_mem_nil

end Entity

/-! ## Terms -/

/-- A function around its arguments adds no slots. -/
theorem FuncKind.slots_around (kind : FuncKind) (asName : Option String) (args : List Phrase) :
    (kind.around asName args).slots = args.flatMap Phrase.slots := by
  unfold FuncKind.around
  rw [Phrase.slots_verbatim, Phrase.slots_append, Phrase.slots_joined, Phrase.slots_verbatim,
    Phrase.slots_nil, List.append_nil]

namespace Term

/-- What an entity needs in a place is among its values. -/
theorem mem_params_of_mem_entityParams {e : Entity} {place : Place} {x : String × Value}
    (h : x ∈ entityParams e place) : x ∈ e.params := by
  cases place with
  | pattern => cases e <;> exact h
  | item => cases e <;> exact absurd h List.not_mem_nil
  | condition =>
      cases e with
      | property p =>
          rw [entityParams] at h
          split_ifs at h
          · exact absurd h List.not_mem_nil
          · exact h
      | node => exact h
      | relationship => exact h
      | triple => exact h
      | path => exact h

mutual

/-- The entities in a term. -/
def entities : Term → List Entity
  | entity e => [e]
  | apply _ args _ => allEntities args
  | raw _ => []

/-- The entities in a list of terms. -/
def allEntities : List Term → List Entity
  | [] => []
  | t :: rest => entities t ++ allEntities rest

end

end Term

end CypherRoutes
