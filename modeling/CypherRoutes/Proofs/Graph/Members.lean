/-
# The members of entities

All copies of nodes and edges in an entity, all its properties and all its variables; and what
these are after a property is attached, and for a path that was stitched. A member is one of the
copies, and every copy of a node has a member of its variable.
-/
import CypherRoutes.Graph.Entity
import CypherRoutes.Proofs.Stitch.Related

namespace CypherRoutes

/-! ## Copies -/

namespace Entity

/-- Every copy of a node in the entity. -/
def nodeCopies : Entity → List Node
  | node n => [n]
  | triple t => t.nodes
  | path g => g.triples.flatMap Triple.nodes
  | relationship _ => []
  | property _ => []

/-- Every copy of a relationship in the entity. -/
def edgeCopies : Entity → List Relationship
  | relationship r => [r]
  | triple t => [t.edge]
  | path g => g.triples.map Triple.edge
  | node _ => []
  | property _ => []

/-- The entity itself if it is a property. -/
def selfProp : Entity → List Property
  | property p => [p]
  | _ => []

/-- Every copy of a property in the entity. -/
def props (e : Entity) : List Property :=
  e.nodeCopies.flatMap Node.props ++ e.edgeCopies.flatMap Relationship.props ++ e.selfProp

/-- The variables of the nodes, the relationships and the properties in the entity. -/
def vars (e : Entity) : List String :=
  e.nodeCopies.map Node.var ++ e.edgeCopies.map Relationship.var ++ e.props.map Property.var

end Entity

/-! ## The first copies -/

/-- What is listed by variable stands in the list that it is taken from. -/
theorem mem_of_mem_distinctBy {α : Type} (var : α → String) (seen : List String) (l : List α)
    (a : α) (h : a ∈ distinctBy var seen l) : a ∈ l := by
  induction l generalizing seen with
  | nil => exact absurd h List.not_mem_nil
  | cons b rest ih =>
      rw [distinctBy] at h
      split_ifs at h with hb
      · exact List.mem_cons_of_mem _ (ih _ h)
      · rcases List.mem_cons.mp h with rfl | h
        · exact List.mem_cons_self
        · exact List.mem_cons_of_mem _ (ih _ h)

/-- Changes that keep the variables can be made before or after listing by variable. -/
theorem distinctBy_map {α : Type} (var : α → String) (f : α → α)
    (hf : ∀ a, var (f a) = var a) (seen : List String) (l : List α) :
    distinctBy var seen (l.map f) = (distinctBy var seen l).map f := by
  induction l generalizing seen with
  | nil => rfl
  | cons a rest ih =>
      rw [List.map_cons, distinctBy, distinctBy, hf]
      split_ifs
      · exact ih _
      · rw [ih, List.map_cons]

/-- A variable is listed if an item has it and it was not seen. -/
theorem mem_map_distinctBy_iff {α : Type} (var : α → String) (seen : List String) (l : List α)
    {v : String} : v ∈ (distinctBy var seen l).map var ↔ v ∈ l.map var ∧ v ∉ seen := by
  induction l generalizing seen with
  | nil => simp [distinctBy]
  | cons a rest ih =>
      rw [distinctBy]
      split_ifs with ha
      · have ha : var a ∈ seen := List.contains_iff_mem.mp ha
        rw [ih, List.map_cons, List.mem_cons]
        constructor
        · exact fun h => ⟨.inr h.1, h.2⟩
        · rintro ⟨rfl | h, hv⟩
          · exact absurd ha hv
          · exact ⟨h, hv⟩
      · have ha : var a ∉ seen := fun h => ha (List.contains_iff_mem.mpr h)
        rw [List.map_cons, List.map_cons, List.mem_cons, List.mem_cons, ih, List.mem_cons, not_or]
        constructor
        · rintro (rfl | ⟨h, -, hv⟩)
          · exact ⟨.inl rfl, ha⟩
          · exact ⟨.inr h, hv⟩
        · rintro ⟨rfl | h, hv⟩
          · exact .inl rfl
          · by_cases hva : v = var a
            · exact .inl hva
            · exact .inr ⟨h, hva, hv⟩

/-- No variable is listed twice. -/
theorem nodup_map_distinctBy {α : Type} (var : α → String) (seen : List String) (l : List α) :
    ((distinctBy var seen l).map var).Nodup := by
  induction l generalizing seen with
  | nil => exact List.nodup_nil
  | cons a rest ih =>
      rw [distinctBy]
      split_ifs
      · exact ih seen
      · rw [List.map_cons, List.nodup_cons, mem_map_distinctBy_iff]
        exact ⟨fun h => h.2 List.mem_cons_self, ih _⟩

namespace Entity

/-- A node of the entity is one of the copies. -/
theorem mem_nodeCopies_of_mem_nodes {e : Entity} {n : Node} (h : n ∈ e.nodes) :
    n ∈ e.nodeCopies := by
  cases e with
  | path g => exact mem_of_mem_distinctBy _ _ _ _ h
  | node => exact h
  | triple => exact h
  | relationship => exact h
  | property => exact h

/-- A relationship of the entity is one of the copies. -/
theorem mem_edgeCopies_of_mem_edges {e : Entity} {r : Relationship} (h : r ∈ e.edges) :
    r ∈ e.edgeCopies := by
  cases e with
  | path g => exact mem_of_mem_distinctBy _ _ _ _ h
  | node => exact h
  | triple => exact h
  | relationship => exact h
  | property => exact h

/-- Every copy of a node has a node of its variable. -/
theorem exists_mem_nodes {e : Entity} {n : Node} (h : n ∈ e.nodeCopies) :
    ∃ m ∈ e.nodes, m.var = n.var := by
  cases e with
  | path g =>
      exact List.mem_map.mp <| (mem_map_distinctBy_iff _ _ _).mpr
        ⟨List.mem_map_of_mem h, List.not_mem_nil⟩
  | node => exact ⟨n, h, rfl⟩
  | triple => exact ⟨n, h, rfl⟩
  | relationship => exact ⟨n, h, rfl⟩
  | property => exact ⟨n, h, rfl⟩

/-! ## Properties of copies -/

theorem mem_props_of_mem_nodeCopies {e : Entity} {n : Node} (hn : n ∈ e.nodeCopies)
    {p : Property} (hp : p ∈ n.props) : p ∈ e.props :=
  List.mem_append_left _ (List.mem_append_left _ (List.mem_flatMap.mpr ⟨n, hn, hp⟩))

theorem mem_props_of_mem_edgeCopies {e : Entity} {r : Relationship} (hr : r ∈ e.edgeCopies)
    {p : Property} (hp : p ∈ r.props) : p ∈ e.props :=
  List.mem_append_left _ (List.mem_append_right _ (List.mem_flatMap.mpr ⟨r, hr, hp⟩))

/-- A property in an entity belongs to a copy of a node or of a relationship, unless it is the
entity itself. -/
theorem mem_props_iff {e : Entity} {p : Property} :
    p ∈ e.props ↔ (∃ n ∈ e.nodeCopies, p ∈ n.props) ∨ (∃ r ∈ e.edgeCopies, p ∈ r.props) ∨
      e = .property p := by
  rw [props, List.mem_append, List.mem_append, List.mem_flatMap, List.mem_flatMap, or_assoc]
  refine or_congr Iff.rfl (or_congr Iff.rfl ?_)
  cases e with
  | property q =>
      rw [selfProp, List.mem_singleton, Entity.property.injEq]
      exact eq_comm
  | node => simp [selfProp]
  | relationship => simp [selfProp]
  | triple => simp [selfProp]
  | path => simp [selfProp]

/-- The variables of an entity, kind by kind. -/
theorem mem_vars_iff {e : Entity} {v : String} :
    v ∈ e.vars ↔ (∃ n ∈ e.nodeCopies, n.var = v) ∨ (∃ r ∈ e.edgeCopies, r.var = v) ∨
      ∃ p ∈ e.props, p.var = v := by
  simp only [vars, List.mem_append, List.mem_map, or_assoc]

theorem var_mem_vars_of_node {e : Entity} {n : Node} (h : n ∈ e.nodeCopies) : n.var ∈ e.vars :=
  mem_vars_iff.mpr (.inl ⟨n, h, rfl⟩)

theorem var_mem_vars_of_edge {e : Entity} {r : Relationship} (h : r ∈ e.edgeCopies) :
    r.var ∈ e.vars :=
  mem_vars_iff.mpr (.inr (.inl ⟨r, h, rfl⟩))

theorem var_mem_vars_of_prop {e : Entity} {p : Property} (h : p ∈ e.props) : p.var ∈ e.vars :=
  mem_vars_iff.mpr (.inr (.inr ⟨p, h, rfl⟩))

/-! ## Entities made of others -/

/-- Every node and every relationship of the entity is one of two others, or is the relationship
between them. -/
structure MadeOf (e a b : Entity) (r : Relationship) : Prop where
  kind : ∀ p, e ≠ .property p
  nodes : ∀ n ∈ e.nodeCopies, n ∈ a.nodeCopies ∨ n ∈ b.nodeCopies
  edges : ∀ q ∈ e.edgeCopies, q ∈ a.edgeCopies ∨ q ∈ b.edgeCopies ∨ q = r

namespace MadeOf

variable {e a b : Entity} {r : Relationship}

/-- A relationship without properties adds none. -/
theorem mem_props (h : e.MadeOf a b r) (hbare : r.props = []) {p : Property} (hp : p ∈ e.props) :
    p ∈ a.props ∨ p ∈ b.props := by
  rcases mem_props_iff.mp hp with ⟨n, hn, hpn⟩ | ⟨q, hq, hpq⟩ | rfl
  · exact (h.nodes n hn).imp (mem_props_of_mem_nodeCopies · hpn)
      (mem_props_of_mem_nodeCopies · hpn)
  · rcases h.edges q hq with hq | hq | rfl
    · exact .inl (mem_props_of_mem_edgeCopies hq hpq)
    · exact .inr (mem_props_of_mem_edgeCopies hq hpq)
    · rw [hbare] at hpq
      exact absurd hpq List.not_mem_nil
  · exact absurd rfl (h.kind p)

/-- It adds its own variable only. -/
theorem mem_vars (h : e.MadeOf a b r) (hbare : r.props = []) {v : String} (hv : v ∈ e.vars) :
    v ∈ a.vars ∨ v ∈ b.vars ∨ v = r.var := by
  rcases mem_vars_iff.mp hv with ⟨n, hn, rfl⟩ | ⟨q, hq, rfl⟩ | ⟨p, hp, rfl⟩
  · rcases h.nodes n hn with hn | hn
    · exact .inl (var_mem_vars_of_node hn)
    · exact .inr (.inl (var_mem_vars_of_node hn))
  · rcases h.edges q hq with hq | hq | rfl
    · exact .inl (var_mem_vars_of_edge hq)
    · exact .inr (.inl (var_mem_vars_of_edge hq))
    · exact .inr (.inr rfl)
  · rcases h.mem_props hbare hp with hp | hp
    · exact .inl (var_mem_vars_of_prop hp)
    · exact .inr (.inl (var_mem_vars_of_prop hp))

end MadeOf

end Entity

/-! ## Stitched paths -/

/-- What holds of all nodes and edges of the arguments holds of all nodes and edges of the
path. -/
theorem stitch_all {P : Node → Prop} {Q : Relationship → Prop} {entities : List Entity}
    {triples : List Triple} (h : stitch entities = .ok triples)
    (hall : ∀ e ∈ entities, (∀ n ∈ e.nodeCopies, P n) ∧ ∀ r ∈ e.edgeCopies, Q r) :
    ∀ t ∈ triples, P t.source ∧ Q t.edge ∧ P t.target := by
  -- an entity is related to itself when its nodes and edges have the properties
  have hkeeps : KeepsIdentity (fun n m => n = m ∧ P n) (fun r q => r = q ∧ Q r) :=
    ⟨fun h => by rw [h.1], fun h => by rw [h.1], fun h => by rw [h.1], fun h => by rw [h.1],
      fun h => by rw [h.1]⟩
  have hself : List.Forall₂ (Entity.Related (fun n m => n = m ∧ P n) (fun r q => r = q ∧ Q r))
      entities entities := by
    rw [List.forall₂_same]
    intro e he
    obtain ⟨hn, hr⟩ := hall e he
    cases e with
    | node n => exact .node ⟨rfl, hn n (by simp [Entity.nodeCopies])⟩
    | relationship r => exact .relationship ⟨rfl, hr r (by simp [Entity.edgeCopies])⟩
    | property p => exact .property p p
    | triple t =>
        exact .triple ⟨⟨rfl, hn _ (by simp [Entity.nodeCopies, Triple.nodes])⟩,
          ⟨rfl, hr _ (by simp [Entity.edgeCopies])⟩,
          ⟨rfl, hn _ (by simp [Entity.nodeCopies, Triple.nodes])⟩⟩
    | path g =>
        refine .path (List.forall₂_same.mpr fun t ht => ?_)
        have hmem : ∀ n ∈ t.nodes, P n := fun n hnt => hn n (List.mem_flatMap.mpr ⟨t, ht, hnt⟩)
        exact ⟨⟨rfl, hmem _ (by simp [Triple.nodes])⟩, ⟨rfl, hr _ (List.mem_map_of_mem ht)⟩,
          ⟨rfl, hmem _ (by simp [Triple.nodes])⟩⟩
  obtain ⟨us, hus, hrel⟩ := (stitch_related hkeeps hself).exists_ok h
  rw [h, Except.ok.injEq] at hus
  subst hus
  rw [List.forall₂_same] at hrel
  exact fun t ht => ⟨(hrel t ht).source.2, (hrel t ht).edge.2, (hrel t ht).target.2⟩

end CypherRoutes
