/-
# What holds of all members

A statement about every node and every relationship in an entity, copies included, and about the
entity itself if it is a property. It holds of triples and paths if it holds of their parts.
Attaching a property, changing all members and stitching keep it if they keep it for one member.
-/
import CypherRoutes.Proofs.Graph.Coherent

namespace CypherRoutes.Entity

/-- Something holds of all nodes, of all relationships, and of the entity if it is a property. -/
structure All (P : Node → Prop) (Q : Relationship → Prop) (R : Property → Prop) (e : Entity) :
    Prop where
  nodes : ∀ n ∈ e.nodeCopies, P n
  edges : ∀ r ∈ e.edgeCopies, Q r
  self : ∀ p, e = .property p → R p

variable {P : Node → Prop} {Q : Relationship → Prop} {R : Property → Prop}

/-! ## Entities of each kind -/

theorem all_node {n : Node} (h : P n) : (node n).All P Q R where
  nodes _ hm := List.mem_singleton.mp hm ▸ h
  edges _ hr := absurd hr List.not_mem_nil
  self _ hp := by cases hp

theorem all_relationship {r : Relationship} (h : Q r) : (relationship r).All P Q R where
  nodes _ hn := absurd hn List.not_mem_nil
  edges _ hq := List.mem_singleton.mp hq ▸ h
  self _ hp := by cases hp

theorem all_property {p : Property} (h : R p) : (property p).All P Q R where
  nodes _ hn := absurd hn List.not_mem_nil
  edges _ hr := absurd hr List.not_mem_nil
  self _ hq := Entity.property.inj hq ▸ h

theorem all_triple {t : Triple} (hsource : P t.source) (hedge : Q t.edge) (htarget : P t.target) :
    (triple t).All P Q R where
  nodes n hn := by
    rcases List.mem_cons.mp hn with rfl | hn
    · exact hsource
    · exact List.mem_singleton.mp hn ▸ htarget
  edges _ hr := List.mem_singleton.mp hr ▸ hedge
  self _ hp := by cases hp

/-- A path is the nodes and edges of its triples. -/
theorem all_path {g : Path} (h : ∀ t ∈ g.triples, (triple t).All P Q R) : (path g).All P Q R where
  nodes n hn := by
    obtain ⟨t, ht, hn⟩ := List.mem_flatMap.mp hn
    exact (h t ht).nodes n hn
  edges r hr := by
    obtain ⟨t, ht, rfl⟩ := List.mem_map.mp hr
    exact (h t ht).edges t.edge (List.mem_singleton_self _)
  self _ hp := by cases hp

namespace All

theorem node {n : Node} (h : (node n).All P Q R) : P n := h.nodes n (List.mem_singleton_self n)

theorem relationship {r : Relationship} (h : (relationship r).All P Q R) : Q r :=
  h.edges r (List.mem_singleton_self r)

theorem property {p : Property} (h : (property p).All P Q R) : R p := h.self p rfl

theorem source {t : Triple} (h : (triple t).All P Q R) : P t.source :=
  h.nodes _ List.mem_cons_self

theorem edge {t : Triple} (h : (triple t).All P Q R) : Q t.edge :=
  h.edges _ (List.mem_singleton_self _)

theorem target {t : Triple} (h : (triple t).All P Q R) : P t.target :=
  h.nodes _ (List.mem_cons_of_mem _ (List.mem_singleton_self _))

theorem tripleOf {g : Path} (h : (path g).All P Q R) {t : Triple} (ht : t ∈ g.triples) :
    (triple t).All P Q R where
  nodes n hn := h.nodes n (List.mem_flatMap.mpr ⟨t, ht, hn⟩)
  edges _ hr := List.mem_singleton.mp hr ▸ h.edges t.edge (List.mem_map_of_mem ht)
  self _ hp := by cases hp

/-- What holds of all members implies what it implies of each. -/
theorem imp {e : Entity} (h : e.All P Q R) {P' : Node → Prop} {Q' : Relationship → Prop}
    {R' : Property → Prop} (hP : ∀ n, P n → P' n) (hQ : ∀ r, Q r → Q' r) (hR : ∀ p, R p → R' p) :
    e.All P' Q' R' where
  nodes n hn := hP n (h.nodes n hn)
  edges r hr := hQ r (h.edges r hr)
  self p hp := hR p (h.self p hp)

/-! ## Changed members -/

/-- The nodes and the edge of a triple changed. -/
theorem map_triple {t : Triple} (h : (triple t).All P Q R) {f : Node → Node}
    {g : Relationship → Relationship} (hf : ∀ n, P n → P (f n)) (hg : ∀ r, Q r → Q (g r)) :
    (triple (t.map f g)).All P Q R :=
  all_triple (hf _ h.source) (hg _ h.edge) (hf _ h.target)

/-- The same for every triple of a path. -/
theorem map_path {p : Path} (h : (path p).All P Q R) {f : Node → Node}
    {g : Relationship → Relationship} (hf : ∀ n, P n → P (f n)) (hg : ∀ r, Q r → Q (g r)) :
    (path (p.map (·.map f g))).All P Q R := by
  refine all_path fun t ht => ?_
  obtain ⟨u, hu, rfl⟩ := List.mem_map.mp ht
  exact (h.tripleOf hu).map_triple hf hg

/-- A property attached to a node. -/
theorem attachToNode {e : Entity} (h : e.All P Q R) (var : String) {p : Property}
    (hattach : ∀ n, P n → P (n.attach p)) : (e.attachToNode var p).All P Q R where
  nodes n hn := by
    rw [nodeCopies_attachToNode] at hn
    obtain ⟨m, hm, rfl⟩ := List.mem_map.mp hn
    rw [Node.attachIf]
    split_ifs
    · exact hattach m (h.nodes m hm)
    · exact h.nodes m hm
  edges r hr := by
    rw [edgeCopies_attachToNode] at hr
    exact h.edges r hr
  self q hq := h.self q (attachToNode_eq_property.mp hq)

/-- A property attached to a relationship. -/
theorem attachToEdge {e : Entity} (h : e.All P Q R) (var : String) {p : Property}
    (hattach : ∀ r, Q r → Q (r.attach p)) : (e.attachToEdge var p).All P Q R where
  nodes n hn := by
    rw [nodeCopies_attachToEdge] at hn
    exact h.nodes n hn
  edges r hr := by
    rw [edgeCopies_attachToEdge] at hr
    obtain ⟨q, hq, rfl⟩ := List.mem_map.mp hr
    rw [Relationship.attachIf]
    split_ifs
    · exact hattach q (h.edges q hq)
    · exact h.edges q hq
  self q hq := h.self q (attachToEdge_eq_property.mp hq)

/-! ## Composites -/

/-- An entity made of two others and a relationship between them. -/
theorem of_madeOf {e a b : Entity} {r : Relationship} (h : e.MadeOf a b r) (ha : a.All P Q R)
    (hb : b.All P Q R) (hr : Q r) : e.All P Q R where
  nodes n hn := (h.nodes n hn).elim (ha.nodes n) (hb.nodes n)
  edges q hq := by
    rcases h.edges q hq with hq | hq | rfl
    · exact ha.edges q hq
    · exact hb.edges q hq
    · exact hr
  self p hp := absurd hp (h.kind p)

end All

/-- A path stitched from entities. -/
theorem all_ofEntities {s t : Numbering} {entities : List Entity} {g : Path}
    (h : Path.ofEntities s entities = .ok (g, t)) (hall : ∀ e ∈ entities, e.All P Q R) :
    (path g).All P Q R := by
  obtain ⟨triples, hstitch, hpath⟩ := bind_eq_ok_iff.mp h
  obtain ⟨rfl, -⟩ := Prod.mk.inj (Except.ok.inj hpath)
  have htriples := stitch_all hstitch fun e he => ⟨(hall e he).nodes, (hall e he).edges⟩
  refine all_path fun t ht => ?_
  obtain ⟨hsource, hedge, htarget⟩ := htriples t ht
  exact all_triple hsource hedge htarget

end CypherRoutes.Entity
