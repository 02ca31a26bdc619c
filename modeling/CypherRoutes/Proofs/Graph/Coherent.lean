/-
# Coherent entities

A path holds several copies of a node. An entity is coherent if the copies of every node and of
every relationship agree, and if no property variable stands for two values. Attaching a property
to all copies of a member keeps an entity coherent, and so does linking two coherent entities that
have no variable in common.
-/
import CypherRoutes.Proofs.Graph.Members

namespace CypherRoutes

/-- Copies agree, and a property variable has one value. -/
structure Entity.Coherent (e : Entity) : Prop where
  nodes : ∀ n ∈ e.nodeCopies, ∀ m ∈ e.nodeCopies, n.var = m.var → n = m
  edges : ∀ r ∈ e.edgeCopies, ∀ q ∈ e.edgeCopies, r.var = q.var → r = q
  props : ∀ p ∈ e.props, ∀ q ∈ e.props, p.var = q.var → p.given = q.given

/-! ## Attaching a property -/

/-- What a list of properties holds after one is attached. -/
theorem Property.mem_attach {owner : String} {props : List Property} {p q : Property}
    (h : q ∈ Property.attach owner props p) : q ∈ props ∨ q = p.ownedBy owner := by
  rw [Property.attach] at h
  generalize hp : p.ownedBy owner = p' at h ⊢
  clear hp
  induction props with
  | nil => exact .inr (List.mem_singleton.mp h)
  | cons a rest ih =>
      rw [Property.replace] at h
      split_ifs at h
      · rcases List.mem_cons.mp h with rfl | h
        · exact .inr rfl
        · exact .inl (List.mem_cons_of_mem _ h)
      · rcases List.mem_cons.mp h with rfl | h
        · exact .inl List.mem_cons_self
        · rcases ih h with h | h
          · exact .inl (List.mem_cons_of_mem _ h)
          · exact .inr h

namespace Node

/-- The node with a property attached if it has the given variable. -/
def attachIf (n : Node) (var : String) (p : Property) : Node :=
  if n.var == var then n.attach p else n

@[simp] theorem attachIf_var (n : Node) (var : String) (p : Property) :
    (n.attachIf var p).var = n.var := by
  rw [attachIf]
  split_ifs <;> rfl

theorem mem_props_attachIf {n : Node} {var : String} {p q : Property}
    (h : q ∈ (n.attachIf var p).props) : q ∈ n.props ∨ q = p.ownedBy n.var := by
  rw [attachIf] at h
  split_ifs at h
  · exact Property.mem_attach h
  · exact .inl h

end Node

namespace Relationship

/-- The relationship with a property attached if it has the given variable. -/
def attachIf (r : Relationship) (var : String) (p : Property) : Relationship :=
  if r.var == var then r.attach p else r

@[simp] theorem attachIf_var (r : Relationship) (var : String) (p : Property) :
    (r.attachIf var p).var = r.var := by
  rw [attachIf]
  split_ifs <;> rfl

theorem mem_props_attachIf {r : Relationship} {var : String} {p q : Property}
    (h : q ∈ (r.attachIf var p).props) : q ∈ r.props ∨ q = p.ownedBy r.var := by
  rw [attachIf] at h
  split_ifs at h
  · exact Property.mem_attach h
  · exact .inl h

end Relationship

namespace Entity

variable {e : Entity} {var : String} {p : Property}

/-- Attaching to a node changes all its copies. -/
theorem nodeCopies_attachToNode (e : Entity) (var : String) (p : Property) :
    (e.attachToNode var p).nodeCopies = e.nodeCopies.map (·.attachIf var p) := by
  cases e with
  | path g =>
      simp only [attachToNode, nodeCopies, Path.map, List.flatMap_map, List.map_flatMap]
      rfl
  | node => rfl
  | triple => rfl
  | relationship => rfl
  | property => rfl

/-- Attaching to a node changes no relationship. -/
theorem edgeCopies_attachToNode (e : Entity) (var : String) (p : Property) :
    (e.attachToNode var p).edgeCopies = e.edgeCopies := by
  cases e with
  | path g =>
      simp only [attachToNode, edgeCopies, Path.map, List.map_map]
      rfl
  | node => rfl
  | triple => rfl
  | relationship => rfl
  | property => rfl

/-- Attaching to a relationship changes no node. -/
theorem nodeCopies_attachToEdge (e : Entity) (var : String) (p : Property) :
    (e.attachToEdge var p).nodeCopies = e.nodeCopies := by
  cases e with
  | path g =>
      simp only [attachToEdge, nodeCopies, Path.map, List.flatMap_map]
      rfl
  | node => rfl
  | triple => rfl
  | relationship => rfl
  | property => rfl

/-- Attaching to a relationship changes all its copies. -/
theorem edgeCopies_attachToEdge (e : Entity) (var : String) (p : Property) :
    (e.attachToEdge var p).edgeCopies = e.edgeCopies.map (·.attachIf var p) := by
  cases e with
  | path g =>
      simp only [attachToEdge, edgeCopies, Path.map, List.map_map]
      rfl
  | node => rfl
  | triple => rfl
  | relationship => rfl
  | property => rfl

/-- An entity stays a property, or none, when something is attached to a node. -/
theorem attachToNode_eq_property {q : Property} :
    e.attachToNode var p = .property q ↔ e = .property q := by
  cases e <;> simp [attachToNode]

theorem attachToEdge_eq_property {q : Property} :
    e.attachToEdge var p = .property q ↔ e = .property q := by
  cases e <;> simp [attachToEdge]

/-- The properties after one is attached to a node. -/
theorem mem_props_attachToNode {q : Property} (h : q ∈ (e.attachToNode var p).props) :
    q ∈ e.props ∨ ∃ owner, q = p.ownedBy owner := by
  rcases mem_props_iff.mp h with ⟨n, hn, hq⟩ | ⟨r, hr, hq⟩ | hself
  · rw [nodeCopies_attachToNode] at hn
    obtain ⟨n, hmem, rfl⟩ := List.mem_map.mp hn
    rcases Node.mem_props_attachIf hq with hq | hq
    · exact .inl (mem_props_of_mem_nodeCopies hmem hq)
    · exact .inr ⟨_, hq⟩
  · rw [edgeCopies_attachToNode] at hr
    exact .inl (mem_props_of_mem_edgeCopies hr hq)
  · exact .inl (mem_props_iff.mpr (.inr (.inr (attachToNode_eq_property.mp hself))))

/-- The properties after one is attached to a relationship. -/
theorem mem_props_attachToEdge {q : Property} (h : q ∈ (e.attachToEdge var p).props) :
    q ∈ e.props ∨ ∃ owner, q = p.ownedBy owner := by
  rcases mem_props_iff.mp h with ⟨n, hn, hq⟩ | ⟨r, hr, hq⟩ | hself
  · rw [nodeCopies_attachToEdge] at hn
    exact .inl (mem_props_of_mem_nodeCopies hn hq)
  · rw [edgeCopies_attachToEdge] at hr
    obtain ⟨r, hmem, rfl⟩ := List.mem_map.mp hr
    rcases Relationship.mem_props_attachIf hq with hq | hq
    · exact .inl (mem_props_of_mem_edgeCopies hmem hq)
    · exact .inr ⟨_, hq⟩
  · exact .inl (mem_props_iff.mpr (.inr (.inr (attachToEdge_eq_property.mp hself))))

/-- Two properties that stand for one value are of one value when one more is attached that
agrees with them. -/
theorem given_eq_of_gained (hp : ∀ q ∈ e.props, q.var = p.var → q.given = p.given)
    (hprops : ∀ a ∈ e.props, ∀ b ∈ e.props, a.var = b.var → a.given = b.given)
    {a b : Property} (ha : a ∈ e.props ∨ ∃ owner, a = p.ownedBy owner)
    (hb : b ∈ e.props ∨ ∃ owner, b = p.ownedBy owner) (hab : a.var = b.var) :
    a.given = b.given := by
  rcases ha with ha | ⟨_, rfl⟩
  · rcases hb with hb | ⟨_, rfl⟩
    · exact hprops a ha b hb hab
    · exact hp a ha hab
  · rcases hb with hb | ⟨_, rfl⟩
    · exact (hp b hb hab.symm).symm
    · rfl

/-- Attaching a property to a node keeps an entity coherent. -/
theorem Coherent.attachToNode (h : e.Coherent)
    (hp : ∀ q ∈ e.props, q.var = p.var → q.given = p.given) :
    (e.attachToNode var p).Coherent where
  nodes := by
    rw [nodeCopies_attachToNode]
    intro n hn m hm hnm
    obtain ⟨n, hn', rfl⟩ := List.mem_map.mp hn
    obtain ⟨m, hm', rfl⟩ := List.mem_map.mp hm
    rw [Node.attachIf_var, Node.attachIf_var] at hnm
    -- copies that were equal gain the same
    rw [h.nodes n hn' m hm' hnm]
  edges := by
    rw [edgeCopies_attachToNode]
    exact h.edges
  props _ ha _ hb := given_eq_of_gained hp h.props (mem_props_attachToNode ha)
    (mem_props_attachToNode hb)

/-- Attaching a property to a relationship keeps an entity coherent. -/
theorem Coherent.attachToEdge (h : e.Coherent)
    (hp : ∀ q ∈ e.props, q.var = p.var → q.given = p.given) :
    (e.attachToEdge var p).Coherent where
  nodes := by
    rw [nodeCopies_attachToEdge]
    exact h.nodes
  edges := by
    rw [edgeCopies_attachToEdge]
    intro r hr q hq hrq
    obtain ⟨r, hr', rfl⟩ := List.mem_map.mp hr
    obtain ⟨q, hq', rfl⟩ := List.mem_map.mp hq
    rw [Relationship.attachIf_var, Relationship.attachIf_var] at hrq
    rw [h.edges r hr' q hq' hrq]
  props _ ha _ hb := given_eq_of_gained hp h.props (mem_props_attachToEdge ha)
    (mem_props_attachToEdge hb)

/-- The variables after a property is attached to a node. -/
theorem mem_vars_attachToNode {v : String} (h : v ∈ (e.attachToNode var p).vars) :
    v ∈ e.vars ∨ v = p.var := by
  rcases mem_vars_iff.mp h with ⟨n, hn, rfl⟩ | ⟨r, hr, rfl⟩ | ⟨q, hq, rfl⟩
  · rw [nodeCopies_attachToNode] at hn
    obtain ⟨n, hmem, rfl⟩ := List.mem_map.mp hn
    rw [Node.attachIf_var]
    exact .inl (var_mem_vars_of_node hmem)
  · rw [edgeCopies_attachToNode] at hr
    exact .inl (var_mem_vars_of_edge hr)
  · rcases mem_props_attachToNode hq with hq | ⟨_, rfl⟩
    · exact .inl (var_mem_vars_of_prop hq)
    · exact .inr rfl

/-- The variables after a property is attached to a relationship. -/
theorem mem_vars_attachToEdge {v : String} (h : v ∈ (e.attachToEdge var p).vars) :
    v ∈ e.vars ∨ v = p.var := by
  rcases mem_vars_iff.mp h with ⟨n, hn, rfl⟩ | ⟨r, hr, rfl⟩ | ⟨q, hq, rfl⟩
  · rw [nodeCopies_attachToEdge] at hn
    exact .inl (var_mem_vars_of_node hn)
  · rw [edgeCopies_attachToEdge] at hr
    obtain ⟨r, hmem, rfl⟩ := List.mem_map.mp hr
    rw [Relationship.attachIf_var]
    exact .inl (var_mem_vars_of_edge hmem)
  · rcases mem_props_attachToEdge hq with hq | ⟨_, rfl⟩
    · exact .inl (var_mem_vars_of_prop hq)
    · exact .inr rfl

/-! ## Linking two entities -/

/-- A node without further members is coherent if its properties are. -/
theorem coherent_node {n : Node} (h : ∀ p ∈ n.props, ∀ q ∈ n.props, p.var = q.var →
    p.given = q.given) : (node n).Coherent where
  nodes a ha b hb _ := by
    rw [List.mem_singleton.mp ha, List.mem_singleton.mp hb]
  edges _ hr := absurd hr List.not_mem_nil
  props := by simpa [Entity.props, nodeCopies, edgeCopies, selfProp] using h

/-- An entity made of two coherent ones that have no variable in common, and of a relationship
without properties whose variable neither has, is coherent. -/
theorem Coherent.of_madeOf {a b : Entity} {r : Relationship} (h : e.MadeOf a b r)
    (ha : a.Coherent) (hb : b.Coherent) (hbare : r.props = []) (hab : ∀ v ∈ a.vars, v ∉ b.vars)
    (hra : r.var ∉ a.vars) (hrb : r.var ∉ b.vars) : e.Coherent := by
  -- copies with one variable come from the same part, where they agree
  constructor
  · intro n hn m hm hnm
    rcases h.nodes n hn with hn | hn <;> rcases h.nodes m hm with hm | hm
    · exact ha.nodes n hn m hm hnm
    · exact absurd (var_mem_vars_of_node hm) (hnm ▸ hab _ (var_mem_vars_of_node hn))
    · exact absurd (var_mem_vars_of_node hn) (hnm ▸ hab _ (var_mem_vars_of_node hm))
    · exact hb.nodes n hn m hm hnm
  · intro s hs q hq hsq
    rcases h.edges s hs with hs | hs | hs <;> rcases h.edges q hq with hq | hq | hq
    · exact ha.edges s hs q hq hsq
    · exact absurd (var_mem_vars_of_edge hq) (hsq ▸ hab _ (var_mem_vars_of_edge hs))
    · exact absurd (var_mem_vars_of_edge hs) (hsq ▸ hq ▸ hra)
    · exact absurd (var_mem_vars_of_edge hs) (hsq ▸ hab _ (var_mem_vars_of_edge hq))
    · exact hb.edges s hs q hq hsq
    · exact absurd (var_mem_vars_of_edge hs) (hsq ▸ hq ▸ hrb)
    · exact absurd (var_mem_vars_of_edge hq) (hsq ▸ hs ▸ hra)
    · exact absurd (var_mem_vars_of_edge hq) (hsq ▸ hs ▸ hrb)
    · rw [hs, hq]
  · intro p hp q hq hpq
    rcases h.mem_props hbare hp with hp | hp <;> rcases h.mem_props hbare hq with hq | hq
    · exact ha.props p hp q hq hpq
    · exact absurd (var_mem_vars_of_prop hq) (hpq ▸ hab _ (var_mem_vars_of_prop hp))
    · exact absurd (var_mem_vars_of_prop hp) (hpq ▸ hab _ (var_mem_vars_of_prop hq))
    · exact hb.props p hp q hq hpq

end Entity

end CypherRoutes
