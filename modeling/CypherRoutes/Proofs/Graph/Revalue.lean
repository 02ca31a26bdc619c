/-
# Entities with other values

Two requests on one route build entities that differ in values only. `Entity.revalue` puts new
strings in the place of the values of some variables. It goes through every change that a step
makes, and through linking, since neither looks at a value.
-/
import CypherRoutes.Proofs.Route.Building

namespace CypherRoutes

/-! ## Properties -/

namespace Property

/-- The property with a new value, if it has a value and its variable is given a new one. -/
def revalue (σ : String → Option String) (p : Property) : Property :=
  match p.value?, σ p.var with
  | some _, some token => { p with given := some (.string token) }
  | _, _ => p

variable (σ : String → Option String)

@[simp] theorem revalue_var (p : Property) : (p.revalue σ).var = p.var := by
  unfold revalue
  split <;> rfl

@[simp] theorem revalue_handle (p : Property) : (p.revalue σ).handle = p.handle := by
  unfold revalue
  split <;> rfl

@[simp] theorem revalue_asName (p : Property) : (p.revalue σ).asName = p.asName := by
  unfold revalue
  split <;> rfl

@[simp] theorem revalue_owner (p : Property) : (p.revalue σ).owner = p.owner := by
  unfold revalue
  split <;> rfl

/-- The value of a property with a new value. -/
@[simp] theorem value?_revalue (p : Property) :
    (p.revalue σ).value? = p.value?.map fun value => ((σ p.var).map .string).getD value := by
  unfold revalue
  cases hvalue : p.value? with
  | none => simp [hvalue]
  | some value =>
      cases hσ : σ p.var with
      | none => simp [hvalue]
      | some token => simp [value?, Value.isNull]

/-- A property whose variable is given no new value. -/
theorem revalue_eq_self {σ : String → Option String} {p : Property} (h : σ p.var = none) :
    p.revalue σ = p := by
  unfold revalue
  rw [h]
  split
  · next h' => cases h'
  · rfl

/-- New values matter at the property's own variable only. -/
theorem revalue_congr {σ τ : String → Option String} {p : Property} (h : σ p.var = τ p.var) :
    p.revalue σ = p.revalue τ := by
  unfold revalue
  rw [h]

theorem revalue_ownedBy (p : Property) (owner : String) :
    (p.ownedBy owner).revalue σ = (p.revalue σ).ownedBy owner := by
  have hvalue : (p.ownedBy owner).value? = p.value? := rfl
  have hvar : (p.ownedBy owner).var = p.var := rfl
  unfold revalue
  rw [hvalue, hvar]
  split <;> rfl

theorem revalue_named (p : Property) (name : String) :
    (p.named name).revalue σ = (p.revalue σ).named name := by
  have hvalue : (p.named name).value? = p.value? := rfl
  have hvar : (p.named name).var = p.var := rfl
  unfold revalue
  rw [hvalue, hvar]
  split <;> rfl

/-- Attaching goes by handles. -/
theorem revalue_attach (owner : String) (props : List Property) (p : Property) :
    attach owner (props.map (.revalue σ)) (p.revalue σ)
      = (attach owner props p).map (.revalue σ) := by
  rw [attach, attach, ← revalue_ownedBy]
  generalize p.ownedBy owner = q
  induction props with
  | nil => rfl
  | cons a rest ih =>
      rw [List.map_cons, replace, replace, revalue_handle, revalue_handle]
      split_ifs
      · rfl
      · rw [ih, List.map_cons]

/-- A list of properties whose variables are given no new values. -/
theorem map_revalue_congr {σ τ : String → Option String} {props : List Property}
    (h : ∀ p ∈ props, σ p.var = τ p.var) : props.map (revalue σ) = props.map (revalue τ) :=
  List.map_congr_left fun p hp => revalue_congr (h p hp)

end Property

/-! ## Nodes, relationships and triples -/

section Members

variable (σ : String → Option String)

/-- The node with new values. -/
def Node.revalue (n : Node) : Node := { n with props := n.props.map (.revalue σ) }

/-- The relationship with new values. -/
def Relationship.revalue (r : Relationship) : Relationship :=
  { r with props := r.props.map (.revalue σ) }

/-- The triple with new values. -/
def Triple.revalue (t : Triple) : Triple := t.map (.revalue σ) (.revalue σ)

/-- The path with new values. -/
def Path.revalue (g : Path) : Path := g.map (.revalue σ)

@[simp] theorem Node.revalue_var (n : Node) : (n.revalue σ).var = n.var := rfl

@[simp] theorem Node.hasLabel_revalue (n : Node) (label : String) :
    (n.revalue σ).hasLabel label = n.hasLabel label := rfl

@[simp] theorem Relationship.revalue_var (r : Relationship) : (r.revalue σ).var = r.var := rfl

@[simp] theorem Relationship.hasKind_revalue (r : Relationship) (kind : String) :
    (r.revalue σ).hasKind kind = r.hasKind kind := rfl

theorem Node.revalue_attach (n : Node) (p : Property) :
    (n.revalue σ).attach (p.revalue σ) = (n.attach p).revalue σ := by
  rw [Node.attach, Node.attach, Node.revalue, Node.revalue, Property.revalue_attach]

theorem Relationship.revalue_attach (r : Relationship) (p : Property) :
    (r.revalue σ).attach (p.revalue σ) = (r.attach p).revalue σ := by
  rw [Relationship.attach, Relationship.attach, Relationship.revalue, Relationship.revalue,
    Property.revalue_attach]

theorem Triple.revalue_attachToNode (t : Triple) (var : String) (p : Property) :
    (t.revalue σ).attachToNode var (p.revalue σ) = (t.attachToNode var p).revalue σ := by
  have hnode : ∀ n : Node, (if (n.revalue σ).var == var then (n.revalue σ).attach (p.revalue σ)
      else n.revalue σ) = Node.revalue σ (if n.var == var then n.attach p else n) := by
    intro n
    rw [Node.revalue_var, Node.revalue_attach]
    split_ifs <;> rfl
  rw [attachToNode, attachToNode, revalue, revalue, map, map, map, map]
  simp only [hnode, id_eq]

theorem Triple.revalue_attachToEdge (t : Triple) (var : String) (p : Property) :
    (t.revalue σ).attachToEdge var (p.revalue σ) = (t.attachToEdge var p).revalue σ := by
  rw [attachToEdge, attachToEdge, revalue, revalue, map, map, map, map,
    Relationship.revalue_var, Relationship.revalue_attach]
  simp only [id_eq, Triple.mk.injEq, true_and, and_true]
  split_ifs <;> rfl

end Members

/-! ## Entities -/

namespace Entity

variable (σ : String → Option String)

/-- The entity with new values. -/
def revalue : Entity → Entity
  | node n => node (n.revalue σ)
  | relationship r => relationship (r.revalue σ)
  | property p => property (p.revalue σ)
  | triple t => triple (t.revalue σ)
  | path g => path (g.revalue σ)

/-- The nodes of an entity with new values. -/
theorem nodes_revalue (e : Entity) : (e.revalue σ).nodes = e.nodes.map (.revalue σ) := by
  cases e with
  | path g =>
      have hcopies : (g.revalue σ).triples.flatMap Triple.nodes
          = (g.triples.flatMap Triple.nodes).map (.revalue σ) := by
        simp only [Path.revalue, Path.map, List.flatMap_map, List.map_flatMap]
        rfl
      rw [revalue, nodes, Path.nodes, hcopies]
      exact distinctBy_map Node.var _ (Node.revalue_var σ) [] _
  | node => rfl
  | relationship => rfl
  | property => rfl
  | triple => rfl

/-- The relationships of an entity with new values. -/
theorem edges_revalue (e : Entity) : (e.revalue σ).edges = e.edges.map (.revalue σ) := by
  cases e with
  | path g =>
      have hcopies : (g.revalue σ).triples.map Triple.edge
          = (g.triples.map Triple.edge).map (.revalue σ) := by
        simp only [Path.revalue, Path.map, List.map_map]
        rfl
      rw [revalue, edges, Path.edges, hcopies]
      exact distinctBy_map Relationship.var _ (Relationship.revalue_var σ) [] _
  | node => rfl
  | relationship => rfl
  | property => rfl
  | triple => rfl

theorem revalue_attachToNode (e : Entity) (var : String) (p : Property) :
    (e.revalue σ).attachToNode var (p.revalue σ) = (e.attachToNode var p).revalue σ := by
  cases e with
  | node n =>
      rw [revalue, attachToNode, attachToNode, Node.revalue_var, Node.revalue_attach]
      split_ifs <;> rfl
  | triple t => exact congrArg triple (t.revalue_attachToNode σ var p)
  | path g =>
      simp only [revalue, attachToNode, Path.revalue, Path.map, List.map_map, Function.comp_def,
        Triple.revalue_attachToNode]
  | relationship => rfl
  | property => rfl

theorem revalue_attachToEdge (e : Entity) (var : String) (p : Property) :
    (e.revalue σ).attachToEdge var (p.revalue σ) = (e.attachToEdge var p).revalue σ := by
  cases e with
  | relationship r =>
      rw [revalue, attachToEdge, attachToEdge, Relationship.revalue_var,
        Relationship.revalue_attach]
      split_ifs <;> rfl
  | triple t => exact congrArg triple (t.revalue_attachToEdge σ var p)
  | path g =>
      simp only [revalue, attachToEdge, Path.revalue, Path.map, List.map_map, Function.comp_def,
        Triple.revalue_attachToEdge]
  | node => rfl
  | property => rfl

/-- The first node of a label is found whatever the values are. -/
theorem revalue_addPropToNode (e : Entity) (label : String) (p : Property) :
    (e.revalue σ).addPropToNode label (p.revalue σ)
      = (e.addPropToNode label p).map (revalue σ) := by
  rw [addPropToNode, addPropToNode, nodes_revalue, List.find?_map, Option.map_map, Option.map_map]
  simp only [Function.comp_def, Node.hasLabel_revalue, Node.revalue_var, revalue_attachToNode]

/-- So is the first relationship of a type. -/
theorem revalue_addPropToEdge (e : Entity) (kind : String) (p : Property) :
    (e.revalue σ).addPropToEdge kind (p.revalue σ)
      = (e.addPropToEdge kind p).map (revalue σ) := by
  rw [addPropToEdge, addPropToEdge, edges_revalue, List.find?_map, Option.map_map, Option.map_map]
  simp only [Function.comp_def, Relationship.hasKind_revalue, Relationship.revalue_var,
    revalue_attachToEdge]

theorem revalue_named (e : Entity) (name : String) :
    (e.named name).revalue σ = (e.revalue σ).named name := by
  cases e with
  | property p => exact congrArg property (p.revalue_named σ name)
  | node => rfl
  | relationship => rfl
  | triple => rfl
  | path => rfl

/-- New values matter at the variables of the entity only. -/
theorem revalue_congr {σ τ : String → Option String} {e : Entity}
    (h : ∀ v ∈ e.vars, σ v = τ v) : e.revalue σ = e.revalue τ := by
  have hnode : ∀ n ∈ e.nodeCopies, n.revalue σ = n.revalue τ := by
    intro n hn
    rw [Node.revalue, Node.revalue, Property.map_revalue_congr fun p hp =>
      h _ (var_mem_vars_of_prop (mem_props_of_mem_nodeCopies hn hp))]
  have hedge : ∀ r ∈ e.edgeCopies, r.revalue σ = r.revalue τ := by
    intro r hr
    rw [Relationship.revalue, Relationship.revalue, Property.map_revalue_congr fun p hp =>
      h _ (var_mem_vars_of_prop (mem_props_of_mem_edgeCopies hr hp))]
  have htriple : ∀ t : Triple, (∀ n ∈ t.nodes, n ∈ e.nodeCopies) → t.edge ∈ e.edgeCopies →
      t.revalue σ = t.revalue τ := by
    intro t hn hr
    rw [Triple.revalue, Triple.revalue, Triple.map, Triple.map,
      hnode _ (hn t.source (by simp [Triple.nodes])),
      hnode _ (hn t.target (by simp [Triple.nodes])), hedge _ hr]
  cases e with
  | node n => exact congrArg node (hnode n (List.mem_singleton_self n))
  | relationship r => exact congrArg relationship (hedge r (List.mem_singleton_self r))
  | property p =>
      have hp : p ∈ (property p).props := mem_props_iff.mpr (.inr (.inr rfl))
      exact congrArg property (Property.revalue_congr (h _ (var_mem_vars_of_prop hp)))
  | triple t => exact congrArg triple (htriple t (fun n hn => hn) (List.mem_singleton_self _))
  | path g =>
      have htriples : g.triples.map (.revalue σ) = g.triples.map (Triple.revalue τ) :=
        List.map_congr_left fun t ht => htriple t
          (fun n hn => List.mem_flatMap.mpr ⟨t, ht, hn⟩) (List.mem_map_of_mem ht)
      rw [revalue, revalue, Path.revalue, Path.revalue, Path.map, Path.map, htriples]

/-- An entity whose variables are given no new values. -/
theorem revalue_eq_self {σ : String → Option String} {e : Entity}
    (h : ∀ v ∈ e.vars, σ v = none) : e.revalue σ = e := by
  have hprops : ∀ props : List Property, props.map (.revalue fun _ => none) = props := by
    intro props
    rw [List.map_congr_left fun p _ => Property.revalue_eq_self (p := p) rfl, List.map_id']
  have hnode : ∀ n : Node, n.revalue (fun _ => none) = n := by
    intro n
    rw [Node.revalue, hprops]
  have hedge : ∀ r : Relationship, r.revalue (fun _ => none) = r := by
    intro r
    rw [Relationship.revalue, hprops]
  have htriple : ∀ t : Triple, t.revalue (fun _ => none) = t := by
    intro t
    rw [Triple.revalue, Triple.map, hnode, hedge, hnode]
  -- on the entity the new values agree with none at all
  have hnone : e.revalue σ = e.revalue fun _ => none := revalue_congr h
  rw [hnone]
  cases e with
  | node n => exact congrArg node (hnode n)
  | relationship r => exact congrArg relationship (hedge r)
  | property p => exact congrArg property (Property.revalue_eq_self rfl)
  | triple t => exact congrArg triple (htriple t)
  | path g =>
      rw [revalue, Path.revalue, Path.map, List.map_congr_left fun t _ => htriple t, List.map_id']

end Entity

/-! ## Linking -/

/-- Stitching sees no values. -/
theorem keepsIdentity_revalue (σ : String → Option String) :
    KeepsIdentity (fun n m => m = n.revalue σ) (fun r q => q = r.revalue σ) where
  var h := by rw [h]; rfl
  label h := by rw [h]; rfl
  edgeVar h := by rw [h]; rfl
  direction h := by rw [h]; rfl
  hint h := by rw [h]; rfl

/-- An entity is related to itself with new values. -/
theorem Entity.related_revalue (σ : String → Option String) (e : Entity) :
    e.Related (fun n m => m = n.revalue σ) (fun r q => q = r.revalue σ) (e.revalue σ) := by
  cases e with
  | node n => exact .node rfl
  | relationship r => exact .relationship rfl
  | property p => exact .property p (p.revalue σ)
  | triple t => exact .triple ⟨rfl, rfl, rfl⟩
  | path g =>
      refine .path ?_
      rw [Path.revalue, Path.map, List.forall₂_map_right_iff]
      exact List.forall₂_same.mpr fun t _ => ⟨rfl, rfl, rfl⟩

/-- Triples that are related to others by new values. -/
theorem Triple.eq_map_revalue {σ : String → Option String} {ts us : List Triple}
    (h : List.Forall₂ (Triple.Related (fun n m => m = n.revalue σ) (fun r q => q = r.revalue σ))
      ts us) : us = ts.map (.revalue σ) := by
  induction h with
  | nil => rfl
  | @cons t u ts us htu _ ih =>
      obtain ⟨source, edge, target⟩ := u
      obtain ⟨hsource, hedge, htarget⟩ := htu
      rw [List.map_cons, ← ih, Triple.revalue, Triple.map, ← hsource, ← hedge, ← htarget]

/-- Two faults of one kind. -/
def RequestFault.SameKind (f f' : RequestFault) : Prop := f.kind = f'.kind

/-- An entity with the numbering after it, and the same with new values. -/
def Entity.Revalued (σ : String → Option String) (x y : Entity × Numbering) : Prop :=
  y = (x.1.revalue σ, x.2)

/-- The triple of two nodes with new values. -/
theorem Relationship.relate_revalue (σ : String → Option String) (r : Relationship)
    (n m : Node) : (r.revalue σ).relate (n.revalue σ) (m.revalue σ) = (r.relate n m).revalue σ := by
  have hdirection : (r.revalue σ).direction = r.direction := rfl
  rw [relate, relate, hdirection]
  cases r.direction <;> rfl

/-- Entities with new values are linked as the entities are. -/
theorem link_revalue (σ : String → Option String) (s : Numbering) (a b : Entity)
    (r : Relationship) (token token' : String) :
    SameOutcome RequestFault.SameKind (Entity.Revalued σ)
      (link s a r b token) (link s (a.revalue σ) (r.revalue σ) (b.revalue σ) token') := by
  have hstitch := stitch_related (keepsIdentity_revalue σ)
    (.cons (a.related_revalue σ)
      (.cons (.relationship (R := fun n m => m = n.revalue σ) (rfl : r.revalue σ = r.revalue σ))
        (.cons (b.related_revalue σ) .nil)))
  have hpath : SameOutcome RequestFault.SameKind (Entity.Revalued σ)
      (linkPath s a r b token)
      (linkPath s (a.revalue σ) (r.revalue σ) (b.revalue σ) token') := by
    rw [linkPath, linkPath]
    generalize stitch [a, .relationship r, b] = x at hstitch ⊢
    generalize stitch [a.revalue σ, .relationship (r.revalue σ), b.revalue σ] = y at hstitch ⊢
    cases hstitch with
    | error => exact .error rfl
    | ok htriples =>
        rw [Triple.eq_map_revalue htriples]
        exact .ok rfl
  rcases link_cases s a b r token with ⟨n, m, rfl, rfl⟩ | ⟨hlink, hnodes⟩
  · refine .ok (?_ : _ = _)
    rw [Entity.revalue, Relationship.relate_revalue]
  · rcases link_cases s (a.revalue σ) (b.revalue σ) (r.revalue σ) token' with
      ⟨n, m, ha, hb⟩ | ⟨hlink', -⟩
    · cases a with
      | node n' =>
          cases b with
          | node m' => exact absurd ⟨rfl, rfl⟩ (hnodes n' m')
          | relationship => cases hb
          | property => cases hb
          | triple => cases hb
          | path => cases hb
      | relationship => cases ha
      | property => cases ha
      | triple => cases ha
      | path => cases ha
    · rw [hlink, hlink']
      exact hpath

end CypherRoutes
