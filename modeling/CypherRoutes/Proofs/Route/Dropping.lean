/-
# Dropped properties

A step keeps a property that the entity has, unless it starts anew or attaches a property of the
same handle to every member that has it. So the properties behind a list of steps are those that
were there and that no step drops (`Trail.Formed.carries_followVisits_iff`).
-/
import CypherRoutes.Proofs.Route.Scope

namespace CypherRoutes

/-! ## Members that take a property -/

namespace Entity

/-- The node that takes the property of a step: a node itself, and in a composite the first node of
the label that the step selects. -/
def nodeTaker (e : Entity) (step : Step) : Option String :=
  match e with
  | node n => some n.var
  | relationship _ => none
  | e => (step.nodeSelector.bind fun label => e.nodes.find? (·.hasLabel label)).map Node.var

/-- The relationship that takes the property of a step: a relationship itself, and in a composite
the first relationship of the type that the step selects. -/
def edgeTaker (e : Entity) (step : Step) : Option String :=
  match e with
  | node _ => none
  | relationship r => some r.var
  | e => (step.edgeSelector.bind fun kind => e.edges.find? (·.hasKind kind)).map Relationship.var

/-- An entity before and after a property is attached to the node and to the relationship of given
variables, one of which it has. -/
structure GainsAt (p : Property) (node edge : Option String) (e e' : Entity) : Prop where
  nodes : e'.nodeCopies = e.nodeCopies.map fun n => if node = some n.var then n.attach p else n
  edges : e'.edgeCopies = e.edgeCopies.map fun r => if edge = some r.var then r.attach p else r
  taken : (∃ n ∈ e.nodeCopies, node = some n.var) ∨ ∃ r ∈ e.edgeCopies, edge = some r.var

theorem edges_attachToNode (e : Entity) (var : String) (p : Property) :
    (e.attachToNode var p).edges = e.edges := by
  cases e with
  | path g =>
      simp only [attachToNode, edges, Path.edges, Path.map, List.map_map]
      rfl
  | node => rfl
  | triple => rfl
  | relationship => rfl
  | property => rfl

theorem map_attachIf_node (ns : List Node) (var : String) (p : Property) :
    ns.map (·.attachIf var p)
      = ns.map fun n => if some var = some n.var then n.attach p else n := by
  refine List.map_congr_left fun n _ => if_congr ?_ rfl rfl
  rw [beq_iff_eq, Option.some.injEq, eq_comm]

theorem map_attachIf_edge (rs : List Relationship) (var : String) (p : Property) :
    rs.map (·.attachIf var p)
      = rs.map fun r => if some var = some r.var then r.attach p else r := by
  refine List.map_congr_left fun r _ => if_congr ?_ rfl rfl
  rw [beq_iff_eq, Option.some.injEq, eq_comm]

end Entity

namespace Trail

variable {e e' : Entity} {p : Property} {token : String}

/-- What attaching to the node of a label does. -/
theorem gainAtNode_eq_ok {label : Option String} (h : gainAtNode label p token e = .ok e') :
    let taker := (label.bind fun label => e.nodes.find? (·.hasLabel label)).map Node.var
    e'.nodeCopies = e.nodeCopies.map (fun n => if taker = some n.var then n.attach p else n) ∧
      e'.edgeCopies = e.edgeCopies ∧ e'.edges = e.edges ∧
      (label.isSome → ∃ n ∈ e.nodeCopies, taker = some n.var) := by
  cases label with
  | none =>
      obtain rfl := Except.ok.inj h
      simp
  | some label =>
      rw [gainAtNode, Entity.addPropToNode] at h
      cases hfind : e.nodes.find? (·.hasLabel label) with
      | none => simp [hfind] at h
      | some n =>
          simp only [hfind, Option.map_some, Except.ok.injEq] at h
          subst h
          have hmem := Entity.mem_nodeCopies_of_mem_nodes (List.mem_of_find?_eq_some hfind)
          simp only [Option.bind_some, hfind, Option.map_some]
          exact ⟨(e.nodeCopies_attachToNode n.var p).trans (Entity.map_attachIf_node _ _ p),
            e.edgeCopies_attachToNode n.var p, e.edges_attachToNode n.var p,
            fun _ => ⟨n, hmem, rfl⟩⟩

/-- What attaching to the relationship of a type does. -/
theorem gainAtEdge_eq_ok {kind : Option String} (h : gainAtEdge kind p token e = .ok e') :
    let taker := (kind.bind fun kind => e.edges.find? (·.hasKind kind)).map Relationship.var
    e'.nodeCopies = e.nodeCopies ∧
      e'.edgeCopies = e.edgeCopies.map (fun r => if taker = some r.var then r.attach p else r) ∧
      (kind.isSome → ∃ r ∈ e.edgeCopies, taker = some r.var) := by
  cases kind with
  | none =>
      obtain rfl := Except.ok.inj h
      simp
  | some kind =>
      rw [gainAtEdge, Entity.addPropToEdge] at h
      cases hfind : e.edges.find? (·.hasKind kind) with
      | none => simp [hfind] at h
      | some r =>
          simp only [hfind, Option.map_some, Except.ok.injEq] at h
          subst h
          have hmem := Entity.mem_edgeCopies_of_mem_edges (List.mem_of_find?_eq_some hfind)
          simp only [Option.bind_some, hfind, Option.map_some]
          exact ⟨e.nodeCopies_attachToEdge r.var p,
            (e.edgeCopies_attachToEdge r.var p).trans (Entity.map_attachIf_edge _ _ p),
            fun _ => ⟨r, hmem, rfl⟩⟩

/-- The members that a step selects take its property. -/
theorem gainsAt_of_attachSelected {step : Step} (h : attachSelected e p step token = .ok e') :
    e.GainsAt p
      ((step.nodeSelector.bind fun label => e.nodes.find? (·.hasLabel label)).map Node.var)
      ((step.edgeSelector.bind fun kind => e.edges.find? (·.hasKind kind)).map Relationship.var)
      e' := by
  rw [attachSelected] at h
  split_ifs at h with hnone
  obtain ⟨middle, hnode, hedge⟩ := bind_eq_ok_iff.mp h
  obtain ⟨hnodes, hcopies, hedges, hnodeTaken⟩ := gainAtNode_eq_ok hnode
  obtain ⟨hnodes', hcopies', hedgeTaken⟩ := gainAtEdge_eq_ok hedge
  rw [hcopies, hedges] at hcopies' hedgeTaken
  refine ⟨hnodes'.trans hnodes, hcopies', ?_⟩
  -- the step selects a node or a relationship
  cases hlabel : step.nodeSelector with
  | some label => exact .inl (hlabel ▸ hnodeTaken (by rw [hlabel]; rfl))
  | none =>
      refine .inr (hedgeTaken ?_)
      rw [hlabel] at hnone
      cases hkind : step.edgeSelector with
      | some kind => rfl
      | none => exact absurd (by rw [hkind]; rfl) hnone

/-- An attached property is taken by the takers of the step. -/
theorem gainsAt_of_attach {step : Step} (h : attach (some e) p step token = .ok e') :
    e.GainsAt p (e.nodeTaker step) (e.edgeTaker step) e' := by
  rw [attach_some] at h
  cases e with
  | node n =>
      obtain rfl := Except.ok.inj h
      refine ⟨?_, rfl, .inl ⟨n, List.mem_singleton_self n, rfl⟩⟩
      simp [Entity.nodeCopies, Entity.nodeTaker]
  | relationship r =>
      obtain rfl := Except.ok.inj h
      refine ⟨rfl, ?_, .inr ⟨r, List.mem_singleton_self r, rfl⟩⟩
      simp [Entity.edgeCopies, Entity.edgeTaker]
  | property => exact gainsAt_of_attachSelected h
  | triple => exact gainsAt_of_attachSelected h
  | path => exact gainsAt_of_attachSelected h

end Trail

/-! ## Dropped properties -/

/-- The handle of the property that a visit contributes. -/
def Visit.handle? (v : Visit) : Option String := (v.step.prop.map PropSpec.handle).or v.param

/-- A visit that builds an entity and does not link it to what was there. -/
def Visit.StartsAnew (v : Visit) : Prop := v.step.node.isSome ∧ v.step.edge = none

/-- Whether an entity has a property of a variable. -/
def Entity.Carries (e : Entity) (var : String) : Prop := ∃ q ∈ e.props, q.var = var

/-- Every member that has a property of the variable is the node or the relationship of a given
variable, and the property is of the handle. So another property of this handle, attached to these
two, takes its place. -/
def Entity.Overwritten (e : Entity) (handle node edge : Option String) (var : String) : Prop :=
  (∀ n ∈ e.nodeCopies, ∀ q ∈ n.props, q.var = var → handle = some q.handle ∧ node = some n.var) ∧
    ∀ r ∈ e.edgeCopies, ∀ q ∈ r.props, q.var = var → handle = some q.handle ∧ edge = some r.var

/-- A visit drops the property of a variable from an entity: it starts anew, or every member that
has the property takes another of the same handle. -/
def Visit.Drops (v : Visit) (e : Entity) (var : String) : Prop :=
  v.StartsAnew ∨ e.Overwritten v.handle? (e.nodeTaker v.step) (e.edgeTaker v.step) var

/-- One of the visits behind a trail drops the property of a variable. -/
inductive Trail.Loses (var : String) : Trail → List Visit → Prop where
  | here {trail : Trail} {e : Entity} {v : Visit} {rest : List Visit} : trail.entity = some e →
      v.Drops e var → Loses var trail (v :: rest)
  | later {trail trail' : Trail} {v : Visit} {rest : List Visit} :
      trail.followVisit v = .ok trail' → Loses var trail' rest → Loses var trail (v :: rest)

/-- The properties of a tidy entity are those of its members. -/
theorem Entity.carries_iff_members {e : Entity} (h : e.Tidy) {var : String} :
    e.Carries var ↔ (∃ n ∈ e.nodeCopies, ∃ q ∈ n.props, q.var = var) ∨
      ∃ r ∈ e.edgeCopies, ∃ q ∈ r.props, q.var = var := by
  constructor
  · rintro ⟨q, hq, hvar⟩
    rcases mem_props_iff.mp hq with ⟨n, hn, hqn⟩ | ⟨r, hr, hqr⟩ | hself
    · exact .inl ⟨n, hn, q, hqn, hvar⟩
    · exact .inr ⟨r, hr, q, hqr, hvar⟩
    · exact (h.self q hself).elim
  · rintro (⟨n, hn, q, hq, hvar⟩ | ⟨r, hr, q, hq, hvar⟩)
    · exact ⟨q, mem_props_of_mem_nodeCopies hn hq, hvar⟩
    · exact ⟨q, mem_props_of_mem_edgeCopies hr hq, hvar⟩

namespace Property

variable {owner : String} {props : List Property} {p : Property}

/-- An attached property is there. -/
theorem ownedBy_mem_attach (h : (props.map handle).Nodup) :
    p.ownedBy owner ∈ attach owner props p :=
  ((put_attach owner props p).mem_iff h).mpr (.inl rfl)

/-- A property of another variable is there still, unless it is of the same handle. -/
theorem exists_mem_attach_iff (h : (props.map handle).Nodup) {v : String} (hv : v ≠ p.var)
    {taken : Prop} [Decidable taken] :
    (∃ q ∈ if taken then attach owner props p else props, q.var = v) ↔
      ∃ q ∈ props, q.var = v ∧ ¬ (some p.handle = some q.handle ∧ taken) := by
  have hattach := fun q => (put_attach owner props p).mem_iff h (q := q)
  simp only [Option.some.injEq]
  by_cases htaken : taken
  · rw [if_pos htaken]
    constructor
    · rintro ⟨q, hq, rfl⟩
      rcases (hattach q).mp hq with rfl | ⟨hq, hhandle⟩
      · exact absurd rfl hv
      · exact ⟨q, hq, rfl, fun hsame => hhandle hsame.1.symm⟩
    · rintro ⟨q, hq, rfl, hhandle⟩
      exact ⟨q, (hattach q).mpr (.inr ⟨hq, fun hsame => hhandle ⟨hsame.symm, htaken⟩⟩), rfl⟩
  · simp [htaken]

end Property

namespace Entity.GainsAt

variable {p : Property} {node edge : Option String} {e e' : Entity}

/-- The property is there then. -/
theorem carries (h : e.GainsAt p node edge e') (he : e.Tidy) : e'.Carries p.var := by
  rcases h.taken with ⟨n, hn, htaken⟩ | ⟨r, hr, htaken⟩
  · have hmem : n.attach p ∈ e'.nodeCopies := by
      rw [h.nodes]
      exact List.mem_map.mpr ⟨n, hn, if_pos htaken⟩
    exact ⟨p.ownedBy n.var, mem_props_of_mem_nodeCopies hmem
      (Property.ownedBy_mem_attach (he.nodes n hn).handles), rfl⟩
  · have hmem : r.attach p ∈ e'.edgeCopies := by
      rw [h.edges]
      exact List.mem_map.mpr ⟨r, hr, if_pos htaken⟩
    exact ⟨p.ownedBy r.var, mem_props_of_mem_edgeCopies hmem
      (Property.ownedBy_mem_attach (he.edges r hr).handles), rfl⟩

/-- Another property is there still if some member that has it does not take one of its handle. -/
theorem carries_iff (h : e.GainsAt p node edge e') (he : e.Tidy) (he' : e'.Tidy) {v : String}
    (hv : v ≠ p.var) :
    e'.Carries v ↔ ¬ e.Overwritten (some p.handle) node edge v := by
  have hnode : ∀ n ∈ e.nodeCopies,
      (∃ q ∈ (if node = some n.var then n.attach p else n).props, q.var = v) ↔
        ∃ q ∈ n.props, q.var = v ∧ ¬ (some p.handle = some q.handle ∧ node = some n.var) := by
    intro n hn
    rw [apply_ite Node.props]
    exact Property.exists_mem_attach_iff (he.nodes n hn).handles hv
  have hedge : ∀ r ∈ e.edgeCopies,
      (∃ q ∈ (if edge = some r.var then r.attach p else r).props, q.var = v) ↔
        ∃ q ∈ r.props, q.var = v ∧ ¬ (some p.handle = some q.handle ∧ edge = some r.var) := by
    intro r hr
    rw [apply_ite Relationship.props]
    exact Property.exists_mem_attach_iff (he.edges r hr).handles hv
  rw [carries_iff_members he', h.nodes, h.edges, Overwritten, not_and_or]
  simp only [List.mem_map, exists_exists_and_eq_and, not_forall]
  refine or_congr ?_ ?_
  · constructor
    · rintro ⟨n, hn, hq⟩
      obtain ⟨q, hq, hvar, hkept⟩ := (hnode n hn).mp hq
      exact ⟨n, hn, q, hq, hvar, hkept⟩
    · rintro ⟨n, hn, q, hq, hvar, hkept⟩
      exact ⟨n, hn, (hnode n hn).mpr ⟨q, hq, hvar, hkept⟩⟩
  · constructor
    · rintro ⟨r, hr, hq⟩
      obtain ⟨q, hq, hvar, hkept⟩ := (hedge r hr).mp hq
      exact ⟨r, hr, q, hq, hvar, hkept⟩
    · rintro ⟨r, hr, q, hq, hvar, hkept⟩
      exact ⟨r, hr, (hedge r hr).mpr ⟨q, hq, hvar, hkept⟩⟩

end Entity.GainsAt

/-! ## Linked entities -/

namespace Entity

/-- The relationships of a connected entity are those of its triples. -/
theorem IsConnected.edgeCopies_eq {e : Entity} (h : e.IsConnected) :
    e.edgeCopies = e.triples.map Triple.edge := by
  rcases h.shape with ⟨n, rfl⟩ | ⟨t, rfl⟩ | ⟨g, rfl, -⟩
  · rfl
  · rfl
  · rfl

/-- What an entity carries is one of its variables. -/
theorem Carries.mem_vars {e : Entity} {var : String} (h : e.Carries var) : var ∈ e.vars := by
  obtain ⟨q, hq, rfl⟩ := h
  exact var_mem_vars_of_prop hq

/-- What is known of the entity of a trail, built before the numbering `s`. -/
structure Formed (s : Numbering) (e : Entity) : Prop where
  built : e.BuiltBetween .start s
  nodup : (e.arcs.map Arc.edge).Nodup
  tidy : e.Tidy
  connected : e.IsConnected

/-- A link carries what the two entities carry. -/
theorem Formed.carries_link_iff {s₁ s₂ s₃ : Numbering} {a b e : Entity} {spec : EdgeSpec}
    {token : String} (ha : a.Formed s₁) (hb : b.BuiltBetween s₁ s₂)
    (hnodup : (b.arcs.map Arc.edge).Nodup) (htidy : b.Tidy) (hconnected : b.IsConnected)
    (h : link (spec.build s₂).2 a (spec.build s₂).1 b token = .ok (e, s₃)) (var : String) :
    e.Carries var ↔ a.Carries var ∨ b.Carries var := by
  have hmade := madeOf_of_link h
  have hlinked := invariant_tidy.link ha.tidy htidy h
  have hconnected' := invariant_isConnected.link ha.connected hconnected h
  obtain ⟨n, -, m, -, htriples, hnodes⟩ :=
    link_between_build ha.nodup hnodup ha.built hb h
  have hedges : ∀ r, r ∈ a.edgeCopies ∨ r ∈ b.edgeCopies → r ∈ e.edgeCopies := by
    intro r hr
    rw [hconnected'.edgeCopies_eq, htriples, List.map_append, List.map_cons, List.mem_append,
      List.mem_cons, ← ha.connected.edgeCopies_eq, ← hconnected.edgeCopies_eq]
    exact hr.imp id .inr
  constructor
  · rintro ⟨q, hq, hvar⟩
    exact (hmade.mem_props (spec.props_build s₂) hq).imp (⟨q, ·, hvar⟩) (⟨q, ·, hvar⟩)
  · rw [carries_iff_members ha.tidy, carries_iff_members htidy, carries_iff_members hlinked]
    rintro ((⟨k, hk, h⟩ | ⟨r, hr, h⟩) | ⟨k, hk, h⟩ | ⟨r, hr, h⟩)
    · exact .inl ⟨k, (hnodes k).mpr (.inl hk), h⟩
    · exact .inr ⟨r, hedges r (.inl hr), h⟩
    · exact .inl ⟨k, (hnodes k).mpr (.inr hk), h⟩
    · exact .inr ⟨r, hedges r (.inr hr), h⟩

end Entity

/-! ## One step -/

/-- An entity gains no property but the one that is attached. -/
theorem Entity.Gains.mem_props {e e' : Entity} {p q : Property} (h : e.Gains p e')
    (hq : q ∈ e'.props) : q ∈ e.props ∨ ∃ owner, q = p.ownedBy owner := by
  cases h with
  | node var => exact mem_props_attachToNode hq
  | edge var => exact mem_props_attachToEdge hq
  | both var var' =>
      rcases mem_props_attachToEdge hq with hq | hq
      · exact mem_props_attachToNode hq
      · exact .inr hq

namespace Trail

/-- What is known of every trail. -/
structure Formed (trail : Trail) : Prop where
  sound : trail.Sound
  declares : ∃ introduced, trail.Declares introduced
  tidy : ∀ e, trail.entity = some e → e.Tidy
  connected : ∀ e, trail.entity = some e → e.IsConnected

theorem formed_start : Formed {} where
  sound := sound_start
  declares := ⟨[], declares_start⟩
  tidy _ he := nomatch he
  connected _ he := nomatch he

theorem Formed.followVisit {trail trail' : Trail} (h : trail.Formed) {v : Visit}
    (hfollow : trail.followVisit v = .ok trail') : trail'.Formed where
  sound := (h.sound.follow hfollow).1
  declares := by
    obtain ⟨introduced, hdeclares⟩ := h.declares
    exact ⟨_, hdeclares.follow h.sound hfollow⟩
  tidy := Entity.invariant_tidy.follow h.tidy hfollow
  connected := Entity.invariant_isConnected.follow h.connected hfollow

theorem Formed.followVisits {trail trail' : Trail} (h : trail.Formed) {visits : List Visit}
    (hfollow : trail.followVisits visits = .ok trail') : trail'.Formed := by
  induction visits generalizing trail with
  | nil =>
      obtain rfl := Except.ok.inj hfollow
      exact h
  | cons v rest ih =>
      obtain ⟨middle, hmiddle, hrest⟩ := bind_eq_ok_iff.mp hfollow
      exact ih (h.followVisit hmiddle) hrest

/-- Whether the entity of a trail has a property of a variable. -/
def Carries (trail : Trail) (var : String) : Prop := ∃ e, trail.entity = some e ∧ e.Carries var

/-- The entity of a trail with the property of a visit. -/
theorem Formed.attached {trail : Trail} (h : trail.Formed) {v : Visit} {e : Entity}
    (hattach : attachGiven trail.entity (propOf trail.numbering v.token v.step v.param).1 v.step
      v.token = .ok (some e)) :
    e.Formed (propOf trail.numbering v.token v.step v.param).2 where
  built := builtBetween_attachGiven h.sound.entity hattach e rfl
  nodup := by
    obtain ⟨introduced, hdeclares⟩ := h.declares
    obtain ⟨earlier, first, later, -, -, -, hshows⟩ :=
      declaredBy_attachGiven hdeclares.entity hattach e rfl
    exact hshows.nodup
  tidy := Entity.invariant_tidy.attachGiven h.tidy hattach e rfl
  connected := Entity.invariant_isConnected.attachGiven h.connected hattach e rfl

/-- The relationships that a step adds have different variables. -/
theorem nodup_introduce {s : Numbering} {token : String} {node : Option NodeSpec}
    {built : Option Entity × Numbering} (h : introduce s token node = .ok built) :
    ∀ e, built.1 = some e → (e.arcs.map Arc.edge).Nodup := by
  cases node with
  | none =>
      obtain rfl := Except.ok.inj h
      exact fun e he => nomatch he
  | some spec =>
      obtain ⟨⟨new, s'⟩, hbuild, rfl⟩ := map_eq_ok_iff.mp h
      intro e he
      obtain rfl := Option.some.inj he
      exact (NodeSpec.shows_build hbuild).1.nodup

/-- Connecting a step's entity leaves the properties, unless the step starts anew. -/
theorem carries_connect_iff {s : Numbering} {e : Entity} {v : Visit}
    {built connected : Option Entity × Numbering} (he : e.Formed s)
    (hbuilt : introduce s v.token v.step.node = .ok built)
    (hconnect : connect built.2 (some e) built.1 v.step v.token = .ok connected) {var : String}
    (hvar : s.Issued var) :
    (∃ e', connected.1 = some e' ∧ e'.Carries var) ↔ ¬ v.StartsAnew ∧ e.Carries var := by
  have hadded := (builtBetween_introduce hbuilt).2
  -- what the step adds has new variables only
  have hnew : ∀ new, built.1 = some new → ¬ new.Carries var := fun new hsome hcarries =>
    (hadded new hsome).isNew var hcarries.mem_vars hvar
  rcases connect_eq_ok hconnect with
    ⟨hnone, rfl⟩ | ⟨edge, incoming, new, linked, s', hsome, hincoming, hnew', hlink, rfl⟩
  · cases hnode : v.step.node with
    | none =>
        rw [hnode] at hbuilt
        obtain rfl := Except.ok.inj hbuilt
        have hgoes : ¬ v.StartsAnew := by simp [Visit.StartsAnew, hnode]
        simp [hgoes]
    | some spec =>
        have hanew : v.StartsAnew := ⟨by rw [hnode]; rfl, hnone⟩
        rw [hnode] at hbuilt
        obtain ⟨⟨new, s'⟩, -, rfl⟩ := map_eq_ok_iff.mp hbuilt
        simpa [hanew] using hnew new rfl
  · obtain rfl := Option.some.inj hincoming
    have hgoes : ¬ v.StartsAnew := by simp [Visit.StartsAnew, hsome]
    have hcarries := he.carries_link_iff (hadded new hnew') (nodup_introduce hbuilt new hnew')
      (Entity.invariant_tidy.introduce hbuilt new hnew')
      (Entity.invariant_isConnected.introduce hbuilt new hnew') hlink var
    simp [hgoes, hcarries, hnew new hnew']

/-- The property of a token has the handle of its visit. -/
theorem handle_propOf (s : Numbering) (v : Visit) :
    (propOf s v.token v.step v.param).1.map Property.handle = v.handle? := by
  unfold propOf Visit.handle?
  cases v.step.prop with
  | some spec => cases spec <;> rfl
  | none => cases v.param <;> rfl

section Step

variable {trail trail' : Trail} {v : Visit} {var : String}

/-- Where the properties of an entity are from that a step leaves: from the entity before it, from
the token, or from what the step adds, where the variables are new. -/
theorem mem_props_of_followVisit (hfollow : trail.followVisit v = .ok trail') {e : Entity}
    (he : trail'.entity = some e) {q : Property} (hq : q ∈ e.props) :
    (∃ before, trail.entity = some before ∧ q ∈ before.props) ∨
      (∃ p owner, (propOf trail.numbering v.token v.step v.param).1 = some p ∧
        q = p.ownedBy owner) ∨
      ¬ (propOf trail.numbering v.token v.step v.param).2.Issued q.var := by
  obtain ⟨entity, built, connected, hattach, hbuilt, hconnect, rfl⟩ :=
    follow_eq_ok_iff.mp hfollow
  have hnew : ∀ new, built.1 = some new → q ∈ new.props →
      ¬ (propOf trail.numbering v.token v.step v.param).2.Issued q.var := fun new hsome hq =>
    ((builtBetween_introduce hbuilt).2 new hsome).isNew _ (Entity.var_mem_vars_of_prop hq)
  have hold : ∀ middle, entity = some middle → q ∈ middle.props →
      (∃ before, trail.entity = some before ∧ q ∈ before.props) ∨
        ∃ p owner, (propOf trail.numbering v.token v.step v.param).1 = some p ∧
          q = p.ownedBy owner := by
    intro middle hmiddle hq
    cases hp : (propOf trail.numbering v.token v.step v.param).1 with
    | none =>
        rw [hp] at hattach
        exact .inl ⟨middle, (Except.ok.inj hattach).trans hmiddle, hq⟩
    | some p =>
        rw [hp] at hattach
        obtain ⟨gained, hgained, rfl⟩ := map_eq_ok_iff.mp hattach
        obtain rfl := Option.some.inj hmiddle
        obtain ⟨before, hbefore, hgains⟩ := attach_eq_ok hgained
        rcases hgains.mem_props hq with hq | ⟨owner, rfl⟩
        · exact .inl ⟨before, hbefore, hq⟩
        · exact .inr ⟨p, owner, rfl, rfl⟩
  rcases connect_eq_ok hconnect with
    ⟨-, rfl⟩ | ⟨edge, incoming, new, linked, s, -, rfl, hsome, hlink, rfl⟩
  · rcases Option.or_eq_some_iff.mp he with he | ⟨-, he⟩
    · exact .inr (.inr (hnew e he hq))
    · exact (hold e he hq).imp id .inl
  · obtain rfl := Option.some.inj he
    rcases (madeOf_of_link hlink).mem_props (edge.props_build built.2) hq with hq | hq
    · exact (hold incoming rfl hq).imp id .inl
    · exact .inr (.inr (hnew new hsome hq))

/-- A step keeps a property that was there before it exactly if it does not drop it. -/
theorem Formed.carries_followVisit_iff (h : trail.Formed)
    (hfollow : trail.followVisit v = .ok trail') {e : Entity} (he : trail.entity = some e)
    (hvar : trail.numbering.Issued var) : trail'.Carries var ↔ ¬ v.Drops e var := by
  obtain ⟨entity, built, connected, hattach, hbuilt, hconnect, rfl⟩ :=
    follow_eq_ok_iff.mp hfollow
  have hhandle := handle_propOf trail.numbering v
  have hissued := hvar.mono (before_propOf trail.numbering v.token v.step v.param)
  -- the entity with the property of the token
  have hmiddle : ∃ middle, entity = some middle ∧ (middle.Carries var ↔
      ¬ e.Overwritten v.handle? (e.nodeTaker v.step) (e.edgeTaker v.step) var) := by
    rw [he] at hattach
    cases hp : (propOf trail.numbering v.token v.step v.param).1 with
    | none =>
        rw [hp] at hattach hhandle
        obtain rfl := Except.ok.inj hattach
        refine ⟨e, rfl, ?_⟩
        rw [Entity.carries_iff_members (h.tidy e he), ← hhandle, Entity.Overwritten, not_and_or]
        simp
    | some p =>
        rw [hp] at hattach hhandle
        obtain ⟨middle, hgained, rfl⟩ := map_eq_ok_iff.mp hattach
        obtain ⟨_, hsame, hgains⟩ := attach_eq_ok hgained
        obtain rfl := Option.some.inj hsame
        have htidy : middle.Tidy := Entity.invariant_tidy.gains (h.tidy e he) hgains
        have hne : var ≠ p.var := fun heq =>
          (takes_propOf (Prod.ext hp rfl)).isNew (heq ▸ hvar)
        refine ⟨middle, rfl, ?_⟩
        rw [(gainsAt_of_attach hgained).carries_iff (h.tidy e he) htidy hne, ← hhandle]
        rfl
  obtain ⟨middle, rfl, hcarries⟩ := hmiddle
  rw [Visit.Drops, not_or, ← hcarries]
  exact carries_connect_iff (h.attached hattach) hbuilt hconnect hissued

/-- A step keeps its own property unless it starts anew. -/
theorem Formed.carries_own_iff (h : trail.Formed) (hfollow : trail.followVisit v = .ok trail')
    {p : Property} (hp : (propOf trail.numbering v.token v.step v.param).1 = some p) :
    trail'.Carries p.var ↔ ¬ v.StartsAnew := by
  obtain ⟨entity, built, connected, hattach, hbuilt, hconnect, rfl⟩ :=
    follow_eq_ok_iff.mp hfollow
  have hissued := (takes_propOf (Prod.ext hp rfl)).issued
  have hattach' := hattach
  rw [hp] at hattach'
  obtain ⟨middle, hgained, rfl⟩ := map_eq_ok_iff.mp hattach'
  obtain ⟨e, he, -⟩ := attach_eq_ok hgained
  rw [he] at hgained
  have hcarries : middle.Carries p.var := (gainsAt_of_attach hgained).carries (h.tidy e he)
  rw [← and_iff_left (a := ¬ v.StartsAnew) hcarries]
  exact carries_connect_iff (h.attached hattach) hbuilt hconnect hissued

/-- A property that was named before a step and is there behind it was there before. -/
theorem carries_of_followVisit (hfollow : trail.followVisit v = .ok trail')
    (hvar : trail.numbering.Issued var) (hcarries : trail'.Carries var) : trail.Carries var := by
  obtain ⟨e, he, q, hq, rfl⟩ := hcarries
  rcases mem_props_of_followVisit hfollow he hq with
    ⟨before, hbefore, hq⟩ | ⟨p, owner, hp, rfl⟩ | hnew
  · exact ⟨before, hbefore, q, hq, rfl⟩
  · exact absurd hvar (takes_propOf (Prod.ext hp rfl)).isNew
  · exact absurd (hvar.mono (before_propOf trail.numbering v.token v.step v.param)) hnew

/-- Every property of the variable of `p` is `p`, of some owner. -/
def Copies (trail : Trail) (p : Property) : Prop :=
  ∀ e, trail.entity = some e → ∀ q ∈ e.props, q.var = p.var → ∃ owner, q = p.ownedBy owner

/-- A step changes no property that was named before it. -/
theorem copies_followVisit (hfollow : trail.followVisit v = .ok trail') {p : Property}
    (hvar : trail.numbering.Issued p.var) (h : trail.Copies p) : trail'.Copies p := by
  intro e he q hq hqvar
  rcases mem_props_of_followVisit hfollow he hq with
    ⟨before, hbefore, hq⟩ | ⟨p', owner, hp, rfl⟩ | hnew
  · exact h before hbefore q hq hqvar
  · rw [← hqvar] at hvar
    exact absurd hvar (takes_propOf (Prod.ext hp rfl)).isNew
  · rw [← hqvar] at hvar
    exact absurd (hvar.mono (before_propOf trail.numbering v.token v.step v.param)) hnew

/-- Its own property is the only one of its variable. -/
theorem Formed.copies_own (h : trail.Formed) (hfollow : trail.followVisit v = .ok trail')
    {p : Property} (hp : (propOf trail.numbering v.token v.step v.param).1 = some p) :
    trail'.Copies p := by
  have htakes := takes_propOf (Prod.ext hp rfl)
  intro e he q hq hvar
  rcases mem_props_of_followVisit hfollow he hq with
    ⟨before, hbefore, hq⟩ | ⟨p', owner, hp', rfl⟩ | hnew
  · have hissued := (h.sound.entity before hbefore).issued _ (Entity.var_mem_vars_of_prop hq)
    exact absurd (hvar ▸ hissued) htakes.isNew
  · obtain rfl := Option.some.inj (hp.symm.trans hp')
    exact ⟨owner, rfl⟩
  · exact absurd (hvar ▸ htakes.issued) hnew

/-- A step that drops a property starts anew or has a property of the same handle. -/
theorem Formed.cause_of_drops (h : trail.Formed) {p : Property} (hcopies : trail.Copies p)
    (hcarries : trail.Carries p.var) {e : Entity} (he : trail.entity = some e)
    (hdrops : v.Drops e p.var) : v.StartsAnew ∨ v.handle? = some p.handle := by
  rcases hdrops with hanew | ⟨hnodes, hedges⟩
  · exact .inl hanew
  · obtain ⟨e', he', hcarries⟩ := hcarries
    obtain rfl := Option.some.inj (he.symm.trans he')
    refine .inr ?_
    rcases (Entity.carries_iff_members (h.tidy e he)).mp hcarries with
      ⟨n, hn, q, hq, hvar⟩ | ⟨r, hr, q, hq, hvar⟩
    · obtain ⟨owner, rfl⟩ := hcopies e he q (Entity.mem_props_of_mem_nodeCopies hn hq) hvar
      exact (hnodes n hn _ hq rfl).1
    · obtain ⟨owner, rfl⟩ := hcopies e he q (Entity.mem_props_of_mem_edgeCopies hr hq) hvar
      exact (hedges r hr _ hq rfl).1

end Step

/-! ## All steps -/

/-- A property that was named before a list of visits is there behind them exactly if it was there
before, and none of them drops it. -/
theorem Formed.carries_followVisits_iff {trail trail' : Trail} (h : trail.Formed)
    {visits : List Visit} (hfollow : trail.followVisits visits = .ok trail') {var : String}
    (hvar : trail.numbering.Issued var) :
    trail'.Carries var ↔ trail.Carries var ∧ ¬ trail.Loses var visits := by
  induction visits generalizing trail with
  | nil =>
      obtain rfl := Except.ok.inj hfollow
      exact ⟨fun hcarries => ⟨hcarries, fun hloses => by cases hloses⟩, And.left⟩
  | cons v rest ih =>
      obtain ⟨middle, hmiddle, hrest⟩ := bind_eq_ok_iff.mp hfollow
      have hissued := hvar.mono (h.sound.follow hmiddle).2
      rw [ih (h.followVisit hmiddle) hrest hissued]
      constructor
      · rintro ⟨hcarries, hlater⟩
        obtain ⟨e, he, hbefore⟩ := carries_of_followVisit hmiddle hvar hcarries
        refine ⟨⟨e, he, hbefore⟩, fun hloses => ?_⟩
        cases hloses with
        | here he' hdrops =>
            obtain rfl := Option.some.inj (he.symm.trans he')
            exact (h.carries_followVisit_iff hmiddle he hvar).mp hcarries hdrops
        | later hmiddle' hloses =>
            obtain rfl := Except.ok.inj (hmiddle.symm.trans hmiddle')
            exact hlater hloses
      · rintro ⟨⟨e, he, -⟩, hkept⟩
        refine ⟨(h.carries_followVisit_iff hmiddle he hvar).mpr fun hdrops => ?_, fun hloses => ?_⟩
        · exact hkept (.here he hdrops)
        · exact hkept (.later hmiddle hloses)

/-- A list of visits changes no property that was named before it. -/
theorem Formed.copies_followVisits {trail trail' : Trail} (h : trail.Formed)
    {visits : List Visit} (hfollow : trail.followVisits visits = .ok trail') {p : Property}
    (hvar : trail.numbering.Issued p.var) (hcopies : trail.Copies p) : trail'.Copies p := by
  induction visits generalizing trail with
  | nil =>
      obtain rfl := Except.ok.inj hfollow
      exact hcopies
  | cons v rest ih =>
      obtain ⟨middle, hmiddle, hrest⟩ := bind_eq_ok_iff.mp hfollow
      exact ih (h.followVisit hmiddle) hrest (hvar.mono (h.sound.follow hmiddle).2)
        (copies_followVisit hmiddle hvar hcopies)

/-- If one of the visits drops a property, one starts anew or has a property of the same handle. -/
theorem Formed.cause_of_loses {trail : Trail} (h : trail.Formed) {p : Property}
    (hvar : trail.numbering.Issued p.var) (hcopies : trail.Copies p)
    (hcarries : trail.Carries p.var) {visits : List Visit} (hloses : trail.Loses p.var visits) :
    ∃ w ∈ visits, w.StartsAnew ∨ w.handle? = some p.handle := by
  induction hloses with
  | here he hdrops =>
      exact ⟨_, List.mem_cons_self, h.cause_of_drops hcopies hcarries he hdrops⟩
  | @later trail trail' v rest hfollow _ ih =>
      obtain ⟨e, he, -⟩ := id hcarries
      by_cases hdrops : v.Drops e p.var
      · exact ⟨v, List.mem_cons_self, h.cause_of_drops hcopies hcarries he hdrops⟩
      · obtain ⟨w, hw, hcause⟩ := ih (h.followVisit hfollow)
          (hvar.mono (h.sound.follow hfollow).2) (copies_followVisit hfollow hvar hcopies)
          ((h.carries_followVisit_iff hfollow he hvar).mpr hdrops)
        exact ⟨w, List.mem_cons_of_mem v hw, hcause⟩

/-- Visits are followed one list after the other. -/
theorem followVisits_append_eq_ok_iff {trail trail' : Trail} {visits more : List Visit} :
    trail.followVisits (visits ++ more) = .ok trail' ↔
      ∃ middle, trail.followVisits visits = .ok middle ∧ middle.followVisits more = .ok trail' := by
  induction visits generalizing trail with
  | nil =>
      constructor
      · exact fun h => ⟨trail, rfl, h⟩
      · rintro ⟨middle, hmiddle, h⟩
        obtain rfl := Except.ok.inj hmiddle
        exact h
  | cons v rest ih =>
      rw [List.cons_append, followVisits, followVisits, bind_eq_ok_iff]
      simp only [bind_eq_ok_iff, ih]
      constructor
      · rintro ⟨first, hfirst, middle, hmiddle, h⟩
        exact ⟨middle, ⟨first, hfirst, hmiddle⟩, h⟩
      · rintro ⟨middle, ⟨first, hfirst, hmiddle⟩, h⟩
        exact ⟨first, hfirst, middle, hmiddle, h⟩

end Trail

end CypherRoutes
