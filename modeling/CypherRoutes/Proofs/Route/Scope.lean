/-
# Scope

A compiled statement matches one connected pattern and returns what the pattern has: every variable
that a returned item names is shown in the pattern, and no two nodes or relationships of the
pattern have one variable (`RouteTable.scoped_of_compile`). What holds of single nodes, is kept when
a property is attached, and is kept when two entities are linked, holds of every entity that a route
builds (`Trail.Invariant.followVisits`).
-/
import CypherRoutes.Proofs.Graph.All
import CypherRoutes.Proofs.Graph.Attaching
import CypherRoutes.Proofs.Route.Declared

namespace CypherRoutes

/-! ## Invariants of building -/

/-- What every entity of a trail has, as nodes have it and as gaining a property and linking keep
it. -/
structure Trail.Invariant (I : Entity → Prop) : Prop where
  node : ∀ (s : Numbering) (label : Option String), I (.node (s.node label).1)
  gains : ∀ {e e' : Entity} {p : Property}, I e → e.Gains p e' → I e'
  link : ∀ {s s' : Numbering} {a b e : Entity} {edge : EdgeSpec} {token : String}, I a → I b →
    CypherRoutes.link (edge.build s).2 a (edge.build s).1 b token = .ok (e, s') → I e

namespace Trail.Invariant

variable {I : Entity → Prop}

theorem buildNode (h : Invariant I) (s : Numbering) (name : String) (prop : Option PropSpec) :
    I (.node (NodeSpec.buildNode s name prop).1) := by
  have hnode := h.node s (some name)
  cases prop with
  | none => exact hnode
  | some spec =>
      have hself : Entity.node (NodeSpec.buildNode s name (some spec)).1
          = (Entity.node (s.node (some name)).1).attachToNode (s.node (some name)).1.var
            (spec.build (s.node (some name)).2 none).1 := by
        rw [Entity.attachToNode, if_pos (beq_self_eq_true _)]
        rfl
      exact hself ▸ h.gains hnode (.node _ _)

/-- What a level builds has it. -/
theorem build (h : Invariant I) {spec : NodeSpec} {s s' : Numbering} {token : String} {e : Entity}
    (hbuild : spec.build s token = .ok (e, s')) : I e := by
  induction spec generalizing s s' e with
  | label name =>
      obtain ⟨rfl, rfl⟩ := Prod.mk.inj (Except.ok.inj hbuild)
      exact h.node s (some name)
  | unlabelled =>
      obtain ⟨rfl, rfl⟩ := Prod.mk.inj (Except.ok.inj hbuild)
      exact h.node s none
  | block name prop =>
      obtain ⟨rfl, rfl⟩ := Prod.mk.inj (Except.ok.inj hbuild)
      exact h.buildNode s name prop
  | linked name prop edge target ih =>
      obtain ⟨⟨m, s₂⟩, htarget, hlink⟩ := bind_eq_ok_iff.mp hbuild
      exact h.link (h.buildNode s name prop) (ih htarget) hlink

/-- Attaching the property of a token keeps it. -/
theorem attachGiven (h : Invariant I) {entity entity' : Option Entity} {p : Option Property}
    {step : Step} {token : String} (hentity : ∀ e, entity = some e → I e)
    (hattach : Trail.attachGiven entity p step token = .ok entity') :
    ∀ e, entity' = some e → I e := by
  cases p with
  | none => exact Except.ok.inj hattach ▸ hentity
  | some p =>
      obtain ⟨gained, hgained, rfl⟩ := map_eq_ok_iff.mp hattach
      obtain ⟨before, hbefore, hgains⟩ := attach_eq_ok hgained
      intro e he
      obtain rfl := Option.some.inj he
      exact h.gains (hentity before hbefore) hgains

/-- What a step adds has it. -/
theorem introduce (h : Invariant I) {s : Numbering} {token : String} {node : Option NodeSpec}
    {built : Option Entity × Numbering} (hbuilt : Trail.introduce s token node = .ok built) :
    ∀ e, built.1 = some e → I e := by
  cases node with
  | none =>
      obtain rfl := Except.ok.inj hbuilt
      exact fun e he => nomatch he
  | some spec =>
      obtain ⟨⟨new, s'⟩, hbuild, rfl⟩ := map_eq_ok_iff.mp hbuilt
      intro e he
      obtain rfl := Option.some.inj he
      exact h.build hbuild

/-- One step keeps it. -/
theorem follow (h : Invariant I) {trail trail' : Trail} {token : String} {step : Step}
    {param : Option String} (htrail : ∀ e, trail.entity = some e → I e)
    (hfollow : trail.follow token step param = .ok trail') :
    ∀ e, trail'.entity = some e → I e := by
  obtain ⟨entity, built, connected, hattach, hbuilt, hconnect, rfl⟩ :=
    follow_eq_ok_iff.mp hfollow
  have hentity := h.attachGiven htrail hattach
  have hadded := h.introduce hbuilt
  intro e he
  rcases connect_eq_ok hconnect with
    ⟨-, rfl⟩ | ⟨edge, incoming, new, e', s, -, rfl, hnew, hlink, rfl⟩
  · rcases Option.or_eq_some_iff.mp he with he | ⟨-, he⟩
    · exact hadded e he
    · exact hentity e he
  · obtain rfl := Option.some.inj he
    exact h.link (hentity incoming rfl) (hadded new hnew) hlink

/-- So does any number of visits. -/
theorem followVisits (h : Invariant I) {trail trail' : Trail} {visits : List Visit}
    (htrail : ∀ e, trail.entity = some e → I e)
    (hfollow : trail.followVisits visits = .ok trail') :
    ∀ e, trail'.entity = some e → I e := by
  induction visits generalizing trail with
  | nil =>
      obtain rfl := Except.ok.inj hfollow
      exact htrail
  | cons v rest ih =>
      obtain ⟨middle, hmiddle, hrest⟩ := bind_eq_ok_iff.mp hfollow
      exact ih (h.follow htrail hmiddle) hrest

end Trail.Invariant

/-! ## One connected pattern -/

/-- A list of triples is connected if one with the same ends is. -/
theorem Connected.of_ends {xs ys : List Triple} (hends : xs.map Triple.ends = ys.map Triple.ends)
    (h : Connected xs) : Connected ys := by
  have hvar : ∀ n ∈ ys.flatMap Triple.nodes, ∃ m ∈ xs.flatMap Triple.nodes, m.var = n.var := by
    intro n hn
    obtain ⟨t, ht, hnt⟩ := List.mem_flatMap.mp hn
    have htends : t.ends ∈ xs.map Triple.ends := hends ▸ List.mem_map_of_mem ht
    obtain ⟨u, hu, hut⟩ := List.mem_map.mp htends
    rw [Triple.nodes, List.mem_pair] at hnt
    rcases hnt with rfl | rfl
    · exact ⟨u.source, List.mem_flatMap.mpr ⟨u, hu, u.source_mem_nodes⟩, congrArg Ends.source hut⟩
    · exact ⟨u.target, List.mem_flatMap.mpr ⟨u, hu, u.target_mem_nodes⟩, congrArg Ends.target hut⟩
  intro n hn m hm
  obtain ⟨n', hn', hnvar⟩ := hvar n hn
  obtain ⟨m', hm', hmvar⟩ := hvar m hm
  rw [← hnvar, ← hmvar]
  exact (h n' hn' m' hm').mono fun e he => hends ▸ he

namespace Entity

/-- One node, or triples that are connected. -/
def IsConnected (e : Entity) : Prop :=
  (∃ n, e = .node n) ∨ e.triples ≠ [] ∧ Connected e.triples

/-- The triples of a connected entity are connected, a node having none. -/
theorem IsConnected.triples {e : Entity} (h : e.IsConnected) : Connected e.triples := by
  rcases h with ⟨n, rfl⟩ | ⟨-, h⟩
  · exact connected_nil
  · exact h

/-- It is a node, a triple, or a path that has triples. -/
theorem IsConnected.shape {e : Entity} (h : e.IsConnected) :
    (∃ n, e = .node n) ∨ (∃ t, e = .triple t) ∨ ∃ g, e = .path g ∧ g.triples ≠ [] := by
  rcases h with ⟨n, rfl⟩ | ⟨hne, -⟩
  · exact .inl ⟨n, rfl⟩
  · cases e with
    | node n => exact .inl ⟨n, rfl⟩
    | triple t => exact .inr (.inl ⟨t, rfl⟩)
    | path g => exact .inr (.inr ⟨g, rfl, hne⟩)
    | relationship => exact absurd rfl hne
    | property => exact absurd rfl hne

/-- Gaining a property changes no relationship that is drawn. -/
theorem Gains.arcs_eq {e e' : Entity} {p : Property} (h : e.Gains p e') : e'.arcs = e.arcs := by
  cases h with
  | node var => exact arcs_attachToNode e var p
  | edge var => exact arcs_attachToEdge e var p
  | both var var' => rw [arcs_attachToEdge, arcs_attachToNode]

/-- So it changes no end. -/
theorem Gains.ends_eq {e e' : Entity} {p : Property} (h : e.Gains p e') :
    e'.triples.map Triple.ends = e.triples.map Triple.ends := by
  have hends : ∀ a : Entity, a.triples.map Triple.ends
      = a.arcs.map fun arc => ⟨arc.source.var, arc.edge, arc.target.var⟩ := by
    intro a
    rw [arcs_eq_map, List.map_map]
    rfl
  rw [hends, hends, h.arcs_eq]

/-- A node that gains a property is a node still. -/
theorem Gains.of_node {n : Node} {e' : Entity} {p : Property}
    (h : (Entity.node n).Gains p e') : ∃ m, e' = .node m := by
  cases h with
  | node => exact ⟨_, rfl⟩
  | edge => exact ⟨_, rfl⟩
  | both => exact ⟨_, rfl⟩

theorem invariant_isConnected : Trail.Invariant IsConnected where
  node s label := .inl ⟨_, rfl⟩
  gains {e e' p} h hgains := by
    rcases h with ⟨n, rfl⟩ | ⟨hne, hconnected⟩
    · exact .inl hgains.of_node
    · refine .inr ⟨fun hnil => hne ?_, hconnected.of_ends hgains.ends_eq.symm⟩
      have hends := hgains.ends_eq
      rw [hnil] at hends
      exact List.map_eq_nil_iff.mp hends.symm
  link {s s' a b e edge token} ha hb hlink := by
    rcases link_eq_ok hlink with ⟨n, m, rfl, rfl, rfl, -⟩ | ⟨triples, hstitch, rfl, -⟩
    · exact .inr ⟨List.cons_ne_nil _ _, connected_singleton _⟩
    · have hentities : ∀ x ∈ [a, .relationship (edge.build s).1, b], Connected x.triples := by
        intro x hx
        simp only [List.mem_cons, List.not_mem_nil, or_false] at hx
        rcases hx with rfl | rfl | rfl
        · exact ha.triples
        · exact connected_nil
        · exact hb.triples
      exact .inr ⟨(supplies_of_stitch hstitch).1, (sound_of_stitch hstitch hentities).connected⟩

end Entity

/-! ## Members -/

/-- A node that is written with its variable, has one property of each handle, and owns them all. -/
structure Node.Tidy (n : Node) : Prop where
  shown : n.anonymous = false
  owned : ∀ p ∈ n.props, p.owner = some n.var
  handles : (n.props.map Property.handle).Nodup
  var : ∃ i, n.var = Numbering.varName 'n' i

/-- The same for a relationship. -/
structure Relationship.Tidy (r : Relationship) : Prop where
  shown : r.anonymous = false
  owned : ∀ p ∈ r.props, p.owner = some r.var
  handles : (r.props.map Property.handle).Nodup
  var : ∃ i, r.var = Numbering.varName 'r' i

/-- An entity with tidy nodes and relationships, which is no property. -/
abbrev Entity.Tidy : Entity → Prop := Entity.All Node.Tidy Relationship.Tidy fun _ => False

theorem Node.Tidy.attach {n : Node} (h : n.Tidy) (p : Property) : (n.attach p).Tidy where
  shown := h.shown
  owned q hq := by
    rcases Property.mem_attach hq with hq | rfl
    · exact h.owned q hq
    · rfl
  handles := (Property.put_attach _ _ _).nodup_handles h.handles
  var := h.var

theorem Relationship.Tidy.attach {r : Relationship} (h : r.Tidy) (p : Property) :
    (r.attach p).Tidy where
  shown := h.shown
  owned q hq := by
    rcases Property.mem_attach hq with hq | rfl
    · exact h.owned q hq
    · rfl
  handles := (Property.put_attach _ _ _).nodup_handles h.handles
  var := h.var

theorem Entity.invariant_tidy : Trail.Invariant Entity.Tidy where
  node s label := Entity.all_node
    ⟨rfl, fun p hp => absurd hp List.not_mem_nil, List.nodup_nil, s.nodes, rfl⟩
  gains {e e' p} h hgains := by
    cases hgains with
    | node var => exact h.attachToNode var fun n hn => hn.attach p
    | edge var => exact h.attachToEdge var fun r hr => hr.attach p
    | both var var' =>
        exact All.attachToEdge (h.attachToNode var fun n hn => hn.attach p) var'
          fun r hr => hr.attach p
  link {s s' a b e edge token} ha hb hlink :=
    .of_madeOf (madeOf_of_link hlink) ha hb
      ⟨rfl, fun p hp => absurd hp List.not_mem_nil, List.nodup_nil, s.relationships, rfl⟩

/-! ## Variables that a pattern shows -/

/-- A phrase shows the variable of a node behind a parenthesis, or that of a relationship behind a
bracket. -/
def Phrase.Shows (phrase : Phrase) (v : String) : Prop :=
  ∃ label, .verbatim ("(" ++ headText false v label) ∈ phrase ∨
    .verbatim ("-[" ++ headText false v label) ∈ phrase

theorem Phrase.Shows.mono {a b : Phrase} {v : String} (h : a.Shows v) (hab : a ⊆ b) :
    b.Shows v := by
  obtain ⟨label, hv⟩ := h
  exact ⟨label, hv.imp (fun hv => hab hv) (fun hv => hab hv)⟩

/-- Joined phrases hold the pieces of each. -/
theorem Phrase.subset_joined (separator : String) {phrases : List Phrase} {phrase : Phrase}
    (h : phrase ∈ phrases) : phrase ⊆ joined separator phrases := by
  rw [joined]
  induction phrases with
  | nil => exact absurd h List.not_mem_nil
  | cons first rest ih =>
      cases rest with
      | nil =>
          rw [List.mem_singleton.mp h, List.intercalate_singleton]
          exact List.Subset.refl _
      | cons second rest =>
          rw [List.intercalate_cons_cons]
          rcases List.mem_cons.mp h with rfl | h
          · exact fun piece hpiece => List.mem_append_left _ (List.mem_append_left _ hpiece)
          · exact fun piece hpiece => List.mem_append_right _ (ih h hpiece)

theorem Node.shows_pattern {n : Node} (h : n.Tidy) : n.pattern.Shows n.var := by
  refine ⟨n.label, .inl ?_⟩
  rw [pattern, h.shown]
  exact List.mem_cons_self

theorem Relationship.shows_pattern {r : Relationship} (h : r.Tidy) : r.pattern.Shows r.var := by
  refine ⟨r.kind, .inr ?_⟩
  simp only [pattern, h.shown, Bool.false_and, Bool.false_eq_true, if_false]
  exact List.mem_cons_self

theorem Relationship.subset_arrow (r : Relationship) (d : Direction) :
    r.pattern ⊆ r.arrow d :=
  fun _ hpiece => List.mem_cons_of_mem _ (List.mem_append_left _ hpiece)

namespace Walk

variable {w : Walk}

/-- A walk is written with all its nodes. -/
theorem subset_pattern_of_node {n : Node} (h : n ∈ w.nodes) : n.pattern ⊆ w.pattern := by
  intro piece hpiece
  rcases List.mem_cons.mp h with rfl | h
  · exact List.mem_append_left _ hpiece
  · obtain ⟨hop, hhop, rfl⟩ := List.mem_map.mp h
    refine List.mem_append_right _ (List.mem_flatMap.mpr ⟨hop, hhop, ?_⟩)
    exact List.mem_append_right _ hpiece

/-- It is written with all its edges. -/
theorem subset_pattern_of_edge {r : Relationship} (h : r ∈ w.edges) : r.pattern ⊆ w.pattern := by
  intro piece hpiece
  obtain ⟨hop, hhop, rfl⟩ := List.mem_map.mp h
  refine List.mem_append_right _ (List.mem_flatMap.mpr ⟨hop, hhop, ?_⟩)
  exact List.mem_append_left _ (hop.edge.subset_arrow hop.direction hpiece)

end Walk

namespace Entity

variable {e : Entity}

/-- The pattern of an entity shows the variables of its nodes. -/
theorem shows_of_node (h : e.Tidy) {n : Node} (hn : n ∈ e.nodeCopies) :
    ∃ phrase ∈ e.patterns, phrase.Shows n.var := by
  cases e with
  | node m =>
      obtain rfl := List.mem_singleton.mp hn
      exact ⟨_, List.mem_singleton_self _, n.shows_pattern h.node⟩
  | triple t =>
      refine ⟨_, List.mem_singleton_self _, ?_⟩
      rw [nodeCopies, Triple.nodes, List.mem_pair] at hn
      rcases hn with rfl | rfl
      · refine (Node.shows_pattern h.source).mono fun piece hpiece => ?_
        exact List.mem_append_left _ (List.mem_append_left _ hpiece)
      · exact (Node.shows_pattern h.target).mono fun piece hpiece => List.mem_append_right _ hpiece
  | path g =>
      refine ⟨_, List.mem_singleton_self _, ?_⟩
      -- a walk shows a copy of the node, which need not be this one
      obtain ⟨m, hm, hvar⟩ := g.standsFor_walks.exists_copy n hn
      obtain ⟨w, hw, hmw⟩ := List.mem_flatMap.mp hm
      have hshown := Node.shows_pattern (h.nodes m (g.standsFor_walks.subset hm))
      rw [← hvar]
      refine hshown.mono (List.Subset.trans (Walk.subset_pattern_of_node hmw) ?_)
      exact Phrase.subset_joined _ (List.mem_map_of_mem hw)
  | relationship => exact absurd hn List.not_mem_nil
  | property => exact absurd hn List.not_mem_nil

/-- It shows the variables of its relationships. -/
theorem shows_of_edge (h : e.Tidy) {r : Relationship} (hr : r ∈ e.edgeCopies) :
    ∃ phrase ∈ e.patterns, phrase.Shows r.var := by
  have hshown := Relationship.shows_pattern (h.edges r hr)
  cases e with
  | relationship q =>
      obtain rfl := List.mem_singleton.mp hr
      exact ⟨_, List.mem_singleton_self _, hshown⟩
  | triple t =>
      refine ⟨_, List.mem_singleton_self _, hshown.mono fun piece hpiece => ?_⟩
      obtain rfl := List.mem_singleton.mp hr
      exact List.mem_append_left _ (List.mem_append_right _ (t.edge.subset_arrow .right hpiece))
  | path g =>
      refine ⟨_, List.mem_singleton_self _, hshown.mono ?_⟩
      obtain ⟨w, hw, hrw⟩ := List.mem_flatMap.mp (g.perm_edges_walks.mem_iff.mpr hr)
      refine List.Subset.trans (Walk.subset_pattern_of_edge hrw) ?_
      exact Phrase.subset_joined _ (List.mem_map_of_mem hw)
  | node => exact absurd hr List.not_mem_nil
  | property => exact absurd hr List.not_mem_nil

/-- What a pattern of the entity shows is shown by the clause that matches the entity. -/
theorem shows_matching {v : String} (h : ∃ phrase ∈ e.patterns, phrase.Shows v) :
    (Clause.matching [.entity e]).phrase.Shows v := by
  obtain ⟨phrase, hphrase, hshows⟩ := h
  refine hshows.mono fun piece hpiece => List.mem_cons_of_mem _ ?_
  refine Phrase.subset_joined _ ?_ hpiece
  rw [Term.allPhrases, Term.allPhrases, List.append_nil]
  exact hphrase

end Entity

/-! ## Variables that returned items name -/

/-- A phrase is about a variable: it is the variable, perhaps under another name, or a condition on
a property of what the variable stands for. -/
inductive Phrase.About (v : String) : Phrase → Prop where
  | item (asName : Option String) : About v (Phrase.ofText (itemText v asName))
  | condition (handle var : String) (value : Value) :
      About v [.verbatim (v ++ "." ++ handle ++ " = "), .slot var value]

/-- A term in scope: what is written of every entity in it is about a shown variable. -/
inductive Term.Scoped (shown : String → Prop) : Place → Term → Prop where
  | entity {place : Place} {e : Entity} :
      (∀ phrase ∈ e.phrases place, ∃ v, shown v ∧ phrase.About v) → Scoped shown place (.entity e)
  | apply {place : Place} {kind : FuncKind} {args : List Term} {asName : Option String} :
      (∀ t ∈ args, Scoped shown kind.place t) → Scoped shown place (.apply kind args asName)
  | everything {place : Place} : Scoped shown place (.raw "*")

/-- A condition on a property is about the property's owner. -/
theorem Property.about_condition {p : Property} {owner : String} (howner : p.owner = some owner)
    {phrase : Phrase} (h : p.condition? = some phrase) : phrase.About owner := by
  have hsign : owner ++ "." ++ p.handle ++ " " ++ "=" = owner ++ "." ++ p.handle ++ " =" :=
    String.append_assoc
  have htext : owner ++ "." ++ p.handle ++ " " ++ "=" ++ " "
      = owner ++ "." ++ p.handle ++ " = " := by
    rw [hsign]
    exact String.append_assoc
  rw [condition?, assignment?, howner] at h
  obtain ⟨_, heq, h⟩ := Option.bind_eq_some_iff.mp h
  obtain ⟨value, -, h⟩ := Option.bind_eq_some_iff.mp h
  obtain rfl := Option.some.inj heq
  obtain rfl := Option.some.inj h
  rw [htext]
  exact .condition p.handle p.var value

/-- What is written of a node among items or conditions is about its variable. -/
theorem Node.about_phrases {n : Node} (h : n.Tidy) {place : Place} (hplace : place ≠ .pattern)
    {phrase : Phrase} (hphrase : phrase ∈ (Entity.node n).phrases place) :
    phrase.About n.var := by
  cases place with
  | pattern => exact absurd rfl hplace
  | condition =>
      obtain ⟨p, hp, hcondition⟩ := List.mem_filterMap.mp hphrase
      exact Property.about_condition (h.owned p hp) hcondition
  | item =>
      obtain ⟨item, hitem, rfl⟩ := List.mem_map.mp hphrase
      rw [Entity.items, item?, h.shown, if_neg (by decide)] at hitem
      rw [List.mem_singleton.mp hitem]
      exact .item n.asName

/-- So is what is written of a relationship. -/
theorem Relationship.about_phrases {r : Relationship} (h : r.Tidy) {place : Place}
    (hplace : place ≠ .pattern) {phrase : Phrase}
    (hphrase : phrase ∈ (Entity.relationship r).phrases place) : phrase.About r.var := by
  cases place with
  | pattern => exact absurd rfl hplace
  | condition =>
      obtain ⟨p, hp, hcondition⟩ := List.mem_filterMap.mp hphrase
      exact Property.about_condition (h.owned p hp) hcondition
  | item =>
      obtain ⟨item, hitem, rfl⟩ := List.mem_map.mp hphrase
      rw [Entity.items, item?, h.shown, if_neg (by decide)] at hitem
      rw [List.mem_singleton.mp hitem]
      exact .item r.asName

theorem Node.Tidy.named {n : Node} (h : n.Tidy) (name : String) : (n.named name).Tidy :=
  ⟨h.shown, h.owned, h.handles, h.var⟩

theorem Relationship.Tidy.named {r : Relationship} (h : r.Tidy) (name : String) :
    (r.named name).Tidy :=
  ⟨h.shown, h.owned, h.handles, h.var⟩

theorem FuncKind.place_ne_pattern (kind : FuncKind) : kind.place ≠ .pattern := by
  cases kind <;> decide

/-- What a route may return of a tidy entity is a tidy node or relationship with the variable of one
of its own, or everything. -/
theorem Entity.tidy_of_returnsUnder {e : Entity} (h : e.Tidy) {names : List String} {t : Term}
    (ht : e.ReturnsUnder names t) :
    (∃ n, t = .entity (.node n) ∧ n.Tidy ∧ ∃ m ∈ e.nodeCopies, m.var = n.var) ∨
      (∃ r, t = .entity (.relationship r) ∧ r.Tidy ∧ ∃ q ∈ e.edgeCopies, q.var = r.var) ∨
      t = .raw "*" := by
  cases ht with
  | member hm =>
      rcases List.mem_append.mp hm with hm | hm
      · obtain ⟨n, hn, rfl⟩ := List.mem_map.mp hm
        have hn := mem_nodeCopies_of_mem_nodes hn
        exact .inl ⟨n, rfl, h.nodes n hn, n, hn, rfl⟩
      · obtain ⟨r, hr, rfl⟩ := List.mem_map.mp hm
        have hr := mem_edgeCopies_of_mem_edges hr
        exact .inr (.inl ⟨r, rfl, h.edges r hr, r, hr, rfl⟩)
  | @renamed _ name hm =>
      rcases List.mem_append.mp hm with hm | hm
      · obtain ⟨n, hn, rfl⟩ := List.mem_map.mp hm
        have hn := mem_nodeCopies_of_mem_nodes hn
        exact .inl ⟨n.named name, rfl, (h.nodes n hn).named name, n, hn, rfl⟩
      · obtain ⟨r, hr, rfl⟩ := List.mem_map.mp hm
        have hr := mem_edgeCopies_of_mem_edges hr
        exact .inr (.inl ⟨r.named name, rfl, (h.edges r hr).named name, r, hr, rfl⟩)
  | everything => exact .inr (.inr rfl)

/-- So it is in scope of the clause that matches the entity. -/
theorem Entity.scoped_of_returnsUnder {e : Entity} (h : e.Tidy) {names : List String} {t : Term}
    (ht : e.ReturnsUnder names t) {place : Place} (hplace : place ≠ .pattern) :
    t.Scoped (Clause.matching [.entity e]).phrase.Shows place := by
  rcases tidy_of_returnsUnder h ht with
    ⟨n, rfl, hn, m, hm, hvar⟩ | ⟨r, rfl, hr, q, hq, hvar⟩ | rfl
  · exact .entity fun phrase hphrase =>
      ⟨n.var, hvar ▸ shows_matching (shows_of_node h hm), Node.about_phrases hn hplace hphrase⟩
  · exact .entity fun phrase hphrase =>
      ⟨r.var, hvar ▸ shows_matching (shows_of_edge h hq),
        Relationship.about_phrases hr hplace hphrase⟩
  · exact .everything

/-- A function around a term in scope is in scope. -/
theorem Term.scoped_wrap {shown : String → Prop} {func : Option FuncSpec} {terms : List Term}
    (h : ∀ t ∈ terms, ∀ place, place ≠ .pattern → t.Scoped shown place) :
    ∀ t ∈ FuncSpec.wrap func terms, t.Scoped shown .item := by
  cases func with
  | none => exact fun t ht => h t ht .item (by decide)
  | some spec =>
      intro t ht
      obtain ⟨u, hu, rfl⟩ := List.mem_map.mp ht
      refine .apply fun t ht => ?_
      rw [List.mem_singleton.mp ht]
      exact h u hu _ spec.kind.place_ne_pattern

/-! ## Members told apart -/

/-- The members of an entity are told apart by their variables: copies of nodes with one variable
are equal, no two relationships have one variable, and no node has that of a relationship. -/
structure Entity.Apart (e : Entity) : Prop where
  nodes : ∀ n ∈ e.nodeCopies, ∀ m ∈ e.nodeCopies, n.var = m.var → n = m
  edges : (e.edgeCopies.map Relationship.var).Nodup
  across : ∀ n ∈ e.nodeCopies, ∀ r ∈ e.edgeCopies, n.var ≠ r.var

theorem NodeSpec.length_joints (spec : NodeSpec) (i j : Nat) :
    (spec.joints i j).length = spec.edgeCount := by
  induction spec generalizing i j with
  | linked name prop edge target ih => rw [joints, List.length_cons, ih, edgeCount]
  | label => rfl
  | unlabelled => rfl
  | block => rfl

/-- There is one relationship for each that levels declare. -/
theorem length_jointsFrom (i j : Nat) (before : List NodeMark) (introduced : List Introduction) :
    (jointsFrom i j before introduced).length = edgesIn introduced := by
  induction introduced generalizing i j before with
  | nil => rfl
  | cons x rest ih =>
      have hedge : (x.edge.map fun edge =>
          (⟨edge, j + x.node.edgeCount, before, x.node.marks i⟩ : Joint)).toList.length
          = if x.edge.isSome then 1 else 0 := by
        cases x.edge <;> rfl
      rw [jointsFrom, List.length_append, List.length_append, ih, x.node.length_joints, hedge,
        edgesIn_cons, Introduction.edgeCount]
      omega

namespace Entity

variable {e : Entity}

/-- The relationships of a connected entity are those that it draws. -/
theorem IsConnected.edge_arcs (h : e.IsConnected) :
    e.arcs.map Arc.edge = e.edgeCopies.map Relationship.var := by
  rcases h.shape with ⟨n, rfl⟩ | ⟨t, rfl⟩ | ⟨g, rfl, -⟩
  · rfl
  · rfl
  · simp only [arcs, edgeCopies, List.map_map]
    rfl

/-- An entity that shows declared nodes and relationships tells them apart. -/
theorem Shows.apart {marks : List NodeMark} {joints : List Joint} (h : e.Shows marks joints)
    (hcoherent : e.Coherent) (hconnected : e.IsConnected) (htidy : e.Tidy) : e.Apart where
  nodes := hcoherent.nodes
  edges := hconnected.edge_arcs ▸ h.nodup
  across n hn r hr heq := by
    obtain ⟨i, hi⟩ := (htidy.nodes n hn).var
    obtain ⟨j, hj⟩ := (htidy.edges r hr).var
    rw [hi, hj] at heq
    exact absurd (Numbering.varName_injective heq).1 (by decide)

/-- It has one variable for each declared node, if the nodes are declared with different ones. -/
theorem Shows.length_vars {marks : List NodeMark} {joints : List Joint} (h : e.Shows marks joints)
    (hnodup : (marks.map NodeMark.var).Nodup) :
    (e.nodeCopies.map Node.var).dedup.length = marks.length := by
  have hperm : (e.nodeCopies.map Node.var).dedup.Perm (marks.map NodeMark.var) := by
    rw [List.perm_ext_iff_of_nodup (List.nodup_dedup _) hnodup]
    intro v
    rw [List.mem_dedup, List.mem_map, List.mem_map]
    constructor
    · rintro ⟨n, hn, rfl⟩
      exact ⟨n.mark, (h.nodes _).mpr ⟨n, hn, rfl⟩, rfl⟩
    · rintro ⟨k, hk, rfl⟩
      obtain ⟨n, hn, rfl⟩ := (h.nodes k).mp hk
      exact ⟨n, hn, rfl⟩
  rw [hperm.length_eq, List.length_map]

end Entity

/-! ## Entities of trails -/

/-- What is known of an entity that visits build: it is connected, its members are tidy and told
apart, and there are as many of them as the levels declare from the last one with a `_node` and no
`_edge` on. -/
structure Entity.ReachedBy (visits : List Visit) (e : Entity) : Prop where
  connected : e.IsConnected
  tidy : e.Tidy
  apart : e.Apart
  declared : ∃ earlier first later, introductions visits = earlier ++ first :: later ∧
    first.edge = none ∧ (∀ x ∈ later, x.edge.isSome) ∧
    (e.nodeCopies.map Node.var).dedup.length = nodesIn (first :: later) ∧
    e.edgeCopies.length = edgesIn (first :: later)

/-- The entity of a trail is reached by the visits of the trail. -/
theorem Trail.reachedBy_of_followVisits {trail : Trail} {visits : List Visit}
    (hfollow : Trail.followVisits {} visits = .ok trail) {entity : Entity}
    (hentity : trail.entity = some entity) : entity.ReachedBy visits := by
  have hstart : Trail.Declares [] {} := ⟨rfl, rfl, fun e he => nomatch he⟩
  have hnone : ∀ (I : Entity → Prop) e, ({} : Trail).entity = some e → I e :=
    fun _ _ he => nomatch he
  obtain ⟨earlier, first, later, hsplit, hfirst, hlater, hshows⟩ :=
    (hstart.followVisits Trail.sound_start hfollow).entity entity hentity
  have hcoherent := ((Trail.sound_start.followVisits hfollow).entity entity hentity).coherent
  have hconnected : entity.IsConnected :=
    Entity.invariant_isConnected.followVisits (hnone _) hfollow entity hentity
  have htidy : entity.Tidy :=
    Entity.invariant_tidy.followVisits (hnone _) hfollow entity hentity
  refine ⟨hconnected, htidy, hshows.apart hcoherent hconnected htidy, earlier, first, later, hsplit,
    hfirst, hlater, ?_, ?_⟩
  · have hmarks := congrArg List.length (var_marksFrom (nodesIn earlier) (first :: later))
    rw [List.length_map, List.length_map, List.length_range'] at hmarks
    rw [hshows.length_vars (nodup_marksFrom _ _), hmarks]
  · have hedges := congrArg List.length hconnected.edge_arcs
    rw [List.length_map, List.length_map, ← hshows.arcs.length_eq, length_jointsFrom] at hedges
    exact hedges.symm

/-! ## Compiled requests -/

namespace RouteTable

/-- A compiled statement is well scoped and connected. It matches one node or triples that are
connected; what is written of the returned items is about variables that the pattern shows; and no
two nodes or relationships of the pattern have one variable, of which there are as many as the
levels declare from the last one with a `_node` and no `_edge` on. -/
theorem scoped_of_compile {table : RouteTable} {options : StatementOptions}
    {tokens : List String} {c : Compiled} (h : table.compile options tokens = .ok c) :
    ∃ entity returned,
      c.statement.clauses = [.matching [.entity entity], .returning returned] ∧
      entity.IsConnected ∧
      (∀ t ∈ returned, t.Scoped (Clause.matching [.entity entity]).phrase.Shows .item) ∧
      entity.Apart ∧
      ∃ visits earlier first later, table.root.visit tokens = some visits ∧
        introductions visits = earlier ++ first :: later ∧ first.edge = none ∧
        (∀ x ∈ later, x.edge.isSome) ∧
        (entity.nodeCopies.map Node.var).dedup.length = nodesIn (first :: later) ∧
        entity.edgeCopies.length = edgesIn (first :: later) := by
  obtain ⟨visits, v, trail, hvisit, hfollow, hfinish⟩ := compile_eq_ok_iff.mp h
  obtain ⟨ret, entity, terms, func, pathId, -, hentity, hresolve, rfl⟩ :=
    Trail.finish_eq_ok_iff.mp hfinish
  have hreached := Trail.reachedBy_of_followVisits hfollow hentity
  obtain ⟨earlier, first, later, hdeclared⟩ := hreached.declared
  refine ⟨entity, FuncSpec.wrap func terms, rfl, hreached.connected, ?_, hreached.apart,
    visits ++ [v], earlier, first, later, hvisit, hdeclared⟩
  exact Term.scoped_wrap fun t ht place hplace => Entity.scoped_of_returnsUnder hreached.tidy
    (ReturnSpec.returnsUnder_resolve hresolve t ht) hplace

/-- The table of `/a/b`, which returns the node of `b` under a name, and its relationship. -/
def underNames : RouteTable where
  root := ⟨[("a", ⟨{ node := some (.label "A") },
    ⟨[("b", ⟨{ node := some (.label "B")
               edge := some ⟨"r", .left, none⟩
               ret := some (.select [⟨"B", some "item"⟩] [⟨"r", none⟩] none none) },
      .empty⟩)], none⟩⟩)], none⟩

/-- Both returned items are about variables of the pattern. -/
theorem scoped_of_compile_underNames :
    ∃ c, underNames.compile {} ["a", "b"] = .ok c ∧
      c.statement.textIn .parameterized = "MATCH (n1:B)-[r0:r]->(n0:A) RETURN n1 as item, r0" ∧
      ∃ entity returned,
        c.statement.clauses = [.matching [.entity entity], .returning returned] ∧
        entity.IsConnected ∧
        (∀ t ∈ returned, t.Scoped (Clause.matching [.entity entity]).phrase.Shows .item) ∧
        entity.Apart ∧
        ∃ visits earlier first later, underNames.root.visit ["a", "b"] = some visits ∧
          introductions visits = earlier ++ first :: later ∧ first.edge = none ∧
          (∀ x ∈ later, x.edge.isSome) ∧
          (entity.nodeCopies.map Node.var).dedup.length = nodesIn (first :: later) ∧
          entity.edgeCopies.length = edgesIn (first :: later) := by
  obtain ⟨c, hc, htext⟩ := exists_ok_of_observed
    (f := fun c : Compiled => c.statement.textIn .parameterized)
    (b := "MATCH (n1:B)-[r0:r]->(n0:A) RETURN n1 as item, r0")
    (x := underNames.compile {} ["a", "b"]) (by decide +kernel)
  exact ⟨c, hc, htext, scoped_of_compile hc⟩

end RouteTable

end CypherRoutes
