/-
# What a step builds

The entity that a step adds has new variables only and is coherent, whatever its blocks nest; and
linking it to what was built before keeps both.
-/
import CypherRoutes.Proofs.Graph.Issued
import CypherRoutes.Route.Compile

namespace CypherRoutes

/-! ## Linking -/

/-- The relationship of a step takes one new variable. -/
theorem EdgeSpec.takes_build (s : Numbering) (spec : EdgeSpec) :
    s.Takes (spec.build s).2 (spec.build s).1.var :=
  s.takes_relationship (some spec.kind)

/-- The relationship of a step has no properties. -/
theorem EdgeSpec.props_build (s : Numbering) (spec : EdgeSpec) :
    (spec.build s).1.props = [] := rfl

/-- The path that two entities and a relationship between them are stitched into. -/
def linkPath (s : Numbering) (a : Entity) (r : Relationship) (b : Entity) (token : String) :
    Except RequestFault (Entity × Numbering) :=
  match stitch [a, .relationship r, b] with
  | .ok triples => .ok (.path (s.path triples).1, (s.path triples).2)
  | .error error => .error (.unconnectable error token)

/-- A link of two nodes is a triple, and any other is a path. -/
theorem link_cases (s : Numbering) (a b : Entity) (r : Relationship) (token : String) :
    (∃ n m, a = .node n ∧ b = .node m) ∨
      link s a r b token = linkPath s a r b token ∧ ∀ n m, ¬ (a = .node n ∧ b = .node m) := by
  by_cases hnodes : ∃ n m, a = .node n ∧ b = .node m
  · exact .inl hnodes
  · have hother : ∀ n m, ¬ (a = .node n ∧ b = .node m) := fun n m h => hnodes ⟨n, m, h⟩
    refine .inr ⟨?_, hother⟩
    unfold link
    split
    · next n m => exact absurd ⟨rfl, rfl⟩ (hother n m)
    · rw [Path.ofEntities, linkPath]
      cases stitch [a, .relationship r, b] <;> rfl

/-- What a link that succeeds is. -/
theorem link_eq_ok {s s' : Numbering} {a b e : Entity} {r : Relationship} {token : String}
    (h : link s a r b token = .ok (e, s')) :
    (∃ n m, a = .node n ∧ b = .node m ∧ e = .triple (r.relate n m) ∧ s' = s) ∨
      ∃ triples, stitch [a, .relationship r, b] = .ok triples ∧
        e = .path (s.path triples).1 ∧ s' = (s.path triples).2 := by
  rcases link_cases s a b r token with ⟨n, m, rfl, rfl⟩ | ⟨hpath, -⟩
  · obtain ⟨rfl, rfl⟩ := Prod.mk.inj (Except.ok.inj h)
    exact .inl ⟨n, m, rfl, rfl, rfl, rfl⟩
  · rw [hpath, linkPath] at h
    cases hstitch : stitch [a, .relationship r, b] with
    | error error => simp [hstitch] at h
    | ok triples =>
        rw [hstitch] at h
        obtain ⟨rfl, rfl⟩ := Prod.mk.inj (Except.ok.inj h)
        exact .inr ⟨triples, rfl, rfl, rfl⟩

/-- A link is made of the two entities and of the relationship. -/
theorem madeOf_of_link {s s' : Numbering} {a b e : Entity} {r : Relationship} {token : String}
    (h : link s a r b token = .ok (e, s')) : e.MadeOf a b r := by
  rcases link_eq_ok h with ⟨n, m, rfl, rfl, rfl, -⟩ | ⟨triples, hstitch, rfl, -⟩
  · refine ⟨fun p => by simp, fun x hx => ?_, fun q hq => .inr (.inr (List.mem_singleton.mp hq))⟩
    have hends : x = n ∨ x = m := by
      rw [Entity.nodeCopies, Relationship.relate] at hx
      cases hd : r.direction with
      | right => simpa [hd, Direction.orient, Triple.nodes] using hx
      | left => simpa [hd, Direction.orient, Triple.nodes, or_comm] using hx
    exact hends.imp List.mem_singleton.mpr List.mem_singleton.mpr
  · have hparts : ∀ x ∈ [a, .relationship r, b],
        (∀ n ∈ x.nodeCopies, n ∈ a.nodeCopies ∨ n ∈ b.nodeCopies) ∧
          ∀ q ∈ x.edgeCopies, q ∈ a.edgeCopies ∨ q ∈ b.edgeCopies ∨ q = r := by
      intro x hx
      simp only [List.mem_cons, List.not_mem_nil, or_false] at hx
      rcases hx with rfl | rfl | rfl
      · exact ⟨fun _ => .inl, fun _ => .inl⟩
      · exact ⟨fun _ hn => absurd hn List.not_mem_nil,
          fun _ hq => .inr (.inr (List.mem_singleton.mp hq))⟩
      · exact ⟨fun _ => .inr, fun _ hq => .inr (.inl hq)⟩
    have hall := stitch_all hstitch hparts
    refine ⟨fun p => by simp, fun n hn => ?_, fun q hq => ?_⟩
    · obtain ⟨t, ht, hnt⟩ := List.mem_flatMap.mp hn
      rcases List.mem_cons.mp hnt with rfl | hnt
      · exact (hall t ht).1
      · exact List.mem_singleton.mp hnt ▸ (hall t ht).2.2
    · obtain ⟨t, ht, rfl⟩ := List.mem_map.mp hq
      exact (hall t ht).2.1

/-- A link names at most a path, which is no variable of a member. -/
theorem numbering_of_link {s s' : Numbering} {a b e : Entity} {r : Relationship} {token : String}
    (h : link s a r b token = .ok (e, s')) :
    s.Before s' ∧ ∀ v, s'.Issued v ↔ s.Issued v := by
  rcases link_eq_ok h with ⟨n, m, -, -, -, rfl⟩ | ⟨triples, -, -, rfl⟩
  · exact ⟨.refl s', fun _ => Iff.rfl⟩
  · exact ⟨s.before_path triples, fun _ => Numbering.issued_path_iff⟩

/-- Linking what was built before to what was built since. -/
theorem link_builtBetween {s₀ s₁ s₂ s₃ s₄ : Numbering} {a b e : Entity} {r : Relationship}
    {token : String} (ha : a.BuiltBetween s₀ s₁) (hb : b.BuiltBetween s₁ s₂)
    (hr : s₂.Takes s₃ r.var) (hbare : r.props = [])
    (h : link s₃ a r b token = .ok (e, s₄)) : e.BuiltBetween s₀ s₄ := by
  have hmade := madeOf_of_link h
  obtain ⟨hbefore, hissued⟩ := numbering_of_link h
  constructor
  · exact ((ha.before.trans hb.before).trans hr.before).trans hbefore
  · refine .of_madeOf hmade ha.coherent hb.coherent hbare (fun v hv hvb => ?_) (fun hv => ?_)
      (fun hv => ?_)
    · exact hb.isNew v hvb (ha.issued v hv)
    · exact hr.isNew ((ha.issued _ hv).mono hb.before)
    · exact hr.isNew (hb.issued _ hv)
  · intro v hv
    rw [hissued]
    rcases hmade.mem_vars hbare hv with hv | hv | rfl
    · exact ((ha.issued v hv).mono hb.before).mono hr.before
    · exact (hb.issued v hv).mono hr.before
    · exact hr.issued
  · intro v hv
    rcases hmade.mem_vars hbare hv with hv | hv | rfl
    · exact ha.isNew v hv
    · exact fun hi => hb.isNew v hv (hi.mono ha.before)
    · exact fun hi => hr.isNew (hi.mono (ha.before.trans hb.before))

/-! ## Building nodes -/

/-- The property of a step takes one new variable. -/
theorem PropSpec.takes_build (s : Numbering) (given : Option Value) (spec : PropSpec) :
    s.Takes (spec.build s given).2 (spec.build s given).1.var := by
  cases spec with
  | ofToken handle => exact s.takes_property handle given
  | fixed handle value => exact s.takes_property handle (some value)

namespace NodeSpec

/-- A new node without properties. -/
theorem builtBetween_node (s : Numbering) (label : Option String) :
    (Entity.node (s.node label).1).BuiltBetween s (s.node label).2 := by
  have htakes := s.takes_node label
  have hvars : (Entity.node (s.node label).1).vars = [(s.node label).1.var] := rfl
  constructor
  · exact htakes.before
  · exact Entity.coherent_node fun p hp => absurd hp List.not_mem_nil
  · intro v hv
    rw [hvars, List.mem_singleton] at hv
    exact hv ▸ htakes.issued
  · intro v hv
    rw [hvars, List.mem_singleton] at hv
    exact hv ▸ htakes.isNew

/-- The node of a block. -/
theorem builtBetween_buildNode (s : Numbering) (name : String) (prop : Option PropSpec) :
    (Entity.node (buildNode s name prop).1).BuiltBetween s (buildNode s name prop).2 := by
  cases prop with
  | none => exact builtBetween_node s (some name)
  | some spec =>
      -- the property is numbered after its node, so it is no variable of the node
      have hnode := builtBetween_node s (some name)
      have hprop := spec.takes_build (s.node (some name)).2 none
      generalize hp : spec.build (s.node (some name)).2 none = built at hprop
      have hbuild : buildNode s name (some spec)
          = ((s.node (some name)).1.attach built.1, built.2) := by
        rw [buildNode, ← hp]
      rw [hbuild]
      have hvars : (Entity.node ((s.node (some name)).1.attach built.1)).vars
          = [(s.node (some name)).1.var, built.1.var] := rfl
      constructor
      · exact hnode.before.trans hprop.before
      · refine Entity.coherent_node fun p hp q hq _ => ?_
        have hone : ((s.node (some name)).1.attach built.1).props
            = [built.1.ownedBy (s.node (some name)).1.var] := rfl
        rw [hone, List.mem_singleton] at hp hq
        rw [hp, hq]
      · intro v hv
        rw [hvars] at hv
        rcases List.mem_cons.mp hv with rfl | hv
        · exact (s.takes_node (some name)).issued.mono hprop.before
        · exact List.mem_singleton.mp hv ▸ hprop.issued
      · intro v hv
        rw [hvars] at hv
        rcases List.mem_cons.mp hv with rfl | hv
        · exact (s.takes_node (some name)).isNew
        · exact List.mem_singleton.mp hv ▸ fun hi => hprop.isNew (hi.mono hnode.before)

/-- What a step builds has new variables only and is coherent. -/
theorem builtBetween_build {spec : NodeSpec} {s s' : Numbering} {token : String} {e : Entity}
    (h : spec.build s token = .ok (e, s')) : e.BuiltBetween s s' := by
  induction spec generalizing s s' e with
  | label name =>
      obtain ⟨rfl, rfl⟩ := Prod.mk.inj (Except.ok.inj h)
      exact builtBetween_node s (some name)
  | unlabelled =>
      obtain ⟨rfl, rfl⟩ := Prod.mk.inj (Except.ok.inj h)
      exact builtBetween_node s none
  | block name prop =>
      obtain ⟨rfl, rfl⟩ := Prod.mk.inj (Except.ok.inj h)
      exact builtBetween_buildNode s name prop
  | linked name prop edge target ih =>
      -- the block is numbered first, then what it is linked to, then the relationship
      rw [build] at h
      obtain ⟨⟨m, s₂⟩, htarget, h⟩ := bind_eq_ok_iff.mp h
      exact link_builtBetween (builtBetween_buildNode s name prop) (ih htarget)
        (edge.takes_build s₂) (edge.props_build s₂) h

end NodeSpec

end CypherRoutes
