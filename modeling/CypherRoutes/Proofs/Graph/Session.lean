/-
# Sessions

A session is a numbering in use with the entities made so far. A construction takes its variable
from the numbering; every other operation derives an entity from those that were made. So a law
that the operations keep holds of every entity of a session. While a numbering is not reset, a
property variable stands for one value in all entities (`Session.Reached.value_eq`); and, reset or
not, the properties that nodes and relationships hold have an owner
(`Session.ReachedWithResets.owned`).
-/
import CypherRoutes.Graph.Stitch
import CypherRoutes.Proofs.Graph.All
import CypherRoutes.Proofs.Graph.Issued

namespace CypherRoutes

/-! ## Operations -/

/-- The entities that come of others without a new variable: changed copies, owners with a
property attached, triples of nodes and a relationship, and members. -/
inductive Entity.Derived (made : List Entity) : Entity → Prop where
  | named {e : Entity} (name : String) : e ∈ made → Derived made (e.named name)
  | plain {e : Entity} : e ∈ made → Derived made e.plain
  | anon {e : Entity} : e ∈ made → Derived made e.anon
  | varOnly {e : Entity} : e ∈ made → Derived made e.varOnly
  | ownedBy {p : Property} (owner : String) : .property p ∈ made →
      Derived made (.property (p.ownedBy owner))
  | directed {r : Relationship} (d : Direction) : .relationship r ∈ made →
      Derived made (.relationship (r.directed d))
  | hinted {r : Relationship} (hint : Option JoinHint) : .relationship r ∈ made →
      Derived made (.relationship (r.hinted hint))
  | attachedNode {n : Node} {p : Property} : .node n ∈ made → .property p ∈ made →
      Derived made (.node (n.attach p))
  | attachedEdge {r : Relationship} {p : Property} : .relationship r ∈ made →
      .property p ∈ made → Derived made (.relationship (r.attach p))
  | addPropToNode {e changed : Entity} {label : String} {p : Property} : e ∈ made →
      .property p ∈ made → e.addPropToNode label p = some changed → Derived made changed
  | addPropToEdge {e changed : Entity} {kind : String} {p : Property} : e ∈ made →
      .property p ∈ made → e.addPropToEdge kind p = some changed → Derived made changed
  | triple {n m : Node} {r : Relationship} : .node n ∈ made → .relationship r ∈ made →
      .node m ∈ made → Derived made (.triple ⟨n, r, m⟩)
  | nodeOf {e : Entity} {n : Node} : e ∈ made → n ∈ e.nodeCopies → Derived made (.node n)
  | edgeOf {e : Entity} {r : Relationship} : e ∈ made → r ∈ e.edgeCopies →
      Derived made (.relationship r)
  | propOf {e : Entity} {p : Property} : e ∈ made → p ∈ e.props → Derived made (.property p)
  | tripleOf {g : Path} {t : Triple} : .path g ∈ made → t ∈ g.triples → Derived made (.triple t)

/-- A numbering in use with the entities made so far. -/
structure Session where
  numbering : Numbering
  made : List Entity

namespace Session

/-- The session in which nothing was made yet. -/
def start : Session := ⟨.start, []⟩

/-- One more entity is made. A node made with properties is a node to which properties were
attached one after the other. -/
inductive Step (s : Session) : Session → Prop where
  | node (label : Option String) :
      Step s ⟨(s.numbering.node label).2, .node (s.numbering.node label).1 :: s.made⟩
  | relationship (kind : Option String) :
      Step s ⟨(s.numbering.relationship kind).2,
        .relationship (s.numbering.relationship kind).1 :: s.made⟩
  | property (handle : String) (given : Option Value) :
      Step s ⟨(s.numbering.property handle given).2,
        .property (s.numbering.property handle given).1 :: s.made⟩
  | path {entities : List Entity} {g : Path} {t : Numbering} : (∀ e ∈ entities, e ∈ s.made) →
      Path.ofEntities s.numbering entities = .ok (g, t) → Step s ⟨t, .path g :: s.made⟩
  | derived {e : Entity} : e.Derived s.made → Step s ⟨s.numbering, e :: s.made⟩

/-- One more entity is made, or the numbering starts again. -/
inductive StepOrReset (s : Session) : Session → Prop where
  | step {t : Session} : s.Step t → StepOrReset s t
  | reset : StepOrReset s ⟨.start, s.made⟩

/-- A session whose numbering was never reset. -/
def Reached (s : Session) : Prop := Relation.ReflTransGen Step start s

/-- A session whose numbering may have been reset. -/
def ReachedWithResets (s : Session) : Prop := Relation.ReflTransGen StepOrReset start s

theorem Reached.withResets {s : Session} (h : s.Reached) : s.ReachedWithResets :=
  Relation.ReflTransGen.mono (fun _ _ => .step) _ _ h

end Session

/-! ## Laws that the operations keep -/

/-- What is asked of the variables of nodes and relationships, of the properties that they hold,
and of properties by themselves. -/
structure Law where
  var : String → Prop
  held : Property → Prop
  loose : Property → Prop

/-- The operations on properties keep the law. -/
structure Law.Kept (L : Law) : Prop where
  loose_of_held : ∀ p, L.held p → L.loose p
  held_ownedBy : ∀ p owner, L.loose p → L.held (p.ownedBy owner)
  loose_named : ∀ p name, L.loose p → L.loose (p.named name)
  loose_plain : ∀ p, L.loose p → L.loose p.plain

/-- A node under a law. -/
def Node.Obeys (L : Law) (n : Node) : Prop := L.var n.var ∧ ∀ p ∈ n.props, L.held p

/-- A relationship under a law. -/
def Relationship.Obeys (L : Law) (r : Relationship) : Prop := L.var r.var ∧ ∀ p ∈ r.props, L.held p

/-- An entity under a law. -/
def Entity.Obeys (L : Law) (e : Entity) : Prop :=
  e.All (Node.Obeys L) (Relationship.Obeys L) L.loose

section Laws

variable {L : Law}

theorem Node.Obeys.attach {n : Node} (h : n.Obeys L) {p : Property}
    (hp : ∀ owner, L.held (p.ownedBy owner)) : (n.attach p).Obeys L := by
  refine ⟨h.1, fun q hq => ?_⟩
  rcases Property.mem_attach hq with hq | rfl
  · exact h.2 q hq
  · exact hp n.var

theorem Relationship.Obeys.attach {r : Relationship} (h : r.Obeys L) {p : Property}
    (hp : ∀ owner, L.held (p.ownedBy owner)) : (r.attach p).Obeys L := by
  refine ⟨h.1, fun q hq => ?_⟩
  rcases Property.mem_attach hq with hq | rfl
  · exact h.2 q hq
  · exact hp r.var

theorem Node.Obeys.plain {n : Node} (h : n.Obeys L) : n.plain.Obeys L :=
  ⟨h.1, fun _ hp => absurd hp List.not_mem_nil⟩

theorem Relationship.Obeys.plain {r : Relationship} (h : r.Obeys L) : r.plain.Obeys L :=
  ⟨h.1, fun _ hp => absurd hp List.not_mem_nil⟩

namespace Entity

/-- Every property of the entity is under the law for properties by themselves. -/
theorem Obeys.props {e : Entity} (h : e.Obeys L) (hL : L.Kept) : ∀ p ∈ e.props, L.loose p := by
  intro p hp
  rcases mem_props_iff.mp hp with ⟨n, hn, hp⟩ | ⟨r, hr, hp⟩ | hself
  · exact hL.loose_of_held p ((h.nodes n hn).2 p hp)
  · exact hL.loose_of_held p ((h.edges r hr).2 p hp)
  · exact h.self p hself

/-- Another name keeps an entity under a law. -/
theorem Obeys.named {e : Entity} (h : e.Obeys L) (hL : L.Kept) (name : String) :
    (e.named name).Obeys L := by
  cases e with
  | node n => exact all_node h.node
  | relationship r => exact all_relationship h.relationship
  | property p => exact all_property (hL.loose_named p name h.property)
  | triple t => exact h
  | path g => exact h

/-- Taking away properties or values keeps an entity under a law. -/
theorem Obeys.plain {e : Entity} (h : e.Obeys L) (hL : L.Kept) : e.plain.Obeys L := by
  cases e with
  | node n => exact all_node h.node.plain
  | relationship r => exact all_relationship h.relationship.plain
  | property p => exact all_property (hL.loose_plain p h.property)
  | triple t => exact h.map_triple (fun _ hn => hn.plain) fun _ hr => hr.plain
  | path g => exact h.map_path (fun _ hn => hn.plain) fun _ hr => hr.plain

/-- Taking away the variable from the text keeps an entity under a law. -/
theorem Obeys.anon {e : Entity} (h : e.Obeys L) : e.anon.Obeys L := by
  cases e with
  | node n => exact all_node h.node
  | relationship r => exact all_relationship h.relationship
  | property p => exact h
  | triple t => exact h
  | path g => exact h

/-- Taking away labels and types keeps an entity under a law. -/
theorem Obeys.varOnly {e : Entity} (h : e.Obeys L) : e.varOnly.Obeys L := by
  cases e with
  | node n => exact all_node h.node
  | relationship r => exact all_relationship h.relationship
  | property p => exact h
  | triple t => exact h.map_triple (fun _ => id) fun _ => id
  | path g => exact h.map_path (fun _ => id) fun _ => id

/-- What comes of entities under a law is under it. -/
theorem Derived.obeys {made : List Entity} {e : Entity} (h : e.Derived made) (hL : L.Kept)
    (hmade : ∀ e ∈ made, e.Obeys L) : e.Obeys L := by
  have hheld : ∀ {p : Property}, .property p ∈ made → ∀ owner, L.held (p.ownedBy owner) :=
    fun {p} hp owner => hL.held_ownedBy p owner (hmade _ hp).property
  cases h with
  | named name he => exact (hmade _ he).named hL name
  | plain he => exact (hmade _ he).plain hL
  | anon he => exact (hmade _ he).anon
  | varOnly he => exact (hmade _ he).varOnly
  | ownedBy owner hp => exact all_property (hL.loose_of_held _ (hheld hp owner))
  | directed d hr => exact all_relationship (hmade _ hr).relationship
  | hinted hint hr => exact all_relationship (hmade _ hr).relationship
  | attachedNode hn hp => exact all_node ((hmade _ hn).node.attach (hheld hp))
  | attachedEdge hr hp => exact all_relationship ((hmade _ hr).relationship.attach (hheld hp))
  | addPropToNode he hp hchanged =>
      obtain ⟨n, -, rfl⟩ := Option.map_eq_some_iff.mp hchanged
      exact (hmade _ he).attachToNode n.var fun _ hn => hn.attach (hheld hp)
  | addPropToEdge he hp hchanged =>
      obtain ⟨r, -, rfl⟩ := Option.map_eq_some_iff.mp hchanged
      exact (hmade _ he).attachToEdge r.var fun _ hr => hr.attach (hheld hp)
  | triple hn hr hm =>
      exact all_triple (hmade _ hn).node (hmade _ hr).relationship (hmade _ hm).node
  | nodeOf he hn => exact all_node ((hmade _ he).nodes _ hn)
  | edgeOf he hr => exact all_relationship ((hmade _ he).edges _ hr)
  | propOf he hp => exact all_property ((hmade _ he).props hL _ hp)
  | tripleOf hg ht => exact (hmade _ hg).tripleOf ht

end Entity

end Laws

/-! ## Owners -/

/-- The properties that a node or a relationship holds have an owner. -/
def Law.owned : Law := ⟨fun _ => True, fun p => p.owner.isSome, fun _ => True⟩

theorem Law.kept_owned : Law.owned.Kept :=
  ⟨fun _ _ => trivial, fun _ _ _ => rfl, fun _ _ _ => trivial, fun _ _ => trivial⟩

namespace Session

/-- Whatever is made next, held properties have an owner. -/
theorem StepOrReset.owned {s t : Session} (h : s.StepOrReset t)
    (hs : ∀ e ∈ s.made, e.Obeys .owned) : ∀ e ∈ t.made, e.Obeys .owned := by
  cases h with
  | reset => exact hs
  | step h =>
      cases h with
      | node label =>
          exact List.forall_mem_cons.mpr ⟨Entity.all_node ⟨trivial, by simp [Numbering.node]⟩, hs⟩
      | relationship kind =>
          exact List.forall_mem_cons.mpr
            ⟨Entity.all_relationship ⟨trivial, by simp [Numbering.relationship]⟩, hs⟩
      | property handle given =>
          exact List.forall_mem_cons.mpr ⟨Entity.all_property trivial, hs⟩
      | path hentities hpath =>
          have hg := Entity.all_ofEntities hpath fun e he => hs e (hentities e he)
          exact List.forall_mem_cons.mpr ⟨hg, hs⟩
      | derived he => exact List.forall_mem_cons.mpr ⟨he.obeys Law.kept_owned hs, hs⟩

/-- In every session the properties that nodes and relationships hold have an owner. -/
theorem ReachedWithResets.owned {s : Session} (h : s.ReachedWithResets) :
    ∀ e ∈ s.made, e.Obeys .owned := by
  induction h with
  | refl => exact fun _ he => absurd he List.not_mem_nil
  | tail _ hstep ih => exact hstep.owned ih

end Session

/-! ## Values -/

/-- The variables were issued, and a property has no value or the one that belongs to its
variable. -/
def Numbering.law (s : Numbering) (values : String → Option Value) : Law where
  var := s.Issued
  held p := s.Issued p.var ∧ (p.given = none ∨ p.given = values p.var)
  loose p := s.Issued p.var ∧ (p.given = none ∨ p.given = values p.var)

namespace Session

theorem kept_law (s : Numbering) (values : String → Option Value) : (s.law values).Kept where
  loose_of_held _ h := h
  held_ownedBy _ _ h := h
  loose_named _ _ h := h
  loose_plain _ h := ⟨h.1, .inl rfl⟩

/-- A later numbering keeps the law of an earlier one, whatever value a variable has that was not
issued before. -/
theorem obeys_law_mono {s t : Numbering} (hst : s.Before t) {values values' : String → Option Value}
    (hvalues : ∀ v, s.Issued v → values' v = values v) {e : Entity} (h : e.Obeys (s.law values)) :
    e.Obeys (t.law values') := by
  have hprop : ∀ p : Property, s.Issued p.var ∧ (p.given = none ∨ p.given = values p.var) →
      t.Issued p.var ∧ (p.given = none ∨ p.given = values' p.var) := by
    intro p hp
    refine ⟨hp.1.mono hst, ?_⟩
    rw [hvalues p.var hp.1]
    exact hp.2
  exact h.imp (fun n hn => ⟨hn.1.mono hst, fun p hp => hprop p (hn.2 p hp)⟩)
    (fun r hr => ⟨hr.1.mono hst, fun p hp => hprop p (hr.2 p hp)⟩) hprop

/-- Whatever is made next, some value belongs to each variable. -/
theorem Step.exists_values {s t : Session} (h : s.Step t) {values : String → Option Value}
    (hs : ∀ e ∈ s.made, e.Obeys (s.numbering.law values)) :
    ∃ values', ∀ e ∈ t.made, e.Obeys (t.numbering.law values') := by
  cases h with
  | node label =>
      have htakes := s.numbering.takes_node label
      refine ⟨values, List.forall_mem_cons.mpr ⟨Entity.all_node ⟨htakes.issued, ?_⟩,
        fun e he => obeys_law_mono htakes.before (fun _ _ => rfl) (hs e he)⟩⟩
      exact fun p hp => absurd hp List.not_mem_nil
  | relationship kind =>
      have htakes := s.numbering.takes_relationship kind
      refine ⟨values, List.forall_mem_cons.mpr ⟨Entity.all_relationship ⟨htakes.issued, ?_⟩,
        fun e he => obeys_law_mono htakes.before (fun _ _ => rfl) (hs e he)⟩⟩
      exact fun p hp => absurd hp List.not_mem_nil
  | property handle given =>
      -- the variable is new, so that nothing else is said of it
      have htakes := s.numbering.takes_property handle given
      have hothers : ∀ v, s.numbering.Issued v →
          Function.update values (s.numbering.property handle given).1.var given v = values v := by
        intro v hv
        refine Function.update_of_ne ?_ _ _
        rintro rfl
        exact htakes.isNew hv
      refine ⟨Function.update values (s.numbering.property handle given).1.var given,
        List.forall_mem_cons.mpr ⟨Entity.all_property ⟨htakes.issued, .inr ?_⟩,
          fun e he => obeys_law_mono htakes.before hothers (hs e he)⟩⟩
      rw [Function.update_self]
      rfl
  | @path entities g t hentities hpath =>
      have hbefore : s.numbering.Before t := by
        obtain ⟨triples, -, hpath⟩ := bind_eq_ok_iff.mp hpath
        obtain ⟨-, rfl⟩ := Prod.mk.inj (Except.ok.inj hpath)
        exact Numbering.before_path _ triples
      have hg := Entity.all_ofEntities hpath fun e he => hs e (hentities e he)
      exact ⟨values, List.forall_mem_cons.mpr ⟨obeys_law_mono hbefore (fun _ _ => rfl) hg,
        fun e he => obeys_law_mono hbefore (fun _ _ => rfl) (hs e he)⟩⟩
  | derived he =>
      exact ⟨values, List.forall_mem_cons.mpr ⟨he.obeys (kept_law _ _) hs, hs⟩⟩

/-- While the numbering is not reset, some value belongs to each variable. -/
theorem Reached.exists_values {s : Session} (h : s.Reached) :
    ∃ values, ∀ e ∈ s.made, e.Obeys (s.numbering.law values) := by
  induction h with
  | refl => exact ⟨fun _ => none, fun _ he => absurd he List.not_mem_nil⟩
  | tail _ hstep ih =>
      obtain ⟨values, hs⟩ := ih
      exact hstep.exists_values hs

/-- All variables in the entities of such a session were issued. -/
theorem Reached.issued {s : Session} (h : s.Reached) {e : Entity} (he : e ∈ s.made) :
    ∀ v ∈ e.vars, s.numbering.Issued v := by
  obtain ⟨values, hs⟩ := h.exists_values
  intro v hv
  rcases Entity.mem_vars_iff.mp hv with ⟨n, hn, rfl⟩ | ⟨r, hr, rfl⟩ | ⟨p, hp, rfl⟩
  · exact ((hs e he).nodes n hn).1
  · exact ((hs e he).edges r hr).1
  · exact ((hs e he).props (kept_law _ _) p hp).1

/-- In all entities of such a session a variable stands for one value. -/
theorem Reached.value?_eq {s : Session} (h : s.Reached) {e e' : Entity} (he : e ∈ s.made)
    (he' : e' ∈ s.made) {p q : Property} (hp : p ∈ e.props) (hq : q ∈ e'.props)
    (hvar : p.var = q.var) {x y : Value} (hx : p.value? = some x) (hy : q.value? = some y) :
    x = y := by
  obtain ⟨values, hs⟩ := h.exists_values
  have hvalue : ∀ {e : Entity} {p : Property} {x : Value}, e ∈ s.made → p ∈ e.props →
      p.value? = some x → values p.var = some x := by
    intro e p x he hp hx
    have hgiven : p.given = some x := Option.eq_some_of_filter_eq_some hx
    rcases ((hs e he).props (kept_law _ _) p hp).2 with hnone | hsome
    · rw [hnone] at hgiven
      cases hgiven
    · rw [← hsome, hgiven]
  have hpx := hvalue he hp hx
  rw [hvar, hvalue he' hq hy] at hpx
  exact (Option.some.inj hpx).symm

end Session

end CypherRoutes
