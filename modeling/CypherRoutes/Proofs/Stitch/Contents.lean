/-
# What a stitched path contains

Entities supply triples to a path: a triple supplies itself, a path its triples, and a relationship
one triple between a node before it and a node of the entity behind it. A stitched path has the
triples that its entities supply, in order and without a second copy of any; and it is connected
(`Path.contents_of_ofEntities`). All of this follows from what it is to take one more entity
(`Stitch.Taken`).
-/
import CypherRoutes.Proofs.Graph.Members
import CypherRoutes.Proofs.Stitch.Merge

namespace CypherRoutes

/-! ## What entities supply -/

/-- The triples of an entity: a triple itself, and those of a path. -/
def Entity.triples : Entity → List Triple
  | triple t => [t]
  | path g => g.triples
  | _ => []

/-- What a list of entities supplies to a path, behind entities with the nodes `seen`: the triples
of the entities, and for each relationship one triple between a node before it and a node of the
entity behind it. -/
inductive Supplies : (seen : List Node) → List Entity → List Triple → Prop where
  | nil (seen : List Node) : Supplies seen [] []
  | entity {seen : List Node} {e : Entity} {rest : List Entity} {supplied : List Triple} :
      (∀ r, e ≠ .relationship r) → Supplies (seen ++ e.nodeCopies) rest supplied →
      Supplies seen (e :: rest) (e.triples ++ supplied)
  | relationship {seen : List Node} {r : Relationship} {next : Entity} {rest : List Entity}
      {n m : Node} {supplied : List Triple} : n ∈ seen → m ∈ next.nodeCopies →
      Supplies seen (next :: rest) supplied →
      Supplies seen (.relationship r :: next :: rest) (r.relate n m :: supplied)

/-- The nodes of an entity that is not a node itself are those of its triples. -/
theorem Entity.nodeCopies_eq_flatMap {e : Entity} (h : ∀ n, e ≠ .node n) :
    e.nodeCopies = e.triples.flatMap Triple.nodes := by
  cases e with
  | triple t => rw [nodeCopies, triples, List.flatMap_singleton]
  | path g => rfl
  | node n => exact absurd rfl (h n)
  | relationship => rfl
  | property => rfl

/-- The nodes of an entity's triples are nodes of the entity. -/
theorem Entity.mem_nodeCopies_of_mem_triples {e : Entity} {t : Triple} (ht : t ∈ e.triples)
    {n : Node} (hn : n ∈ t.nodes) : n ∈ e.nodeCopies := by
  cases e with
  | triple u => exact List.mem_singleton.mp ht ▸ hn
  | path g => exact List.mem_flatMap.mpr ⟨t, ht, hn⟩
  | node => exact absurd ht List.not_mem_nil
  | relationship => exact absurd ht List.not_mem_nil
  | property => exact absurd ht List.not_mem_nil

theorem Entity.mem_edgeCopies_of_mem_triples {e : Entity} {t : Triple} (ht : t ∈ e.triples) :
    t.edge ∈ e.edgeCopies := by
  cases e with
  | triple u => exact List.mem_singleton.mpr (List.mem_singleton.mp ht ▸ rfl)
  | path g => exact List.mem_map_of_mem ht
  | node => exact absurd ht List.not_mem_nil
  | relationship => exact absurd ht List.not_mem_nil
  | property => exact absurd ht List.not_mem_nil

/-! ## Taking one more entity -/

namespace Pending

/-- The node that waits for a relationship or for the second node of one. -/
def nodes : Pending → List Node
  | nothing => []
  | node n => [n]
  | nodeRel n _ => [n]
  | rel _ => []

/-- The relationship that waits for its second node. -/
def relationship? : Pending → Option Relationship
  | nothing => none
  | node _ => none
  | nodeRel _ r => some r
  | rel r => some r

end Pending

namespace Stitch

/-- The nodes of a path in the making. -/
def nodes (s : Stitch) : List Node :=
  s.triples.flatMap Triple.nodes ++ (s.tail.toList ++ s.pending.nodes)

theorem mem_nodes_iff {s : Stitch} {n : Node} :
    n ∈ s.nodes ↔ (∃ t ∈ s.triples, n ∈ t.nodes) ∨ s.tail = some n ∨ n ∈ s.pending.nodes := by
  rw [nodes, List.mem_append, List.mem_append, List.mem_flatMap, Option.mem_toList]

/-- What one more entity makes of a path in the making. A node or a relationship may have to wait.
A triple or a path is added if nothing waits. Behind a relationship that waits, the triple of the
relationship is added and then those of the entity, if it has any. -/
inductive Taken (s : Stitch) : Entity → Stitch → Prop where
  | node {n : Node} : s.pending = .nothing → Taken s (.node n) { s with pending := .node n }
  | nodeRel {n : Node} {r : Relationship} : s.pending = .node n →
      Taken s (.relationship r) { s with pending := .nodeRel n r }
  | rel {r : Relationship} : s.pending = .nothing →
      Taken s (.relationship r) { s with pending := .rel r }
  | fragment {e : Entity} {added : List Triple} {tail : Option Node} : s.pending = .nothing →
      (∀ r, e ≠ .relationship r) → Adds s.triples e.triples added →
      (∀ k, tail = some k → k ∈ e.nodeCopies) → Taken s e ⟨added, tail, .nothing⟩
  | tied {e : Entity} {r : Relationship} {n m : Node} {middle added : List Triple}
      {tail : Option Node} : s.pending.relationship? = some r → n ∈ s.nodes → m ∈ e.nodeCopies →
      Adds s.triples [r.relate n m] middle → Adds middle e.triples added →
      (∀ k, tail = some k → k ∈ e.nodeCopies) → Taken s e ⟨added, tail, .nothing⟩

/-- A relationship continues from a node of the fragment before it. -/
theorem mem_of_fragmentTail {fragment : List Triple} {n : Node}
    (h : fragmentTail fragment = some n) : ∃ t ∈ fragment, n ∈ t.nodes := by
  unfold fragmentTail at h
  split at h
  · next only =>
      obtain rfl := Option.some.inj h
      exact ⟨only, List.mem_singleton_self only, only.target_mem_nodes⟩
  · cases h

/-- A fragment that was added. -/
theorem addFragment_eq_ok {s' : Stitch} {triples fragment : List Triple} {position : Nat}
    (h : addFragment triples fragment position = .ok s') :
    ∃ added, Adds triples fragment added ∧ s' = ⟨added, fragmentTail fragment, .nothing⟩ := by
  obtain ⟨added, happend, h⟩ := bind_eq_ok_iff.mp h
  exact ⟨added, adds_of_append happend, (Except.ok.inj h).symm⟩

/-- A relationship to a node that was added. -/
theorem addRelation_eq_ok {s' : Stitch} {triples : List Triple} {r : Relationship} {n m : Node}
    {position : Nat} (h : addRelation triples r n m position = .ok s') :
    ∃ added, Adds triples [r.relate n m] added ∧ s' = ⟨added, some m, .nothing⟩ := by
  obtain ⟨added, happend, h⟩ := bind_eq_ok_iff.mp h
  exact ⟨added, adds_of_append happend, (Except.ok.inj h).symm⟩

/-- A node, a relationship and a fragment that were added. -/
theorem addLeading_eq_ok {s' : Stitch} {triples fragment : List Triple} {n : Node}
    {r : Relationship} {head : Triple} {position : Nat}
    (h : addLeading triples n r head fragment position = .ok s') :
    ∃ middle added, Adds triples [r.relate n head.source] middle ∧ Adds middle fragment added ∧
      s' = ⟨added, fragmentTail fragment, .nothing⟩ := by
  obtain ⟨middle, happend, h⟩ := bind_eq_ok_iff.mp h
  obtain ⟨added, hadds, rfl⟩ := addFragment_eq_ok h
  exact ⟨middle, added, adds_of_append happend, hadds, rfl⟩

/-- The nodes that a join hint names: one of the last triple, and one of the fragment. -/
theorem joinEnds?_eq_some_iff {hint : JoinHint} {triples fragment : List Triple} {n m : Node} :
    joinEnds? hint triples fragment = some (n, m) ↔
      ∃ last, triples.getLast? = some last ∧ last.nodes.find? (·.hasLabel hint.left) = some n ∧
        (fragment.flatMap Triple.nodes).find? (·.hasLabel hint.right) = some m := by
  simp only [joinEnds?, Option.bind_eq_bind, Option.bind_eq_some_iff, Option.pure_def,
    Option.some.injEq, Prod.mk.injEq]
  constructor
  · rintro ⟨last, hlast, n', hn, m', hm, rfl, rfl⟩
    exact ⟨last, hlast, hn, hm⟩
  · rintro ⟨last, hlast, hn, hm⟩
    exact ⟨last, hlast, n, hn, m, hm, rfl, rfl⟩

/-- A fragment that was joined. -/
theorem join_eq_ok {s' : Stitch} {triples fragment : List Triple} {r : Relationship}
    {position : Nat} (h : join triples r fragment position = .ok s') :
    ∃ n m middle added, (∃ t ∈ triples, n ∈ t.nodes) ∧ (∃ t ∈ fragment, m ∈ t.nodes) ∧
      Adds triples [r.relate n m] middle ∧ Adds middle fragment added ∧
      s' = ⟨added, fragmentTail fragment, .nothing⟩ := by
  unfold join at h
  cases hhint : r.hint with
  | none => simp [hhint] at h
  | some hint =>
      cases hends : joinEnds? hint triples fragment with
      | none => simp [hhint, hends] at h
      | some ends =>
          simp only [hhint, hends] at h
          obtain ⟨middle, happend, h⟩ := bind_eq_ok_iff.mp h
          obtain ⟨added, hadds, rfl⟩ := addFragment_eq_ok h
          obtain ⟨last, hlast, hn, hm⟩ := joinEnds?_eq_some_iff.mp hends
          exact ⟨_, _, middle, added,
            ⟨last, List.mem_of_getLast? hlast, List.mem_of_find?_eq_some hn⟩,
            List.mem_flatMap.mp (List.mem_of_find?_eq_some hm), adds_of_append happend, hadds, rfl⟩

/-- An entity that is taken is taken in one of these ways. -/
theorem taken_of_take {s s' : Stitch} {e : Entity} {position : Nat}
    (h : s.take e position = .ok s') : s.Taken e s' := by
  obtain ⟨triples, tail, pending⟩ := s
  have htail : ∀ k, fragmentTail e.triples = some k → k ∈ e.nodeCopies := by
    intro k hk
    obtain ⟨t, ht, hkt⟩ := mem_of_fragmentTail hk
    exact Entity.mem_nodeCopies_of_mem_triples ht hkt
  -- what is pending decides which entities can be taken
  cases pending with
  | nothing =>
      cases e with
      | node n =>
          obtain rfl := Except.ok.inj h
          exact .node rfl
      | relationship r =>
          simp only [take] at h
          split_ifs at h
          obtain rfl := Except.ok.inj h
          exact .rel rfl
      | property p => cases h
      | triple t =>
          obtain ⟨added, hadds, rfl⟩ := addFragment_eq_ok h
          exact .fragment rfl (fun r => by simp) hadds htail
      | path g =>
          obtain ⟨added, hadds, rfl⟩ := addFragment_eq_ok h
          exact .fragment rfl (fun r => by simp) hadds htail
  | node n =>
      cases e with
      | relationship r =>
          obtain rfl := Except.ok.inj h
          exact .nodeRel rfl
      | node => cases h
      | property => cases h
      | triple => cases h
      | path => cases h
  | nodeRel n r =>
      have hn : n ∈ nodes ⟨triples, tail, .nodeRel n r⟩ :=
        mem_nodes_iff.mpr (.inr (.inr (List.mem_singleton_self n)))
      cases e with
      | node m =>
          obtain ⟨added, hadds, rfl⟩ := addRelation_eq_ok h
          exact .tied rfl hn (List.mem_singleton_self m) hadds (adds_nil added)
            fun k hk => List.mem_singleton.mpr (Option.some.inj hk).symm
      | triple t =>
          obtain ⟨middle, added, htie, hadds, rfl⟩ := addLeading_eq_ok h
          exact .tied rfl hn t.source_mem_nodes htie hadds htail
      | path g =>
          simp only [take] at h
          split at h
          · next only honly =>
              obtain ⟨middle, added, htie, hadds, rfl⟩ := addLeading_eq_ok h
              rw [← honly] at hadds ⊢
              have hsource : only.source ∈ (Entity.path g).nodeCopies :=
                Entity.mem_nodeCopies_of_mem_triples (t := only) (by simp [Entity.triples, honly])
                  only.source_mem_nodes
              exact .tied rfl hn hsource htie hadds htail
          · cases h
      | relationship => cases h
      | property => cases h
  | rel r =>
      -- a fragment is joined at a node of the triples before
      have hjoin : ∀ {s'}, join triples r e.triples position = .ok s' →
          Taken ⟨triples, tail, .rel r⟩ e s' := by
        intro s' h
        obtain ⟨n, m, middle, added, hn, ⟨t, ht, hm⟩, htie, hadds, rfl⟩ := join_eq_ok h
        exact .tied rfl (mem_nodes_iff.mpr (.inl hn)) (Entity.mem_nodeCopies_of_mem_triples ht hm)
          htie hadds htail
      cases e with
      | node m =>
          cases tail with
          | none => cases h
          | some n =>
              obtain ⟨added, hadds, rfl⟩ := addRelation_eq_ok h
              exact .tied rfl (mem_nodes_iff.mpr (.inr (.inl rfl))) (List.mem_singleton_self m)
                hadds (adds_nil added) fun k hk => List.mem_singleton.mpr (Option.some.inj hk).symm
      | triple t => exact hjoin h
      | path g => exact hjoin h
      | relationship => cases h
      | property => cases h

/-! ## What taking keeps -/

/-- The nodes of a path in the making are those of the entities that were taken. -/
theorem Taken.nodes_subset {s s' : Stitch} {e : Entity} (h : s.Taken e s') :
    s'.nodes ⊆ s.nodes ++ e.nodeCopies := by
  have hmerge : ∀ {triples fragment added : List Triple}, Adds triples fragment added →
      ∀ t ∈ added, t ∈ triples ∨ t ∈ fragment := by
    rintro triples fragment added ⟨rfl, -⟩ t ht
    exact List.mem_append.mp ((sublist_merge triples fragment).subset ht)
  intro k hk
  rw [List.mem_append]
  rcases mem_nodes_iff.mp hk with ⟨t, ht, hkt⟩ | htail | hpending
  · -- a node of the triples, old or new
    have hold : t ∈ s.triples → k ∈ s.nodes := fun ht => mem_nodes_iff.mpr (.inl ⟨t, ht, hkt⟩)
    have hnew : t ∈ e.triples → k ∈ e.nodeCopies :=
      fun ht => Entity.mem_nodeCopies_of_mem_triples ht hkt
    cases h with
    | node hp => exact .inl (hold ht)
    | nodeRel hp => exact .inl (hold ht)
    | rel hp => exact .inl (hold ht)
    | fragment hp hkind hadds htail => exact (hmerge hadds t ht).imp hold hnew
    | tied hp hn hm htie hadds htail =>
        rcases hmerge hadds t ht with ht | ht
        · rcases hmerge htie t ht with ht | ht
          · exact .inl (hold ht)
          · rw [List.mem_singleton.mp ht, Relationship.mem_nodes_relate] at hkt
            rcases hkt with rfl | rfl
            · exact .inl hn
            · exact .inr hm
        · exact .inr (hnew ht)
  · cases h with
    | node hp => exact .inl (mem_nodes_iff.mpr (.inr (.inl htail)))
    | nodeRel hp => exact .inl (mem_nodes_iff.mpr (.inr (.inl htail)))
    | rel hp => exact .inl (mem_nodes_iff.mpr (.inr (.inl htail)))
    | fragment hp hkind hadds hends => exact .inr (hends k htail)
    | tied hp hn hm htie hadds hends => exact .inr (hends k htail)
  · cases h with
    | node hp => exact .inr hpending
    | nodeRel hp =>
        refine .inl (mem_nodes_iff.mpr (.inr (.inr ?_)))
        rw [hp]
        exact hpending
    | rel hp => exact absurd hpending List.not_mem_nil
    | fragment => exact absurd hpending List.not_mem_nil
    | tied => exact absurd hpending List.not_mem_nil

/-- The relationship that waits, as the beginning of a list of entities. -/
def waiting (s : Stitch) : List Entity := (s.pending.relationship?.map .relationship).toList

/-- Taking an entity adds what it supplies, with the relationship that waits before it. -/
theorem Taken.supplies {s s' : Stitch} {e : Entity} (h : s.Taken e s') {seen : List Node}
    (hseen : s.nodes ⊆ seen) :
    ∃ added, s'.triples = merge s.triples added ∧ ∀ rest supplied,
      Supplies (seen ++ e.nodeCopies) (s'.waiting ++ rest) supplied →
        Supplies seen (s.waiting ++ e :: rest) (added ++ supplied) := by
  cases h with
  | node hp =>
      refine ⟨[], rfl, fun rest supplied hrest => ?_⟩
      rw [waiting, hp]
      exact .entity (fun r => by simp) hrest
  | nodeRel hp =>
      refine ⟨[], rfl, fun rest supplied hrest => ?_⟩
      rw [waiting, hp]
      simpa [waiting, Pending.relationship?, Entity.nodeCopies] using hrest
  | rel hp =>
      refine ⟨[], rfl, fun rest supplied hrest => ?_⟩
      rw [waiting, hp]
      simpa [waiting, Pending.relationship?, Entity.nodeCopies] using hrest
  | fragment hp hkind hadds htail =>
      refine ⟨e.triples, hadds.eq_merge, fun rest supplied hrest => ?_⟩
      rw [waiting, hp]
      exact .entity hkind hrest
  | @tied _ r n m middle added tail hp hn hm htie hadds htail =>
      refine ⟨r.relate n m :: e.triples, ?_, fun rest supplied hrest => ?_⟩
      · show added = merge s.triples ([r.relate n m] ++ e.triples)
        rw [hadds.eq_merge, htie.eq_merge, merge_append]
      · have hkind : ∀ r, e ≠ .relationship r := by
          rintro r rfl
          exact absurd hm List.not_mem_nil
        rw [waiting, hp]
        exact .relationship (hseen hn) hm (.entity hkind hrest)

/-- The triples of a path in the making: none twice, and all connected. -/
structure Sound (triples : List Triple) : Prop where
  nodup : (triples.map Triple.ends).Nodup
  connected : Connected triples

/-- An entity whose triples are connected leaves the triples sound. -/
theorem Taken.sound {s s' : Stitch} {e : Entity} (h : s.Taken e s') (hs : Sound s.triples)
    (he : Connected e.triples) : Sound s'.triples := by
  have hadd : ∀ {triples fragment added : List Triple}, Adds triples fragment added →
      Sound triples → Connected fragment → Sound added :=
    fun hadds hsound hfragment =>
      ⟨hadds.eq_merge ▸ nodup_ends_merge hsound.nodup _, hadds.connected hsound.connected hfragment⟩
  cases h with
  | node => exact hs
  | nodeRel => exact hs
  | rel => exact hs
  | fragment hp hkind hadds htail => exact hadd hadds hs he
  | tied hp hn hm htie hadds htail =>
      exact hadd hadds (hadd htie hs (connected_singleton _)) he

/-! ## Taking all entities -/

/-- Entities behind others are taken when these are. -/
theorem takeAll_append (s : Stitch) (before after : List Entity) (position : Nat) :
    s.takeAll (before ++ after) position =
      s.takeAll before position >>= fun s => s.takeAll after (position + before.length) := by
  induction before generalizing s position with
  | nil => rfl
  | cons e rest ih =>
      have hlength : position + (e :: rest).length = position + 1 + rest.length := by
        rw [List.length_cons]
        omega
      rw [List.cons_append, takeAll, takeAll, bind_assoc, hlength]
      exact bind_congr fun s => ih s (position + 1)

/-- A list of entities is taken one after the other. -/
theorem takeAll_cons_eq_ok {s s' : Stitch} {e : Entity} {rest : List Entity} {position : Nat}
    (h : s.takeAll (e :: rest) position = .ok s') :
    ∃ middle, s.Taken e middle ∧ middle.takeAll rest (position + 1) = .ok s' := by
  obtain ⟨middle, htake, hrest⟩ := bind_eq_ok_iff.mp h
  exact ⟨middle, taken_of_take htake, hrest⟩

/-- Entities that leave nothing waiting add what they supply. -/
theorem supplies_of_takeAll {s s' : Stitch} {entities : List Entity} {position : Nat}
    (h : s.takeAll entities position = .ok s') (hdone : s'.pending = .nothing) {seen : List Node}
    (hseen : s.nodes ⊆ seen) :
    ∃ added, s'.triples = merge s.triples added ∧ Supplies seen (s.waiting ++ entities) added := by
  induction entities generalizing s position seen with
  | nil =>
      obtain rfl := Except.ok.inj h
      refine ⟨[], rfl, ?_⟩
      rw [waiting, hdone]
      exact .nil seen
  | cons e rest ih =>
      obtain ⟨middle, htaken, hrest⟩ := takeAll_cons_eq_ok h
      obtain ⟨added, hadded, hsupplies⟩ := htaken.supplies hseen
      have hnodes : middle.nodes ⊆ seen ++ e.nodeCopies :=
        List.Subset.trans htaken.nodes_subset (List.append_subset_of_subset_of_subset
          (List.subset_append_of_subset_left _ hseen) (List.subset_append_right _ _))
      obtain ⟨more, hmore, hlater⟩ := ih hrest hnodes
      refine ⟨added ++ more, ?_, hsupplies rest more hlater⟩
      rw [hmore, hadded, merge_append]

/-- Entities with connected triples keep the triples sound. -/
theorem sound_of_takeAll {s s' : Stitch} {entities : List Entity} {position : Nat}
    (h : s.takeAll entities position = .ok s') (hs : Sound s.triples)
    (hentities : ∀ e ∈ entities, Connected e.triples) : Sound s'.triples := by
  induction entities generalizing s position with
  | nil => exact Except.ok.inj h ▸ hs
  | cons e rest ih =>
      obtain ⟨middle, htaken, hrest⟩ := takeAll_cons_eq_ok h
      exact ih hrest (htaken.sound hs (hentities e List.mem_cons_self))
        fun e he => hentities e (List.mem_cons_of_mem _ he)

/-- A path in the making is finished if nothing waits and there is a triple. -/
theorem finish_eq_ok_iff {s : Stitch} {triples : List Triple} :
    s.finish = .ok triples ↔ s.pending = .nothing ∧ s.triples = triples ∧ triples ≠ [] := by
  unfold finish
  split
  · next hpending =>
      split_ifs with hempty
      · refine ⟨(nomatch ·), ?_⟩
        rintro ⟨-, rfl, hne⟩
        exact absurd (List.isEmpty_iff.mp hempty) hne
      · constructor
        · intro h
          obtain rfl := Except.ok.inj h
          exact ⟨hpending, rfl, fun hnil => hempty (List.isEmpty_iff.mpr hnil)⟩
        · rintro ⟨-, rfl, -⟩
          rfl
  · next hpending => exact ⟨(nomatch ·), fun h => absurd h.1 hpending⟩

end Stitch

/-- The triples that entities are stitched into: those that they supply, the first copy of
each. -/
theorem supplies_of_stitch {entities : List Entity} {triples : List Triple}
    (h : stitch entities = .ok triples) :
    triples ≠ [] ∧ ∃ supplied, Supplies [] entities supplied ∧
      triples = Stitch.merge [] supplied := by
  obtain ⟨s, htake, hfinish⟩ := bind_eq_ok_iff.mp h
  obtain ⟨hdone, rfl, hne⟩ := Stitch.finish_eq_ok_iff.mp hfinish
  obtain ⟨supplied, hmerge, hsupplies⟩ :=
    Stitch.supplies_of_takeAll htake hdone (List.Subset.refl [])
  exact ⟨hne, supplied, hsupplies, hmerge⟩

/-- Two entities and a relationship between them supply their triples and one between a node of the
first and a node of the second. -/
theorem Supplies.between {a b : Entity} {r : Relationship} {supplied : List Triple}
    (h : Supplies [] [a, .relationship r, b] supplied) :
    ∃ n ∈ a.nodeCopies, ∃ m ∈ b.nodeCopies, supplied = a.triples ++ r.relate n m :: b.triples := by
  cases h with
  | relationship hn => exact absurd hn List.not_mem_nil
  | entity _ hrest =>
      cases hrest with
      | entity hkind => exact absurd rfl (hkind r)
      | @relationship _ _ _ _ n m _ hn hm hlast =>
          cases hlast with
          | entity _ hend =>
              cases hend
              exact ⟨n, hn, m, hm, by rw [List.append_nil]⟩

/-- Stitched triples are connected if those of the entities are, and none is there twice. -/
theorem sound_of_stitch {entities : List Entity} {triples : List Triple}
    (h : stitch entities = .ok triples) (hentities : ∀ e ∈ entities, Connected e.triples) :
    Stitch.Sound triples := by
  obtain ⟨s, htake, hfinish⟩ := bind_eq_ok_iff.mp h
  obtain ⟨-, rfl, -⟩ := Stitch.finish_eq_ok_iff.mp hfinish
  exact Stitch.sound_of_takeAll htake ⟨List.nodup_nil, connected_nil⟩ hentities

/-! ## Stitched paths -/

namespace Path

/-- A path that was stitched, as were the paths that it was stitched from. -/
inductive Stitched : Path → Prop where
  | intro {s s' : Numbering} {entities : List Entity} {g : Path} :
      (∀ p, .path p ∈ entities → Stitched p) → Path.ofEntities s entities = .ok (g, s') →
      Stitched g

/-- A stitched path has the next number and the stitched triples. -/
theorem ofEntities_eq_ok_iff {s s' : Numbering} {entities : List Entity} {g : Path} :
    Path.ofEntities s entities = .ok (g, s') ↔
      ∃ triples, stitch entities = .ok triples ∧ s.path triples = (g, s') := by
  rw [Path.ofEntities, bind_eq_ok_iff]
  simp only [pure, Except.pure, Except.ok.injEq]

/-- A stitched path has a triple, none twice, and is connected. -/
theorem Stitched.sound {g : Path} (h : g.Stitched) : g.triples ≠ [] ∧ Stitch.Sound g.triples := by
  induction h with
  | @intro s s' entities g hpaths hstitched ih =>
      obtain ⟨triples, hstitch, hpath⟩ := ofEntities_eq_ok_iff.mp hstitched
      obtain ⟨rfl, -⟩ := Prod.mk.inj hpath
      refine ⟨(supplies_of_stitch hstitch).1, sound_of_stitch hstitch fun e he => ?_⟩
      cases e with
      | triple t => exact connected_singleton t
      | path p => exact (ih p he).2.connected
      | node => exact connected_nil
      | relationship => exact connected_nil
      | property => exact connected_nil

/-- The attempt to stitch a path, while a numbering is in use. -/
def attempt (entities : List Entity) : ExceptT PathError (StateM Numbering) Path := do
  let triples ← ExceptT.mk (pure (stitch entities))
  modifyGet fun s => s.path triples

/-- An attempt that succeeds leaves the numbering behind the path, and any other the numbering that
was in use. -/
theorem run_attempt (s : Numbering) (entities : List Entity) :
    (attempt entities).run.run s =
      match Path.ofEntities s entities with
      | .ok (g, s') => (.ok g, s')
      | .error e => (.error e, s) := by
  rw [attempt, Path.ofEntities]
  cases stitch entities <;> rfl

/-- What a stitched path contains. Its triples are those that the entities supply, in order and
without further copies: the triples of triples and paths, and one of each relationship. No two of
them are copies of one, there is at least one, and they are connected. A list of entities that is
refused takes no number. -/
theorem contents_of_ofEntities {s : Numbering} {entities : List Entity}
    (hpaths : ∀ p, .path p ∈ entities → p.Stitched) :
    (∀ g s', Path.ofEntities s entities = .ok (g, s') →
      (∃ supplied, Supplies [] entities supplied ∧ g.triples.Sublist supplied ∧
        ∀ t ∈ supplied, ∃ u ∈ g.triples, u.sameAs t = true) ∧
      g.triples.Pairwise (fun t u => t.sameAs u = false) ∧ g.triples ≠ [] ∧
      Connected g.triples) ∧
    ∀ e, Path.ofEntities s entities = .error e → (attempt entities).run.run s = (.error e, s) := by
  refine ⟨fun g s' hstitched => ?_, fun e hrefused => ?_⟩
  · obtain ⟨hne, hsound⟩ := (Stitched.intro hpaths hstitched).sound
    obtain ⟨triples, hstitch, hpath⟩ := ofEntities_eq_ok_iff.mp hstitched
    obtain ⟨rfl, -⟩ := Prod.mk.inj hpath
    obtain ⟨-, supplied, hsupplies, rfl⟩ := supplies_of_stitch hstitch
    refine ⟨⟨supplied, hsupplies, Stitch.sublist_merge [] supplied, fun t ht => ?_⟩, ?_, hne,
      hsound.connected⟩
    · have hends : t.ends ∈ (Stitch.merge [] supplied).map Triple.ends :=
        Stitch.mem_ends_merge.mpr (.inr (List.mem_map_of_mem ht))
      obtain ⟨u, hu, hut⟩ := List.mem_map.mp hends
      exact ⟨u, hu, Triple.sameAs_iff.mpr hut⟩
    · refine (List.pairwise_map.mp hsound.nodup).imp fun hne => ?_
      rw [Bool.eq_false_iff, Ne, Triple.sameAs_iff]
      exact hne
  · rw [run_attempt, hrefused]

/-- A path of one triple, joined to a second triple by their labels, and closed to a cycle; the
relationship that closes it comes twice. -/
def cycleParts : List Entity :=
  let a : Node := { var := "n0", label := some "A" }
  let b : Node := { var := "n1", label := some "B" }
  let c : Node := { var := "n2", label := some "C" }
  let d : Node := { var := "n3", label := some "D" }
  let back : Relationship := { var := "r3", kind := some "back", direction := .left }
  [.path ⟨"g0", [⟨a, { var := "r0", kind := some "q" }, b⟩]⟩,
    .relationship { var := "r1", kind := some "join", hint := some ⟨"B", "C"⟩ },
    .triple ⟨c, { var := "r2", kind := some "q" }, d⟩,
    .relationship back, .node a, .triple (back.relate d a)]

/-- The contents of the cycle. -/
theorem contents_of_ofEntities_cycle :
    (∀ p, .path p ∈ cycleParts → p.Stitched) ∧
      ∃ g s', Path.ofEntities .start cycleParts = .ok (g, s') ∧ g.triples.length = 4 ∧
        (∃ supplied, Supplies [] cycleParts supplied ∧ g.triples.Sublist supplied) ∧
        Connected g.triples := by
  have hpaths : ∀ p, .path p ∈ cycleParts → p.Stitched := by
    intro p hp
    obtain rfl : p = ⟨"g0", _⟩ := by simpa [cycleParts] using hp
    exact @Stitched.intro .start _ [.triple _] _ (fun q hq => by simp at hq) rfl
  have hstitched : Path.ofEntities .start cycleParts = .ok (_, _) := rfl
  obtain ⟨⟨supplied, hsupplies, hsublist, -⟩, -, -, hconnected⟩ :=
    (contents_of_ofEntities hpaths).1 _ _ hstitched
  exact ⟨hpaths, _, _, hstitched, rfl, ⟨supplied, hsupplies, hsublist⟩, hconnected⟩

end Path

end CypherRoutes
