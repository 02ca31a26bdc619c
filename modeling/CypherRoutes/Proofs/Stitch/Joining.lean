/-
# Joining fragments

A relationship between two fragments needs a join hint, which names the labels of the two nodes
that it joins. The node on the right may be any node of the right fragment, but the one on the left
is looked for in the last triple of the left fragment only (`Path.ofEntities_joined`). So a label
that only an earlier triple of the left fragment has is not found (`Path.ofEntities_earlierLabel`).
-/
import CypherRoutes.Proofs.Stitch.Contents

namespace CypherRoutes

/-! ## Fragments -/

namespace Entity

/-- A triple, or a path that has a triple and none of them twice. -/
inductive IsFragment : Entity → Prop where
  | triple (t : Triple) : IsFragment (.triple t)
  | path {g : Path} : g.triples ≠ [] → (g.triples.map Triple.ends).Nodup → IsFragment (.path g)

/-- The nodes of the last triple. -/
def lastNodes (e : Entity) : List Node := e.triples.getLast?.toList.flatMap Triple.nodes

variable {e : Entity}

theorem IsFragment.triples_ne_nil (h : e.IsFragment) : e.triples ≠ [] := by
  cases h with
  | triple t => exact List.cons_ne_nil t []
  | path hne => exact hne

theorem IsFragment.nodup (h : e.IsFragment) : (e.triples.map Triple.ends).Nodup := by
  cases h with
  | triple t => exact List.nodup_singleton _
  | path hne hnodup => exact hnodup

/-- The nodes and edges of a fragment are those of its triples. -/
theorem IsFragment.nodeCopies_eq (h : e.IsFragment) :
    e.nodeCopies = e.triples.flatMap Triple.nodes := by
  refine nodeCopies_eq_flatMap ?_
  rintro n rfl
  cases h

theorem IsFragment.edgeCopies_eq (h : e.IsFragment) :
    e.edgeCopies = e.triples.map Triple.edge := by
  cases h <;> rfl

/-- Fragments and a relationship whose edges all differ have no triple in common. -/
theorem IsFragment.nodup_joined {left right : Entity} {r : Relationship} {n m : Node}
    (hleft : left.IsFragment) (hright : right.IsFragment)
    (hedges : ∀ q ∈ left.edgeCopies, ∀ q' ∈ right.edgeCopies, q.var ≠ q'.var)
    (hr : ∀ q ∈ left.edgeCopies ++ right.edgeCopies, q.var ≠ r.var) :
    ((left.triples ++ r.relate n m :: right.triples).map Triple.ends).Nodup := by
  have hedge : ∀ {e : Entity} {a : Ends}, e.IsFragment → a ∈ e.triples.map Triple.ends →
      ∃ q ∈ e.edgeCopies, q.var = a.edge := by
    intro e a he ha
    obtain ⟨t, ht, rfl⟩ := List.mem_map.mp ha
    rw [he.edgeCopies_eq]
    exact ⟨t.edge, List.mem_map_of_mem ht, rfl⟩
  rw [List.map_append, List.map_cons, List.nodup_append, List.nodup_cons]
  refine ⟨hleft.nodup, ⟨fun htie => ?_, hright.nodup⟩, ?_⟩
  · obtain ⟨q, hq, hvar⟩ := hedge hright htie
    exact hr q (List.mem_append_right _ hq) hvar
  · rintro a ha b hb rfl
    obtain ⟨q, hq, hvar⟩ := hedge hleft ha
    rcases List.mem_cons.mp hb with rfl | hb
    · exact hr q (List.mem_append_left _ hq) hvar
    · obtain ⟨q', hq', hvar'⟩ := hedge hright hb
      exact hedges q hq q' hq' (hvar.trans hvar'.symm)

end Entity

/-- A stitched path is a fragment. -/
theorem Path.Stitched.isFragment {g : Path} (h : g.Stitched) : (Entity.path g).IsFragment :=
  .path h.sound.1 h.sound.2.nodup

/-! ## The steps of a join -/

/-- A node that is found by its label is in the list and has the label. -/
theorem mem_of_find?_hasLabel {nodes : List Node} {label : String} {n : Node}
    (h : nodes.find? (·.hasLabel label) = some n) : n ∈ nodes ∧ n.label = some label := by
  have hlabel := List.find?_some h
  exact ⟨List.mem_of_find?_eq_some h, beq_iff_eq.mp hlabel⟩

namespace Stitch

/-- A fragment that comes first is taken as it is. -/
theorem take_fragment {e : Entity} (h : e.IsFragment) :
    take {} e 1 = .ok ⟨e.triples, fragmentTail e.triples, .nothing⟩ := by
  have hadd : addFragment [] e.triples 1 = .ok ⟨e.triples, fragmentTail e.triples, .nothing⟩ :=
    bind_eq_ok_iff.mpr ⟨e.triples, congrArg Except.ok (nil_merge h.nodup), rfl⟩
  cases h with
  | triple => exact hadd
  | path => exact hadd

/-- Two fragments around a relationship are stitched by joining them. -/
theorem stitch_fragments {left right : Entity} (hleft : left.IsFragment)
    (hright : right.IsFragment) (r : Relationship) :
    stitch [left, .relationship r, right] =
      join left.triples r right.triples 3 >>= finish := by
  have hrel : take ⟨left.triples, fragmentTail left.triples, .nothing⟩ (.relationship r) 2
      = .ok ⟨left.triples, fragmentTail left.triples, .rel r⟩ := by
    simp only [take, List.isEmpty_iff, hleft.triples_ne_nil, if_false]
  have hjoin : take ⟨left.triples, fragmentTail left.triples, .rel r⟩ right 3
      = join left.triples r right.triples 3 := by
    cases hright <;> rfl
  simp only [stitch, takeAll, take_fragment hleft, hrel, hjoin, bind, Except.bind]
  cases join left.triples r right.triples 3 <;> rfl

/-- The nodes that a join hint names are found if the last triple and the fragment have them. -/
theorem joinEnds?_eq_none_iff {hint : JoinHint} {triples fragment : List Triple} :
    joinEnds? hint triples fragment = none ↔
      ¬ ((∃ n ∈ triples.getLast?.toList.flatMap Triple.nodes, n.hasLabel hint.left) ∧
        ∃ m ∈ fragment.flatMap Triple.nodes, m.hasLabel hint.right) := by
  rw [joinEnds?]
  cases triples.getLast? with
  | none => simp
  | some last =>
      have hleft : (last.nodes.find? (·.hasLabel hint.left)).isSome = true ↔
          ∃ n ∈ last.nodes, n.hasLabel hint.left := List.find?_isSome
      have hright : ((fragment.flatMap Triple.nodes).find? (·.hasLabel hint.right)).isSome = true ↔
          ∃ m ∈ fragment.flatMap Triple.nodes, m.hasLabel hint.right := List.find?_isSome
      simp only [Option.toList_some, List.flatMap_singleton, ← hleft, ← hright,
        Option.bind_eq_bind, Option.bind_some]
      cases last.nodes.find? (·.hasLabel hint.left) <;>
        cases (fragment.flatMap Triple.nodes).find? (·.hasLabel hint.right) <;> simp

/-- A relationship joins two lists of triples at the nodes of its hint: its triple comes between
them. -/
theorem join_eq {left right : List Triple} {r : Relationship} {hint : JoinHint} {n m : Node}
    (hhint : r.hint = some hint) (hends : joinEnds? hint left right = some (n, m))
    (hnodup : ((left ++ r.relate n m :: right).map Triple.ends).Nodup) (position : Nat) :
    join left r right position =
      .ok ⟨left ++ r.relate n m :: right, fragmentTail right, .nothing⟩ := by
  obtain ⟨last, hlast, hn, hm⟩ := joinEnds?_eq_some_iff.mp hends
  obtain ⟨u, hu, hmu⟩ := List.mem_flatMap.mp (List.mem_of_find?_eq_some hm)
  -- the relationship touches the last triple at `n`, and the fragment touches it at `m`
  have htie : last.touches (r.relate n m) = true :=
    Triple.touches_iff.mpr ⟨n, List.mem_of_find?_eq_some hn, n,
      Relationship.mem_nodes_relate.mpr (.inl rfl), rfl⟩
  have hfragment : (r.relate n m).touches u = true :=
    Triple.touches_iff.mpr ⟨m, Relationship.mem_nodes_relate.mpr (.inr rfl), m, hmu, rfl⟩
  have hsplit : left ++ r.relate n m :: right = (left ++ [r.relate n m]) ++ right := by simp
  rw [hsplit] at hnodup ⊢
  have hfirst : merge left [r.relate n m] = left ++ [r.relate n m] := by
    rw [List.map_append] at hnodup
    exact merge_eq_append (List.nodup_append.mp hnodup).1
  unfold join
  simp only [hhint, hends]
  refine bind_eq_ok_iff.mpr ⟨left ++ [r.relate n m], ?_, ?_⟩
  · rw [append_eq_ok hlast (List.mem_singleton_self _) htie, hfirst]
  · refine bind_eq_ok_iff.mpr ⟨(left ++ [r.relate n m]) ++ right, ?_, rfl⟩
    rw [append_eq_ok List.getLast?_concat hu hfragment, merge_eq_append hnodup]

end Stitch

/-! ## Joined paths -/

namespace Path

/-- A relationship between two fragments that have no edge in common with each other or with it.
Without a join hint it is ambiguous what it joins. With a hint it joins a node of the last triple
on the left to a node on the right, if these have the labels of the hint, and the path has the
triples of both with the relationship between them; and if not, the nodes are not found. -/
theorem ofEntities_joined {s : Numbering} {left right : Entity} {r : Relationship}
    (hleft : left.IsFragment) (hright : right.IsFragment)
    (hedges : ∀ q ∈ left.edgeCopies, ∀ q' ∈ right.edgeCopies, q.var ≠ q'.var)
    (hr : ∀ q ∈ left.edgeCopies ++ right.edgeCopies, q.var ≠ r.var) :
    (r.hint = none →
      Path.ofEntities s [left, .relationship r, right] = .error (.ambiguousEnds 2)) ∧
    ∀ hint, r.hint = some hint →
      ((∃ n ∈ left.lastNodes, n.hasLabel hint.left) ∧
          (∃ m ∈ right.nodeCopies, m.hasLabel hint.right) →
        ∃ n ∈ left.lastNodes, ∃ m ∈ right.nodeCopies,
          n.label = some hint.left ∧ m.label = some hint.right ∧
          Path.ofEntities s [left, .relationship r, right] =
            .ok (s.path (left.triples ++ r.relate n m :: right.triples))) ∧
      (¬ ((∃ n ∈ left.lastNodes, n.hasLabel hint.left) ∧
          ∃ m ∈ right.nodeCopies, m.hasLabel hint.right) →
        Path.ofEntities s [left, .relationship r, right] = .error (.joinEndpointsNotFound 2)) := by
  rw [hright.nodeCopies_eq, Entity.lastNodes]
  refine ⟨fun hnone => ?_, fun hint hhint => ⟨fun hfound => ?_, fun hmissing => ?_⟩⟩
  · rw [Path.ofEntities, Stitch.stitch_fragments hleft hright, Stitch.join, hnone]
    rfl
  · have hnodup := fun n m => hleft.nodup_joined hright hedges hr (n := n) (m := m)
    cases hends : Stitch.joinEnds? hint left.triples right.triples with
    | none => exact absurd hfound (Stitch.joinEnds?_eq_none_iff.mp hends)
    | some ends =>
        obtain ⟨n, m⟩ := ends
        obtain ⟨last, hlast, hn, hm⟩ := Stitch.joinEnds?_eq_some_iff.mp hends
        obtain ⟨hnmem, hnlabel⟩ := mem_of_find?_hasLabel hn
        obtain ⟨hmmem, hmlabel⟩ := mem_of_find?_hasLabel hm
        refine ⟨n, ?_, m, hmmem, hnlabel, hmlabel, ?_⟩
        · rw [hlast, Option.toList_some, List.flatMap_singleton]
          exact hnmem
        · refine ofEntities_eq_ok_iff.mpr ⟨left.triples ++ r.relate n m :: right.triples, ?_, rfl⟩
          rw [Stitch.stitch_fragments hleft hright, Stitch.join_eq hhint hends (hnodup n m)]
          exact bind_eq_ok_iff.mpr ⟨_, rfl, Stitch.finish_eq_ok_iff.mpr ⟨rfl, rfl, by simp⟩⟩
  · rw [Path.ofEntities, Stitch.stitch_fragments hleft hright, Stitch.join, hhint]
    simp only [Stitch.joinEnds?_eq_none_iff.mpr hmissing]
    rfl

/-- `(n0:A)-[r0:q]->(n1:B)-[r1:q]->(n2:C)`. -/
def chain : Entity :=
  .path ⟨"g0", [⟨{ var := "n0", label := some "A" }, { var := "r0", kind := some "q" },
      { var := "n1", label := some "B" }⟩,
    ⟨{ var := "n1", label := some "B" }, { var := "r1", kind := some "q" },
      { var := "n2", label := some "C" }⟩]⟩

/-- `(n3:D)-[r3:q]->(n4:E)`. -/
def apart : Entity :=
  .triple ⟨{ var := "n3", label := some "D" }, { var := "r3", kind := some "q" },
    { var := "n4", label := some "E" }⟩

/-- A relationship from a node with the given label to one with the label `D`. -/
def hintedTo (label : String) : Relationship :=
  { var := "r2", kind := some "join", hint := some ⟨label, "D"⟩ }

theorem isFragment_chain : chain.IsFragment := .path (by simp) (by decide)

/-- The label of the last node of the chain is found. -/
theorem ofEntities_joined_chain :
    ∃ n ∈ chain.lastNodes, ∃ m ∈ apart.nodeCopies, n.label = some "C" ∧ m.label = some "D" ∧
      Path.ofEntities .start [chain, .relationship (hintedTo "C"), apart] =
        .ok (Numbering.start.path (chain.triples ++ (hintedTo "C").relate n m :: apart.triples)) :=
  ((ofEntities_joined isFragment_chain (.triple _) (by decide) (by decide)).2 ⟨"C", "D"⟩ rfl).1
    (by decide)

/-- The label of its first node is not found, although the chain and the triple have nothing in
common and have nodes with both labels of the hint. -/
theorem ofEntities_earlierLabel :
    chain.IsFragment ∧ apart.IsFragment ∧
      (∀ v ∈ chain.vars, v ∉ apart.vars) ∧ "r2" ∉ chain.vars ∧ "r2" ∉ apart.vars ∧
      (∃ n ∈ chain.nodeCopies, n.label = some "A") ∧ (∃ m ∈ apart.nodeCopies, m.label = some "D") ∧
      Path.ofEntities .start [chain, .relationship (hintedTo "A"), apart] =
        .error (.joinEndpointsNotFound 2) :=
  ⟨isFragment_chain, .triple _, by decide, by decide, by decide, by decide, by decide, rfl⟩

end Path

end CypherRoutes
