/-
# Merging triples

A triple is known by its ends: the variables of its edge and of the nodes where it begins and ends.
Merging a fragment into a list of triples adds those triples of the fragment whose ends are not
there yet, so that no triple is lost and none is there twice. Two connected lists that touch are
connected after they are merged.
-/
import CypherRoutes.Graph.Stitch
import CypherRoutes.Proofs.Outcome

namespace CypherRoutes

/-! ## Ends -/

/-- The variables of an edge and of the nodes where it begins and ends. -/
structure Ends where
  source : String
  edge : String
  target : String
deriving DecidableEq

namespace Triple

/-- The variables of a triple. -/
def ends (t : Triple) : Ends := ⟨t.source.var, t.edge.var, t.target.var⟩

/-- Copies of one triple have the same ends. -/
theorem sameAs_iff {t u : Triple} : t.sameAs u = true ↔ t.ends = u.ends := by
  rw [sameAs, Node.sameEndpoint, Node.sameEndpoint, Bool.and_eq_true, Bool.and_eq_true,
    beq_iff_eq, beq_iff_eq, beq_iff_eq, ends, ends, Ends.mk.injEq]
  exact ⟨fun ⟨⟨he, hs⟩, ht⟩ => ⟨hs, he, ht⟩, fun ⟨hs, he, ht⟩ => ⟨⟨he, hs⟩, ht⟩⟩

/-- Triples with different edges have different ends. -/
theorem nodup_ends {triples : List Triple} (h : (triples.map fun t => t.edge.var).Nodup) :
    (triples.map ends).Nodup := by
  refine List.Nodup.of_map Ends.edge ?_
  rwa [List.map_map]

/-- Triples that touch have a node of one variable. -/
theorem touches_iff {t u : Triple} :
    t.touches u = true ↔ ∃ n ∈ t.nodes, ∃ m ∈ u.nodes, n.var = m.var := by
  simp only [touches, List.any_eq_true, Node.sameEndpoint, beq_iff_eq]

/-- Copies of one triple touch each other. -/
theorem touches_of_sameAs {t u : Triple} (h : t.sameAs u = true) : t.touches u = true :=
  touches_iff.mpr ⟨t.source, List.mem_cons_self, u.source, List.mem_cons_self,
    congrArg Ends.source (sameAs_iff.mp h)⟩

theorem source_mem_nodes (t : Triple) : t.source ∈ t.nodes := List.mem_cons_self

theorem target_mem_nodes (t : Triple) : t.target ∈ t.nodes :=
  List.mem_cons_of_mem _ (List.mem_singleton_self _)

end Triple

/-- The triple of a relationship has its two nodes. -/
theorem Relationship.mem_nodes_relate {r : Relationship} {n m k : Node} :
    k ∈ (r.relate n m).nodes ↔ k = n ∨ k = m := by
  rw [relate, Triple.nodes]
  cases r.direction with
  | right => simp [Direction.orient]
  | left => simp [Direction.orient, or_comm]

/-! ## Merging -/

namespace Stitch

variable {triples fragment : List Triple}

theorem merge_nil (triples : List Triple) : merge triples [] = triples := rfl

theorem merge_cons (triples : List Triple) (t : Triple) (fragment : List Triple) :
    merge triples (t :: fragment) =
      merge (if triples.any (·.sameAs t) then triples else triples ++ [t]) fragment := rfl

/-- Two fragments can be merged one after the other. -/
theorem merge_append (triples fragment fragment' : List Triple) :
    merge triples (fragment ++ fragment') = merge (merge triples fragment) fragment' :=
  List.foldl_append

/-- A triple is there already if its ends are. -/
theorem any_sameAs_iff {t : Triple} :
    triples.any (·.sameAs t) = true ↔ t.ends ∈ triples.map Triple.ends := by
  simp only [List.any_eq_true, List.mem_map, Triple.sameAs_iff]

/-- The triples stay in order, and nothing is added but the fragment's. -/
theorem sublist_merge (triples fragment : List Triple) :
    (merge triples fragment).Sublist (triples ++ fragment) := by
  induction fragment generalizing triples with
  | nil => rw [merge_nil, List.append_nil]
  | cons t rest ih =>
      rw [merge_cons]
      split_ifs
      · exact (ih triples).trans ((List.sublist_cons_self t rest).append_left triples)
      · simpa using ih (triples ++ [t])

/-- After merging, the ends of both lists are there. -/
theorem mem_ends_merge {e : Ends} :
    e ∈ (merge triples fragment).map Triple.ends ↔
      e ∈ triples.map Triple.ends ∨ e ∈ fragment.map Triple.ends := by
  induction fragment generalizing triples with
  | nil => simp [merge_nil]
  | cons t rest ih =>
      rw [merge_cons, ih, List.map_cons, List.mem_cons]
      split_ifs with hthere
      · -- a triple that is there already adds no ends
        have ht : e = t.ends → e ∈ triples.map Triple.ends :=
          fun he => he ▸ any_sameAs_iff.mp hthere
        tauto
      · rw [List.map_append, List.mem_append, List.map_singleton, List.mem_singleton, or_assoc]

/-- What is merged is there. -/
theorem merge_ne_nil (h : fragment ≠ []) (triples : List Triple) : merge triples fragment ≠ [] := by
  obtain ⟨t, ht⟩ := List.exists_mem_of_ne_nil fragment h
  have hmem : t.ends ∈ (merge triples fragment).map Triple.ends :=
    mem_ends_merge.mpr (.inr (List.mem_map_of_mem ht))
  intro hnil
  rw [hnil] at hmem
  exact absurd hmem List.not_mem_nil

/-- Merging brings no triple in twice. -/
theorem nodup_ends_merge (h : (triples.map Triple.ends).Nodup) (fragment : List Triple) :
    ((merge triples fragment).map Triple.ends).Nodup := by
  induction fragment generalizing triples with
  | nil => exact h
  | cons t rest ih =>
      rw [merge_cons]
      split_ifs with hthere
      · exact ih h
      · refine ih ?_
        rw [List.map_append, List.map_singleton, List.nodup_append]
        refine ⟨h, List.nodup_singleton _, fun a ha b hb hab => hthere ?_⟩
        rw [any_sameAs_iff, ← List.mem_singleton.mp hb, ← hab]
        exact ha

/-- Triples with different ends are all kept. -/
theorem merge_eq_append (h : ((triples ++ fragment).map Triple.ends).Nodup) :
    merge triples fragment = triples ++ fragment := by
  induction fragment generalizing triples with
  | nil => rw [merge_nil, List.append_nil]
  | cons t rest ih =>
      have hsplit : triples ++ t :: rest = triples ++ [t] ++ rest := by simp
      have hnew : triples.any (·.sameAs t) = false := by
        rw [Bool.eq_false_iff, Ne, any_sameAs_iff]
        intro hthere
        rw [List.map_append, List.map_cons, List.nodup_append] at h
        exact h.2.2 _ hthere _ List.mem_cons_self rfl
      rw [merge_cons, hnew, hsplit]
      exact ih (hsplit ▸ h)

/-- So is a fragment with different ends that comes first. -/
theorem nil_merge (h : (fragment.map Triple.ends).Nodup) : merge [] fragment = fragment :=
  merge_eq_append h

/-! ## Adding fragments -/

/-- A fragment is appended if one of its triples touches the last one before it: a copy of that
touches it too. -/
theorem append_eq {last : Triple} (hlast : triples.getLast? = some last) (position : Nat) :
    append triples fragment position =
      if fragment.any last.touches then .ok (merge triples fragment)
      else .error (.noOverlap position) := by
  have hany : (fragment.any fun t => last.sameAs t || last.touches t) = fragment.any last.touches :=
    congrArg fragment.any <| funext fun t =>
      Bool.or_eq_right_iff_imp.mpr Triple.touches_of_sameAs
  rw [append, hlast]
  simp only [hany]

/-- A list of triples after a fragment is added to it: the two are merged, and they touch, unless
there is nothing to touch. -/
structure Adds (triples fragment added : List Triple) : Prop where
  eq_merge : added = merge triples fragment
  touches : triples = [] ∨ fragment = [] ∨ ∃ t ∈ triples, ∃ u ∈ fragment, t.touches u = true

/-- Nothing added. -/
theorem adds_nil (triples : List Triple) : Adds triples [] triples := ⟨rfl, .inr (.inl rfl)⟩

/-- A fragment that was appended is added. -/
theorem adds_of_append {added : List Triple} {position : Nat}
    (h : append triples fragment position = .ok added) : Adds triples fragment added := by
  cases hlast : triples.getLast? with
  | none =>
      rw [append, hlast] at h
      exact ⟨(Except.ok.inj h).symm, .inl (List.getLast?_eq_none_iff.mp hlast)⟩
  | some last =>
      rw [append_eq hlast] at h
      split_ifs at h with htouch
      obtain ⟨u, hu, htouch⟩ := List.any_eq_true.mp htouch
      exact ⟨(Except.ok.inj h).symm, .inr (.inr ⟨last, List.mem_of_getLast? hlast, u, hu, htouch⟩)⟩

/-- A fragment that touches the last triple can be appended. -/
theorem append_eq_ok {last u : Triple} (hlast : triples.getLast? = some last) (hu : u ∈ fragment)
    (htouch : last.touches u = true) (position : Nat) :
    append triples fragment position = .ok (merge triples fragment) := by
  rw [append_eq hlast, if_pos (List.any_eq_true.mpr ⟨u, hu, htouch⟩)]

end Stitch

/-! ## Connected triples -/

/-- Two variables between which the triples of a list lead, in either direction of their edges. -/
def Joined (triples : List Triple) : String → String → Prop :=
  Relation.EqvGen fun a b => ∃ t ∈ triples, t.source.var = a ∧ t.target.var = b

/-- From every node of the triples every other one can be reached. -/
def Connected (triples : List Triple) : Prop :=
  ∀ n ∈ triples.flatMap Triple.nodes, ∀ m ∈ triples.flatMap Triple.nodes, Joined triples n.var m.var

/-- Variables stay joined where all the ends are. -/
theorem Joined.mono {xs ys : List Triple} (h : ∀ e ∈ xs.map Triple.ends, e ∈ ys.map Triple.ends)
    {a b : String} (hab : Joined xs a b) : Joined ys a b := by
  refine Relation.EqvGen.mono ?_ _ _ hab
  rintro a b ⟨t, ht, rfl, rfl⟩
  obtain ⟨u, hu, hends⟩ := List.mem_map.mp (h _ (List.mem_map_of_mem ht))
  exact ⟨u, hu, congrArg Ends.source hends, congrArg Ends.target hends⟩

theorem connected_nil : Connected [] := fun _ hn => absurd hn List.not_mem_nil

/-- A triple joins its two nodes. -/
theorem connected_singleton (t : Triple) : Connected [t] := by
  have hjoined : Joined [t] t.source.var t.target.var :=
    .rel _ _ ⟨t, List.mem_singleton_self t, rfl, rfl⟩
  intro n hn m hm
  rw [List.flatMap_singleton, Triple.nodes, List.mem_pair] at hn hm
  rcases hn with rfl | rfl <;> rcases hm with rfl | rfl
  · exact .refl _
  · exact hjoined
  · exact hjoined.symm _ _
  · exact .refl _

/-- A fragment added to connected triples, connected itself, leaves them connected. -/
theorem Stitch.Adds.connected {triples fragment added : List Triple}
    (h : Stitch.Adds triples fragment added) (htriples : Connected triples)
    (hfragment : Connected fragment) : Connected added := by
  obtain ⟨rfl, htouches⟩ := h
  have hleft : ∀ {a b}, Joined triples a b → Joined (merge triples fragment) a b :=
    Joined.mono fun _ he => mem_ends_merge.mpr (.inl he)
  have hright : ∀ {a b}, Joined fragment a b → Joined (merge triples fragment) a b :=
    Joined.mono fun _ he => mem_ends_merge.mpr (.inr he)
  have hnodes : ∀ n ∈ (merge triples fragment).flatMap Triple.nodes,
      n ∈ triples.flatMap Triple.nodes ∨ n ∈ fragment.flatMap Triple.nodes := by
    intro n hn
    rw [← List.mem_append, ← List.flatMap_append]
    obtain ⟨t, ht, hn⟩ := List.mem_flatMap.mp hn
    exact List.mem_flatMap.mpr ⟨t, (sublist_merge triples fragment).subset ht, hn⟩
  -- the two lists meet at a variable, unless one of them is empty
  have hcross : ∀ n ∈ triples.flatMap Triple.nodes, ∀ m ∈ fragment.flatMap Triple.nodes,
      Joined (merge triples fragment) n.var m.var := by
    intro n hn m hm
    rcases htouches with rfl | rfl | ⟨t, ht, u, hu, htouch⟩
    · exact absurd hn List.not_mem_nil
    · exact absurd hm List.not_mem_nil
    · obtain ⟨k, hk, k', hk', hvar⟩ := Triple.touches_iff.mp htouch
      have hnk := hleft (htriples n hn k (List.mem_flatMap.mpr ⟨t, ht, hk⟩))
      have hkm := hright (hfragment k' (List.mem_flatMap.mpr ⟨u, hu, hk'⟩) m hm)
      rw [← hvar] at hkm
      exact hnk.trans _ _ _ hkm
  intro n hn m hm
  rcases hnodes n hn with hn | hn <;> rcases hnodes m hm with hm | hm
  · exact hleft (htriples n hn m hm)
  · exact hcross n hn m hm
  · exact (hcross m hm n hn).symm _ _
  · exact hright (hfragment n hn m hm)

end CypherRoutes
