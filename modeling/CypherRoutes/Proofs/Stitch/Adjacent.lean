/-
# Neighbouring triples

Of a triple, and of the triple of a relationship, stitching asks that it has a node in common with
the last triple before it. Of a path with several triples it asks this of any one of them, and then
adds them in the order of the path. So two triples that follow each other in a stitched path have a
node in common wherever every path among its arguments has one triple. In general they do if and
only if each path goes on from what it is added to, triple by triple
(`Path.ofEntities_adjacent`). A path that touches what comes before it with its last triple does
not (`Path.ofEntities_touchingAtEnd`).
-/
import CypherRoutes.Proofs.Stitch.Contents

namespace CypherRoutes

/-! ## Neighbours -/

/-- Two triples with a node in common. -/
def Triple.Meets (t u : Triple) : Prop := ∃ n ∈ t.nodes, ∃ m ∈ u.nodes, n.var = m.var

instance (t u : Triple) : Decidable (t.Meets u) := inferInstanceAs (Decidable (∃ n ∈ _, _))

/-- Triples each of which has a node in common with the one before it. -/
def Adjacent (triples : List Triple) : Prop := triples.IsChain Triple.Meets

instance (triples : List Triple) : Decidable (Adjacent triples) :=
  inferInstanceAs (Decidable (List.IsChain _ triples))

namespace Stitch

variable {triples fragment : List Triple}

/-- The triples of a fragment go on from others: each of them that is not there when it is added
has a node in common with the last one that is. -/
def GoesOn : (triples fragment : List Triple) → Prop
  | _, [] => True
  | triples, t :: rest =>
    (t.ends ∉ triples.map Triple.ends → ∀ last ∈ triples.getLast?, last.Meets t) ∧
      GoesOn (merge triples [t]) rest

/-- A triple that is there already adds nothing, and any other comes last. -/
theorem merge_singleton (triples : List Triple) (t : Triple) :
    merge triples [t] = if t.ends ∈ triples.map Triple.ends then triples else triples ++ [t] := by
  rw [merge_cons, merge_nil]
  simp only [any_sameAs_iff]

/-- Neighbours have a node in common after a fragment is merged with others if they had before and
the fragment goes on from there. -/
theorem adjacent_merge :
    Adjacent (merge triples fragment) ↔ Adjacent triples ∧ GoesOn triples fragment := by
  induction fragment generalizing triples with
  | nil => rw [merge_nil, GoesOn, and_true]
  | cons t rest ih =>
      have hmerge : merge triples (t :: rest) = merge (merge triples [t]) rest :=
        merge_append triples [t] rest
      rw [hmerge, ih, GoesOn, ← and_assoc]
      refine and_congr_left fun _ => ?_
      rw [merge_singleton]
      by_cases hthere : t.ends ∈ triples.map Triple.ends
      · rw [if_pos hthere]
        exact ⟨fun h => ⟨h, fun hnew => absurd hthere hnew⟩, And.left⟩
      · rw [if_neg hthere, Adjacent, List.isChain_append]
        constructor
        · rintro ⟨htriples, -, hlast⟩
          exact ⟨htriples, fun _ last h => hlast last h t rfl⟩
        · rintro ⟨htriples, hlast⟩
          refine ⟨htriples, List.isChain_singleton t, fun last h u hu => ?_⟩
          obtain rfl := Option.some.inj hu
          exact hlast hthere last h

/-! ## Single triples -/

/-- A triple that can be appended goes on from those before it. -/
theorem goesOn_of_append {t : Triple} {added : List Triple} {position : Nat}
    (h : append triples [t] position = .ok added) : GoesOn triples [t] := by
  rw [GoesOn, GoesOn, and_true]
  intro _ last hlast
  rw [append_eq hlast] at h
  split_ifs at h with htouch
  have htouch : last.touches t = true := by simpa using htouch
  exact Triple.touches_iff.mp htouch

/-- What is reached from a list of triples when single ones are appended. -/
inductive Singly (triples : List Triple) : List Triple → Prop where
  | refl : Singly triples triples
  | append {built added : List Triple} {t : Triple} {position : Nat} : Singly triples built →
      Stitch.append built [t] position = .ok added → Singly triples added

/-- Single triples keep what neighbours have in common. -/
theorem Singly.adjacent_iff {added : List Triple} (h : Singly triples added) :
    Adjacent added ↔ Adjacent triples := by
  induction h with
  | refl => rfl
  | append _ happend ih =>
      rw [(adds_of_append happend).eq_merge, adjacent_merge, ih]
      exact and_iff_left (goesOn_of_append happend)

/-! ## Taking one more entity -/

/-- The triple of the relationship that waits in front of a path. -/
def tie? (s : Stitch) (p : Path) : Option Triple :=
  match s.pending with
  | .nodeRel n r => p.triples.head?.map fun t => r.relate n t.source
  | .rel r => do
    let hint ← r.hint
    let (n, m) ← joinEnds? hint s.triples p.triples
    return r.relate n m
  | _ => none

/-- What the triples of a path are added to: the triples so far, and that of the relationship that
waits. -/
def base (s : Stitch) (p : Path) : List Triple := merge s.triples (s.tie? p).toList

/-- A fragment that was added was appended. -/
theorem append_of_addFragment {s' : Stitch} {position : Nat}
    (h : addFragment triples fragment position = .ok s') :
    append triples fragment position = .ok s'.triples := by
  obtain ⟨added, happend, hs'⟩ := bind_eq_ok_iff.mp h
  obtain rfl := Except.ok.inj hs'
  exact happend

/-- A triple and a fragment that were appended one after the other. -/
theorem singly_of_append_addFragment {s' : Stitch} {t : Triple} {position : Nat}
    (h : (append triples [t] position >>= fun middle => addFragment middle fragment position) =
      .ok s') :
    Singly triples (merge triples [t]) ∧
      append (merge triples [t]) fragment position = .ok s'.triples := by
  obtain ⟨middle, htie, hfragment⟩ := bind_eq_ok_iff.mp h
  obtain rfl : middle = merge triples [t] := (adds_of_append htie).eq_merge
  exact ⟨.append .refl htie, append_of_addFragment hfragment⟩

/-- A fragment that was joined comes behind the triple of the relationship. -/
theorem singly_of_join {s' : Stitch} {r : Relationship} {position : Nat}
    (h : join triples r fragment position = .ok s') :
    ∃ hint n m, r.hint = some hint ∧ joinEnds? hint triples fragment = some (n, m) ∧
      Singly triples (merge triples [r.relate n m]) ∧
      append (merge triples [r.relate n m]) fragment position = .ok s'.triples := by
  unfold join at h
  cases hhint : r.hint with
  | none => simp [hhint] at h
  | some hint =>
      cases hends : joinEnds? hint triples fragment with
      | none => simp [hhint, hends] at h
      | some ends =>
          simp only [hhint, hends] at h
          exact ⟨hint, ends.1, ends.2, rfl, hends, singly_of_append_addFragment h⟩

/-- A path that is taken is appended to what stands before it, which single triples lead to. -/
theorem singly_of_take_path {s s' : Stitch} {p : Path} {position : Nat}
    (h : s.take (.path p) position = .ok s') :
    Singly s.triples (s.base p) ∧ append (s.base p) p.triples position = .ok s'.triples := by
  obtain ⟨triples, tail, pending⟩ := s
  cases pending with
  | nothing => exact ⟨.refl, append_of_addFragment h⟩
  | node n => cases h
  | nodeRel n r =>
      simp only [take] at h
      split at h
      · next only honly =>
          have htie : tie? ⟨triples, tail, .nodeRel n r⟩ p = some (r.relate n only.source) := by
            rw [tie?, honly]
            rfl
          rw [base, htie, honly]
          exact singly_of_append_addFragment h
      · cases h
  | rel r =>
      obtain ⟨hint, n, m, hhint, hends, hsteps⟩ := singly_of_join h
      have htie : tie? ⟨triples, tail, .rel r⟩ p = some (r.relate n m) := by
        simp [tie?, hhint, hends]
      rwa [base, htie]

/-- Every other entity adds single triples. -/
theorem singly_of_take {s s' : Stitch} {e : Entity} {position : Nat} (he : ∀ p, e ≠ .path p)
    (h : s.take e position = .ok s') : Singly s.triples s'.triples := by
  obtain ⟨triples, tail, pending⟩ := s
  have hrelation : ∀ {r : Relationship} {n m : Node}, addRelation triples r n m position = .ok s' →
      Singly triples s'.triples := by
    intro r n m h
    obtain ⟨added, happend, hs'⟩ := bind_eq_ok_iff.mp h
    obtain rfl := Except.ok.inj hs'
    exact .append .refl happend
  -- what is pending decides which entities can be taken
  cases pending with
  | nothing =>
      cases e with
      | node n =>
          obtain rfl := Except.ok.inj h
          exact .refl
      | relationship r =>
          simp only [take] at h
          split_ifs at h
          obtain rfl := Except.ok.inj h
          exact .refl
      | property p => cases h
      | triple t => exact .append .refl (append_of_addFragment h)
      | path p => exact absurd rfl (he p)
  | node n =>
      cases e with
      | relationship r =>
          obtain rfl := Except.ok.inj h
          exact .refl
      | node => cases h
      | property => cases h
      | triple => cases h
      | path => cases h
  | nodeRel n r =>
      cases e with
      | node m => exact hrelation h
      | triple t =>
          obtain ⟨hsingly, happend⟩ := singly_of_append_addFragment h
          exact .append hsingly happend
      | path p => exact absurd rfl (he p)
      | relationship => cases h
      | property => cases h
  | rel r =>
      cases e with
      | node m =>
          cases tail with
          | none => cases h
          | some n => exact hrelation h
      | triple t =>
          obtain ⟨hint, n, m, -, -, hsingly, happend⟩ := singly_of_join h
          exact .append hsingly happend
      | path p => exact absurd rfl (he p)
      | relationship => cases h
      | property => cases h

/-- Neighbours have a node in common after one more entity if they had before and the entity, if it
is a path, goes on from what stands before it. -/
theorem adjacent_of_take {s s' : Stitch} {e : Entity} {position : Nat}
    (h : s.take e position = .ok s') :
    Adjacent s'.triples ↔
      Adjacent s.triples ∧ ∀ p, e = .path p → GoesOn (s.base p) p.triples := by
  by_cases he : ∃ p, e = .path p
  · obtain ⟨p, rfl⟩ := he
    obtain ⟨hsingly, happend⟩ := singly_of_take_path h
    rw [(adds_of_append happend).eq_merge, adjacent_merge, hsingly.adjacent_iff]
    refine and_congr_right fun _ => ⟨fun hgoes q hq => ?_, fun hgoes => hgoes p rfl⟩
    obtain rfl := Entity.path.inj hq
    exact hgoes
  · have he : ∀ p, e ≠ .path p := fun p hp => he ⟨p, hp⟩
    rw [(singly_of_take he h).adjacent_iff]
    exact (and_iff_left fun p hp => absurd hp (he p)).symm

/-! ## Taking all entities -/

/-- Each path among the entities goes on from what stands before it. -/
def AllGoOn (s : Stitch) (entities : List Entity) (position : Nat) : Prop :=
  ∀ before p after middle, entities = before ++ .path p :: after →
    s.takeAll before position = .ok middle → GoesOn (middle.base p) p.triples

/-- The first entity goes on if it is a path, and then all others do. -/
theorem allGoOn_cons {s middle : Stitch} {e : Entity} {rest : List Entity} {position : Nat}
    (h : s.take e position = .ok middle) :
    s.AllGoOn (e :: rest) position ↔
      (∀ p, e = .path p → GoesOn (s.base p) p.triples) ∧ middle.AllGoOn rest (position + 1) := by
  constructor
  · intro hall
    refine ⟨fun p hp => ?_, fun before p after later hsplit htake => ?_⟩
    · exact hall [] p rest s (hp ▸ rfl) rfl
    · refine hall (e :: before) p after later (hsplit ▸ rfl) ?_
      exact bind_eq_ok_iff.mpr ⟨middle, h, htake⟩
  · rintro ⟨hfirst, hrest⟩ before p after later hsplit htake
    cases before with
    | nil =>
        obtain rfl := Except.ok.inj htake
        exact hfirst p (List.cons.inj hsplit).1
    | cons e' before =>
        obtain ⟨rfl, hlater⟩ := List.cons.inj hsplit
        obtain ⟨middle', h', htake⟩ := bind_eq_ok_iff.mp htake
        obtain rfl : middle = middle' := Except.ok.inj (h.symm.trans h')
        exact hrest before p after later hlater htake

/-- The same for all entities of a list. -/
theorem adjacent_of_takeAll {s s' : Stitch} {entities : List Entity} {position : Nat}
    (h : s.takeAll entities position = .ok s') :
    Adjacent s'.triples ↔ Adjacent s.triples ∧ s.AllGoOn entities position := by
  induction entities generalizing s position with
  | nil =>
      obtain rfl := Except.ok.inj h
      refine (and_iff_left fun before p after middle hsplit => ?_).symm
      simp at hsplit
  | cons e rest ih =>
      obtain ⟨middle, htake, hrest⟩ := bind_eq_ok_iff.mp h
      rw [ih hrest, adjacent_of_take htake, allGoOn_cons htake, and_assoc]

/-- A path of one triple that is taken goes on. -/
theorem allGoOn_of_singletons {s s' : Stitch} {entities : List Entity} {position : Nat}
    (h : s.takeAll entities position = .ok s')
    (hpaths : ∀ p, .path p ∈ entities → p.triples.length = 1) : s.AllGoOn entities position := by
  rintro before p after middle rfl htake
  rw [takeAll_append, htake] at h
  obtain ⟨next, hnext, -⟩ := bind_eq_ok_iff.mp (show middle.takeAll (.path p :: after) _ = _ from h)
  obtain ⟨t, ht⟩ := List.length_eq_one_iff.mp (hpaths p (by simp))
  obtain ⟨-, happend⟩ := singly_of_take_path hnext
  rw [ht] at happend ⊢
  exact goesOn_of_append happend

end Stitch

/-! ## Stitched paths -/

namespace Path

/-- Triples that follow each other in a stitched path have a node in common if and only if each
path among its arguments goes on from what it is added to, each of its triples that is not there
yet with a node of the last one that is. This is so if no argument is a path of several triples. -/
theorem ofEntities_adjacent {s s' : Numbering} {entities : List Entity} {g : Path}
    (h : Path.ofEntities s entities = .ok (g, s')) :
    (Adjacent g.triples ↔ ∀ before p after stitched, entities = before ++ .path p :: after →
      Stitch.takeAll {} before 1 = .ok stitched →
        Stitch.GoesOn (stitched.base p) p.triples) ∧
    ((∀ p, .path p ∈ entities → p.triples.length = 1) → Adjacent g.triples) := by
  obtain ⟨triples, hstitch, hpath⟩ := ofEntities_eq_ok_iff.mp h
  obtain ⟨rfl, -⟩ := Prod.mk.inj hpath
  obtain ⟨stitched, htake, hfinish⟩ := bind_eq_ok_iff.mp hstitch
  obtain ⟨-, rfl, -⟩ := Stitch.finish_eq_ok_iff.mp hfinish
  have hiff : Adjacent stitched.triples ↔ Stitch.AllGoOn {} entities 1 := by
    rw [Stitch.adjacent_of_takeAll htake]
    exact and_iff_right List.isChain_nil
  exact ⟨hiff, fun hpaths => hiff.mpr (Stitch.allGoOn_of_singletons htake hpaths)⟩

/-- `(n0:A)-[r0:q]->(n1:B)`. -/
def forkFirst : Triple where
  source := { var := "n0", label := some "A" }
  edge := { var := "r0", kind := some "q" }
  target := { var := "n1", label := some "B" }

/-- `(n2:C)-[r1:q]->(n3:D)`. -/
def forkSecond : Triple where
  source := { var := "n2", label := some "C" }
  edge := { var := "r1", kind := some "q" }
  target := { var := "n3", label := some "D" }

/-- `(n3:D)-[r2:q]->(n1:B)`, between the targets of the other two. -/
def forkThird : Triple where
  source := { var := "n3", label := some "D" }
  edge := { var := "r2", kind := some "q" }
  target := { var := "n1", label := some "B" }

/-- The relationship of a triple from the first node to the last one. -/
def joining : Relationship := { var := "r3", kind := some "join", hint := some ⟨"A", "D"⟩ }

/-- The third triple and the second one as a path. -/
def lastTriples : Path := ⟨"g0", [forkThird, forkSecond]⟩

/-- A path that is joined to a triple goes on from the triple of the relationship. -/
theorem ofEntities_adjacent_joined :
    let before : List Entity := [.triple forkFirst, .relationship joining]
    ∃ g s' stitched, Path.ofEntities .start (before ++ [.path lastTriples]) = .ok (g, s') ∧
      Adjacent g.triples ∧ Stitch.takeAll {} before 1 = .ok stitched ∧
      Stitch.GoesOn (stitched.base lastTriples) lastTriples.triples := by
  intro before
  have hstitched : Path.ofEntities .start (before ++ [.path lastTriples]) =
      .ok (⟨"g0", [forkFirst, joining.relate forkFirst.source forkThird.source,
        forkThird, forkSecond]⟩, ⟨0, 0, 0, 1⟩) := rfl
  have hadjacent : Adjacent [forkFirst,
      joining.relate forkFirst.source forkThird.source, forkThird, forkSecond] := by
    decide
  exact ⟨_, _, _, hstitched, hadjacent, rfl,
    (ofEntities_adjacent hstitched).1.mp hadjacent before _ [] _ rfl rfl⟩

/-- A path that touches the triple before it with its last triple. The triple and the first one of
the path follow each other and have no node in common; by themselves the same triples are
refused. -/
theorem ofEntities_touchingAtEnd :
    ∃ p s g s', Path.ofTriples .start [forkSecond, forkThird] = .ok (p, s) ∧
      Path.ofEntities s [.triple forkFirst, .path p] = .ok (g, s') ∧
      g.triples = [forkFirst, forkSecond, forkThird] ∧ ¬Adjacent g.triples ∧
      Path.ofTriples s' g.triples = .error (.noOverlap 2) :=
  ⟨_, _, _, _, rfl, rfl, rfl, by decide, rfl⟩

end Path

end CypherRoutes
