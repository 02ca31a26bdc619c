/-
# What a fragment has to overlap

A triple or a path that follows triples has to have a node in common with them, but not with any of
them: only the newest triple counts, which is the last one that came for the first time
(`Path.ofEntities_overlap`). So a fragment can be refused although it has a node in common with what
came before it, and even with the path right before it (`Path.ofEntities_olderTriple`).
-/
import CypherRoutes.Proofs.Stitch.Grammar

namespace CypherRoutes

/-! ## The newest triple -/

/-- No node of the entity has the variable of a node of the triple. -/
def Triple.Apart (t : Triple) (e : Entity) : Prop :=
  ∀ n ∈ t.nodes, ∀ m ∈ e.nodeCopies, n.var ≠ m.var

/-- The last triple of a list that comes for the first time: all triples behind it are copies of
it or of triples before it. -/
def Newest (supplied : List Triple) (t : Triple) : Prop :=
  ∃ early late, supplied = early ++ t :: late ∧ t.ends ∉ early.map Triple.ends ∧
    ∀ u ∈ late, u.ends ∈ (early ++ [t]).map Triple.ends

namespace Stitch

/-- Merged triples end with the newest one. -/
theorem newest_of_getLast? {supplied : List Triple} {t : Triple}
    (h : (merge [] supplied).getLast? = some t) : Newest supplied t := by
  induction supplied using List.reverseRecOn generalizing t with
  | nil => cases h
  | append_singleton supplied u ih =>
      have hends : ∀ {e}, e ∈ (merge [] supplied).map Triple.ends ↔
          e ∈ supplied.map Triple.ends := by
        intro e
        rw [mem_ends_merge, List.map_nil]
        simp
      rw [merge_append, merge_cons, merge_nil] at h
      split_ifs at h with hthere
      · -- the last triple is a copy of one before
        obtain ⟨early, late, rfl, hfirst, hlate⟩ := ih h
        refine ⟨early, late ++ [u], by simp, hfirst, fun v hv => ?_⟩
        rcases List.mem_append.mp hv with hv | hv
        · exact hlate v hv
        · obtain rfl := List.mem_singleton.mp hv
          obtain ⟨w, hw, hwv⟩ := List.mem_map.mp (hends.mp (any_sameAs_iff.mp hthere))
          rw [List.append_cons, List.mem_append] at hw
          rcases hw with hw | hw
          · exact List.mem_map.mpr ⟨w, hw, hwv⟩
          · exact hwv ▸ hlate w hw
      · obtain rfl := Option.some.inj (List.getLast?_concat.symm.trans h)
        exact ⟨supplied, [], rfl, fun hthere' => hthere (any_sameAs_iff.mpr (hends.mpr hthere')),
          by simp⟩

end Stitch

/-! ## Fragments behind triples -/

section

variable {e : Entity}

/-- A triple is apart from a triple or a path if it touches no triple of it. -/
theorem Triple.apart_iff (he : e.kind = .triple ∨ e.kind = .path) {t : Triple} :
    t.Apart e ↔ e.triples.any t.touches = false := by
  have hnode : ∀ n, e ≠ .node n := by
    rintro n rfl
    rcases he with he | he <;> cases he
  rw [Apart, Entity.nodeCopies_eq_flatMap hnode, List.any_eq_false]
  simp only [touches_iff, List.mem_flatMap]
  constructor
  · rintro h u hu ⟨n, hn, m, hm, hvar⟩
    exact h n hn m ⟨u, hu, hm⟩ hvar
  · rintro h n hn m ⟨u, hu, hm⟩ hvar
    exact h u hu ⟨n, hn, m, hm, hvar⟩

namespace Stitch

/-- A triple or a path behind triples is refused if the last of them is apart from it, and merged
with them if not. -/
theorem take_eq {s : Stitch} (hpending : s.pending = .nothing)
    (he : e.kind = .triple ∨ e.kind = .path) {last : Triple}
    (hlast : s.triples.getLast? = some last) (position : Nat) :
    (last.Apart e → s.take e position = .error (.noOverlap position)) ∧
      (¬last.Apart e → s.take e position =
        .ok ⟨merge s.triples e.triples, fragmentTail e.triples, .nothing⟩) := by
  obtain ⟨triples, tail, pending⟩ := s
  obtain rfl : pending = .nothing := hpending
  have htake : take ⟨triples, tail, .nothing⟩ e position =
      addFragment triples e.triples position := by
    cases e with
    | triple t => rfl
    | path g => rfl
    | node => rcases he with he | he <;> cases he
    | relationship => rcases he with he | he <;> cases he
    | property => rcases he with he | he <;> cases he
  rw [Triple.apart_iff he, htake, addFragment, append_eq hlast, Bool.not_eq_false]
  constructor
  · intro hapart
    rw [hapart]
    rfl
  · intro htouch
    rw [htouch]
    rfl

/-- Entities that fail to overlap what comes before them have the position of one of them. -/
theorem le_of_takeAll_eq_noOverlap {s : Stitch} {entities : List Entity} {position q : Nat}
    (hpaths : ∀ g, .path g ∈ entities → g.triples ≠ [])
    (h : s.takeAll entities position = .error (.noOverlap q)) : position ≤ q := by
  obtain ⟨before, next, after, stitched, rfl, -, hnext⟩ := takeAll_eq_error h
  have htaking := taking_take stitched (e := next) (fun g hg => hpaths g (by simp [hg]))
    (position + before.length)
  rw [hnext] at htaking
  cases htaking with
  | noOverlap => exact Nat.le_add_right position before.length

/-- It is while entities are taken that one is found not to overlap. -/
theorem takeAll_eq_noOverlap {entities : List Entity} {q : Nat}
    (h : stitch entities = .error (.noOverlap q)) :
    takeAll {} entities 1 = .error (.noOverlap q) := by
  rcases bind_eq_error_iff.mp h with htake | ⟨s, -, hfinish⟩
  · exact htake
  · rcases s.finish_cases with ⟨-, hdone⟩ | ⟨-, hdone⟩
    · cases hdone.symm.trans hfinish
    · cases hdone.symm.trans hfinish

end Stitch

end

/-! ## What a fragment has to overlap -/

namespace Path

/-- What makes a triple or a path overlap the entities before it, which are stitched. It is refused
if the newest of the triples that they supply is apart from it, and only then; if not, its triples
are merged with theirs. -/
theorem ofEntities_overlap {s : Numbering} {before after : List Entity} {e : Entity}
    {built : List Triple} (hbuilt : stitch before = .ok built)
    (he : e.kind = .triple ∨ e.kind = .path)
    (hpaths : ∀ g, .path g ∈ after → g.triples ≠ []) :
    ∃ supplied newest, Supplies [] before supplied ∧ built = Stitch.merge [] supplied ∧
      Newest supplied newest ∧ newest ∈ built ∧
      (Path.ofEntities s (before ++ e :: after) = .error (.noOverlap (before.length + 1)) ↔
        newest.Apart e) ∧
      (¬newest.Apart e →
        Path.ofEntities s (before ++ [e]) = .ok (s.path (Stitch.merge built e.triples))) := by
  obtain ⟨hne, supplied, hsupplies, rfl⟩ := supplies_of_stitch hbuilt
  obtain ⟨stitched, htake, hfinish⟩ := bind_eq_ok_iff.mp hbuilt
  obtain ⟨hpending, htriples, -⟩ := Stitch.finish_eq_ok_iff.mp hfinish
  obtain ⟨newest, hnewest⟩ := Option.ne_none_iff_exists'.mp
    (mt List.getLast?_eq_none_iff.mp hne)
  have hall : ∀ rest, Stitch.takeAll {} (before ++ e :: rest) 1 =
      stitched.take e (before.length + 1) >>= fun s => s.takeAll rest (before.length + 2) := by
    intro rest
    rw [Stitch.takeAll_append, htake, Nat.add_comm 1]
    rfl
  obtain ⟨hapart, htouch⟩ := Stitch.take_eq hpending he (htriples ▸ hnewest) (before.length + 1)
  refine ⟨supplied, newest, hsupplies, rfl, Stitch.newest_of_getLast? hnewest,
    List.mem_of_getLast? hnewest, ⟨fun hrefused => ?_, fun h => ?_⟩, fun h => ?_⟩
  · by_contra h
    rcases bind_eq_error_iff.mp hrefused with hstitch | ⟨triples, -, hpath⟩
    · have hlater := Stitch.takeAll_eq_noOverlap hstitch
      rw [hall, htouch h] at hlater
      -- what fails behind the entity fails at a later position
      have hposition := Stitch.le_of_takeAll_eq_noOverlap hpaths hlater
      omega
    · cases hpath
  · rw [Path.ofEntities, stitch, hall, hapart h]
    rfl
  · have hfragment : e.triples ≠ [] := by
      intro hnil
      exact h ((Triple.apart_iff he).mpr (by rw [hnil, List.any_nil]))
    refine ofEntities_eq_ok_iff.mpr ⟨_, ?_, rfl⟩
    rw [stitch, hall, htouch h, htriples]
    exact bind_eq_ok_iff.mpr ⟨_, rfl,
      Stitch.finish_eq_ok_iff.mpr ⟨rfl, rfl, Stitch.merge_ne_nil hfragment _⟩⟩

/-- Three triples in a row, `(n0:A)-[r0:r]->(n1:B)-[r1:s]->(n2:C)-[r2:q]->(n3:D)`. -/
def rowTriple : Fin 3 → Triple
  | 0 => ⟨{ var := "n0", label := some "A" }, { var := "r0", kind := some "r" },
      { var := "n1", label := some "B" }⟩
  | 1 => ⟨{ var := "n1", label := some "B" }, { var := "r1", kind := some "s" },
      { var := "n2", label := some "C" }⟩
  | 2 => ⟨{ var := "n2", label := some "C" }, { var := "r2", kind := some "q" },
      { var := "n3", label := some "D" }⟩

/-- The first two triples, and the first one again. -/
def repeated : List Entity :=
  [.triple (rowTriple 0), .triple (rowTriple 1), .triple (rowTriple 0)]

/-- The repeated triple is not the newest: the third one follows. -/
theorem ofEntities_overlap_repeated :
    stitch repeated = .ok [rowTriple 0, rowTriple 1] ∧
      ∃ supplied newest, Supplies [] repeated supplied ∧ Newest supplied newest ∧
        ¬newest.Apart (.triple (rowTriple 2)) := by
  have hbuilt : stitch repeated = .ok [rowTriple 0, rowTriple 1] := rfl
  have hthird : ∃ g s', Path.ofEntities .start (repeated ++ [.triple (rowTriple 2)]) =
      .ok (g, s') := ⟨_, _, rfl⟩
  obtain ⟨supplied, newest, hsupplies, -, hnewest, -, hrefused, -⟩ :=
    @ofEntities_overlap .start repeated [] (.triple (rowTriple 2)) _ hbuilt (.inl rfl) (by simp)
  refine ⟨hbuilt, supplied, newest, hsupplies, hnewest, fun hapart => ?_⟩
  obtain ⟨g, s', hthird⟩ := hthird
  cases hthird.symm.trans (hrefused.mpr hapart)

/-- A path of the second triple and the first one. The third one has a node in common with it, but
not with its last triple, and is refused. -/
theorem ofEntities_olderTriple :
    ∃ g s', Path.ofTriples .start [rowTriple 1, rowTriple 0] = .ok (g, s') ∧
      stitch [.path g] = .ok g.triples ∧ rowTriple 1 ∈ g.triples ∧
      ¬(rowTriple 1).Apart (.triple (rowTriple 2)) ∧
      Path.ofEntities s' [.path g, .triple (rowTriple 2)] = .error (.noOverlap 2) :=
  ⟨_, _, rfl, rfl, List.mem_cons_self, fun h => h _ (Triple.target_mem_nodes _) _
    (Triple.source_mem_nodes _) rfl, rfl⟩

end Path

end CypherRoutes
