/-
# Which lists of entities form a path

A path is a sequence of items: a triple, a path, a relationship between a node and what comes next,
or a relationship that goes on from what came before, which the first item cannot do. Stitching
reads the kinds of its entities one after the other; what it waits for is the rest of an item. So
apart from entities that cannot be connected it accepts the lists whose kinds form a path, finds
those incomplete whose kinds begin one, and rejects any other at the first entity behind which no
path can go on (`Path.ofEntities_grammar`).
-/
import CypherRoutes.Cypher.Pattern
import CypherRoutes.Proofs.Stitch.Contents

namespace CypherRoutes

/-! ## The grammar of paths -/

/-- The kinds of entities. -/
inductive EntityKind where
  | node
  | relationship
  | property
  | triple
  | path
deriving DecidableEq

/-- The kind of an entity. -/
def Entity.kind : Entity → EntityKind
  | node _ => .node
  | relationship _ => .relationship
  | property _ => .property
  | triple _ => .triple
  | path _ => .path

/-- The kinds of entities that make an item of a path. -/
def pathItems : List (List EntityKind) :=
  [[.triple], [.path],
    [.node, .relationship, .node], [.node, .relationship, .triple], [.node, .relationship, .path],
    [.relationship, .node], [.relationship, .triple], [.relationship, .path]]

/-- Kinds of entities that form a path: one or more items, of which the first does not begin with a
relationship. -/
def FormPath (kinds : List EntityKind) : Prop :=
  ∃ items : List (List EntityKind), items ≠ [] ∧ (∀ item ∈ items, item ∈ pathItems) ∧
    kinds = items.flatten ∧ kinds.head? ≠ some .relationship

/-- Kinds of entities that a path can begin with. -/
def BeginPath (kinds : List EntityKind) : Prop := ∃ more, FormPath (kinds ++ more)

/-- The beginning of what begins a path begins one too. -/
theorem BeginPath.of_append {kinds more : List EntityKind} (h : BeginPath (kinds ++ more)) :
    BeginPath kinds := by
  obtain ⟨rest, hrest⟩ := h
  exact ⟨more ++ rest, by rwa [List.append_assoc] at hrest⟩

/-- A path begins with itself. -/
theorem FormPath.beginPath {kinds : List EntityKind} (h : FormPath kinds) : BeginPath kinds :=
  ⟨[], by rwa [List.append_nil]⟩

/-! ## Reading kinds -/

/-- What is known of the kinds that were read: whether an item is complete, and the beginning of the
next item. -/
structure KindReading where
  begun : Bool
  waiting : List EntityKind
deriving DecidableEq

namespace KindReading

/-- The reading that has seen nothing yet. -/
def start : KindReading := ⟨false, []⟩

/-- The reading after one more kind: the next item is complete, or it has one more entity. -/
def next? (r : KindReading) (kind : EntityKind) : Option KindReading :=
  if r = start ∧ kind = .relationship then none
  else if r.waiting ++ [kind] ∈ pathItems then some ⟨true, []⟩
  else if pathItems.any (r.waiting ++ [kind]).isPrefixOf then some ⟨r.begun, r.waiting ++ [kind]⟩
  else none

/-- A kind that completes an item; it is not a relationship. -/
theorem next?_of_mem {r : KindReading} {kind : EntityKind} (h : r.waiting ++ [kind] ∈ pathItems) :
    r.next? kind = some ⟨true, []⟩ := by
  have hlast : ∀ item ∈ pathItems, item.getLast? ≠ some .relationship := by decide
  have hkind : kind ≠ .relationship := by simpa using hlast _ h
  rw [next?, if_neg fun hstart => hkind hstart.2, if_pos h]

/-- A kind with which no item goes on. -/
theorem next?_eq_none {r : KindReading} {kind : EntityKind}
    (h : pathItems.any (r.waiting ++ [kind]).isPrefixOf = false) : r.next? kind = none := by
  have hnot : r.waiting ++ [kind] ∉ pathItems := by
    intro hmem
    have hprefix : (r.waiting ++ [kind]).isPrefixOf (r.waiting ++ [kind]) = true :=
      List.isPrefixOf_iff_prefix.mpr (List.prefix_refl _)
    exact absurd (List.any_eq_true.mpr ⟨_, hmem, hprefix⟩) (Bool.eq_false_iff.mp h)
  rw [next?, if_neg hnot, h]
  simp

/-- An item is read to its end. -/
theorem foldlM_item : ∀ item ∈ pathItems, ∀ begun,
    begun = true ∨ item.head? ≠ some .relationship →
      item.foldlM next? ⟨begun, []⟩ = some ⟨true, []⟩ := by
  decide

/-- Items behind the first are read to their end. -/
theorem foldlM_items {items : List (List EntityKind)} (h : ∀ item ∈ items, item ∈ pathItems) :
    items.flatten.foldlM next? ⟨true, []⟩ = some ⟨true, []⟩ := by
  induction items with
  | nil => rfl
  | cons item rest ih =>
      rw [List.flatten_cons, List.foldlM_append,
        foldlM_item item (h item List.mem_cons_self) true (.inl rfl)]
      exact ih fun item hitem => h item (List.mem_cons_of_mem _ hitem)

/-- The kinds of a path are read to the end of an item. -/
theorem foldlM_path {kinds : List EntityKind} (h : FormPath kinds) :
    kinds.foldlM next? start = some ⟨true, []⟩ := by
  obtain ⟨items, hne, hitems, rfl, hhead⟩ := h
  obtain ⟨first, rest, rfl⟩ := List.exists_cons_of_ne_nil hne
  have hfirst : first ∈ pathItems := hitems first List.mem_cons_self
  have hfirst_ne : first ≠ [] := by
    rintro rfl
    exact absurd hfirst (by decide)
  rw [List.flatten_cons, List.head?_append_of_ne_nil _ hfirst_ne] at hhead
  rw [List.flatten_cons, List.foldlM_append, start, foldlM_item first hfirst false (.inr hhead)]
  exact foldlM_items fun item hitem => hitems item (List.mem_cons_of_mem _ hitem)

/-- What a reading says of the kinds that were read: they are items and what waits, and what waits
begins an item. -/
structure Of (kinds : List EntityKind) (r : KindReading) : Prop where
  items : ∃ items : List (List EntityKind), (∀ item ∈ items, item ∈ pathItems) ∧
    kinds = items.flatten ++ r.waiting ∧ (r.begun = true ↔ items ≠ [])
  head : kinds.head? ≠ some .relationship
  rest : ∃ rest, r.waiting ++ rest ∈ pathItems ∧ (kinds ++ rest).head? ≠ some .relationship

theorem ne_nil_of_mem_pathItems {item : List EntityKind} (h : item ∈ pathItems) : item ≠ [] := by
  rintro rfl
  exact absurd h (by decide)

/-- What a kind that is read makes of a reading. -/
theorem next?_cases {r r' : KindReading} {kind : EntityKind} (h : r.next? kind = some r') :
    ¬(r = start ∧ kind = .relationship) ∧
      (r.waiting ++ [kind] ∈ pathItems ∧ r' = ⟨true, []⟩ ∨
        (∃ rest, r.waiting ++ [kind] ++ rest ∈ pathItems) ∧
          r' = ⟨r.begun, r.waiting ++ [kind]⟩) := by
  rw [next?] at h
  split_ifs at h with hfirst hitem hprefix
  · exact ⟨hfirst, .inl ⟨hitem, (Option.some.inj h).symm⟩⟩
  · obtain ⟨item, hmem, hprefix⟩ := List.any_eq_true.mp hprefix
    obtain ⟨rest, rfl⟩ := List.isPrefixOf_iff_prefix.mp hprefix
    exact ⟨hfirst, .inr ⟨⟨rest, hmem⟩, (Option.some.inj h).symm⟩⟩

/-- If no kind was read, nothing is known. -/
theorem Of.eq_start {r : KindReading} (h : Of [] r) : r = start := by
  obtain ⟨⟨items, hitems, hkinds, hbegun⟩, -, -⟩ := h
  obtain ⟨hflat, hwaiting⟩ := List.append_eq_nil_iff.mp hkinds.symm
  have hnone : items = [] := List.eq_nil_iff_forall_not_mem.mpr fun item hmem =>
    ne_nil_of_mem_pathItems (hitems item hmem) (List.flatten_eq_nil_iff.mp hflat item hmem)
  have hbegun : r.begun = false := Bool.eq_false_iff.mpr fun h => hbegun.mp h hnone
  rw [start, ← hbegun, ← hwaiting]

/-- One more kind. -/
theorem Of.next {kinds : List EntityKind} {r r' : KindReading} {kind : EntityKind}
    (h : Of kinds r) (hnext : r.next? kind = some r') : Of (kinds ++ [kind]) r' := by
  obtain ⟨hfirst, hcases⟩ := next?_cases hnext
  have hhead : (kinds ++ [kind]).head? ≠ some .relationship := by
    by_cases hnil : kinds = []
    · subst hnil
      exact fun hkind => hfirst ⟨h.eq_start, Option.some.inj hkind⟩
    · rw [List.head?_append_of_ne_nil _ hnil]
      exact h.head
  have hrest : ∀ rest, (kinds ++ [kind] ++ rest).head? ≠ some .relationship := by
    intro rest
    rwa [List.head?_append_of_ne_nil _ (by simp)]
  obtain ⟨⟨items, hitems, hkinds, hbegun⟩, -, -⟩ := h
  have hsplit : kinds ++ [kind] = items.flatten ++ (r.waiting ++ [kind]) := by
    rw [hkinds, List.append_assoc]
  rcases hcases with ⟨hitem, rfl⟩ | ⟨⟨rest, hitem⟩, rfl⟩
  · refine ⟨⟨items ++ [r.waiting ++ [kind]], ?_, ?_, by simp⟩, hhead, [.triple], by decide,
      hrest [.triple]⟩
    · intro item hmem
      rcases List.mem_append.mp hmem with hmem | hmem
      · exact hitems item hmem
      · exact List.mem_singleton.mp hmem ▸ hitem
    · simp [hsplit]
  · exact ⟨⟨items, hitems, hsplit, hbegun⟩, hhead, rest, hitem, hrest rest⟩

/-- The kinds that a reading has seen. -/
theorem of_foldlM {kinds : List EntityKind} {r : KindReading}
    (h : kinds.foldlM next? start = some r) : Of kinds r := by
  induction kinds using List.reverseRecOn generalizing r with
  | nil =>
      obtain rfl := Option.some.inj h
      exact ⟨⟨[], by simp, rfl, by simp [start]⟩, by simp, [.triple], by decide, by decide⟩
  | append_singleton kinds kind ih =>
      rw [List.foldlM_append] at h
      obtain ⟨middle, hmiddle, hnext⟩ := Option.bind_eq_some_iff.mp h
      rw [List.foldlM_cons] at hnext
      obtain ⟨last, hlast, hend⟩ := Option.bind_eq_some_iff.mp hnext
      obtain rfl := Option.some.inj hend
      exact (ih hmiddle).next hlast

/-- The kinds of a path are those that are read to the end of an item. -/
theorem formPath_iff {kinds : List EntityKind} :
    FormPath kinds ↔ kinds.foldlM next? start = some ⟨true, []⟩ := by
  refine ⟨foldlM_path, fun h => ?_⟩
  obtain ⟨⟨items, hitems, hkinds, hbegun⟩, hhead, -⟩ := of_foldlM h
  exact ⟨items, hbegun.mp rfl, hitems, by rw [hkinds, List.append_nil], hhead⟩

/-- The kinds that begin a path are those that can be read. -/
theorem beginPath_iff {kinds : List EntityKind} :
    BeginPath kinds ↔ ∃ r, kinds.foldlM next? start = some r := by
  constructor
  · rintro ⟨more, hmore⟩
    have hread := foldlM_path hmore
    rw [List.foldlM_append] at hread
    obtain ⟨r, hr, -⟩ := Option.bind_eq_some_iff.mp hread
    exact ⟨r, hr⟩
  · rintro ⟨r, hr⟩
    obtain ⟨⟨items, hitems, hkinds, -⟩, -, rest, hrest, hhead⟩ := of_foldlM hr
    refine ⟨rest, items ++ [r.waiting ++ rest], by simp, ?_, by simp [hkinds], hhead⟩
    intro item hmem
    rcases List.mem_append.mp hmem with hmem | hmem
    · exact hitems item hmem
    · exact List.mem_singleton.mp hmem ▸ hrest

end KindReading

/-! ## Taking entities -/

/-- Failures of connecting: the entities are in their places, but what they lead to or share cannot
be found. -/
def PathError.isConnection : PathError → Bool
  | noOverlap _ => true
  | ambiguousEnds _ => true
  | joinEndpointsNotFound _ => true
  | ambiguousFromNode _ => true
  | ambiguousToNode _ => true
  | invalidArgument _ _ => false
  | incompletePath => false

/-- The kinds of the entities that wait. -/
def Pending.kinds : Pending → List EntityKind
  | nothing => []
  | node _ => [.node]
  | nodeRel _ _ => [.node, .relationship]
  | rel _ => [.relationship]

namespace Stitch

/-- What a path in the making has read. -/
def reading (s : Stitch) : KindReading := ⟨!s.triples.isEmpty, s.pending.kinds⟩

/-- A path in the making with a triple and nothing pending has read an item to its end. -/
theorem reading_of_ne_nil {triples : List Triple} (h : triples ≠ []) (tail : Option Node) :
    reading ⟨triples, tail, .nothing⟩ = ⟨true, []⟩ := by
  rw [reading, Bool.eq_false_iff.mpr fun hnil => h (List.isEmpty_iff.mp hnil)]
  rfl

/-- What comes of triples that are added at a position: an item is complete, or they are
apart from the triple before. -/
inductive Adding (position : Nat) : Except PathError Stitch → Prop where
  | added {s : Stitch} : s.reading = ⟨true, []⟩ → Adding position (.ok s)
  | apart : Adding position (.error (.noOverlap position))

/-- What comes of triples that are appended, and what is done with them then. -/
theorem adding_append_bind {triples fragment : List Triple} {position : Nat}
    {f : List Triple → Except PathError Stitch} (h : Adding position (f (merge triples fragment))) :
    Adding position (append triples fragment position >>= f) := by
  cases hlast : triples.getLast? with
  | none =>
      rw [append, hlast]
      exact h
  | some last =>
      rw [append_eq hlast]
      split_ifs
      · exact h
      · exact .apart

/-- What comes of a fragment. -/
theorem adding_addFragment {fragment : List Triple} (h : fragment ≠ []) (triples : List Triple)
    (position : Nat) : Adding position (addFragment triples fragment position) :=
  adding_append_bind (.added (reading_of_ne_nil (merge_ne_nil h triples) _))

/-- What comes of a relationship between two nodes. -/
theorem adding_addRelation (triples : List Triple) (r : Relationship) (n m : Node)
    (position : Nat) : Adding position (addRelation triples r n m position) :=
  adding_append_bind (.added (reading_of_ne_nil (merge_ne_nil (List.cons_ne_nil _ _) triples) _))

/-- What comes of one more entity: its kind is read, or it is out of place, or it cannot be
connected. A relationship whose ends cannot be found comes before the entity. -/
inductive Taking (s : Stitch) (e : Entity) (position : Nat) : Except PathError Stitch → Prop where
  | read {s' : Stitch} : s.reading.next? e.kind = some s'.reading → Taking s e position (.ok s')
  | misplaced : s.reading.next? e.kind = none →
      Taking s e position (.error (.invalidArgument e position))
  | noOverlap : Taking s e position (.error (.noOverlap position))
  | ambiguousFromNode : Taking s e position (.error (.ambiguousFromNode position))
  | ambiguousToNode : Taking s e position (.error (.ambiguousToNode position))
  | ambiguousEnds {r : Relationship} : s.pending = .rel r →
      Taking s e position (.error (.ambiguousEnds (position - 1)))
  | joinEndpointsNotFound {r : Relationship} : s.pending = .rel r →
      Taking s e position (.error (.joinEndpointsNotFound (position - 1)))

/-- Triples that are added where the kind of an entity completes an item. -/
theorem Adding.taking {s : Stitch} {e : Entity} {position : Nat} {x : Except PathError Stitch}
    (h : Adding position x) (hread : s.reading.next? e.kind = some ⟨true, []⟩) :
    Taking s e position x := by
  cases h with
  | added hs => exact .read (hs ▸ hread)
  | apart => exact .noOverlap

/-- What comes of a fragment that a relationship joins. -/
theorem taking_join {s : Stitch} {r : Relationship} (hpending : s.pending = .rel r) (e : Entity)
    (hitem : [.relationship, e.kind] ∈ pathItems) {fragment : List Triple}
    (hfragment : fragment ≠ []) (position : Nat) :
    Taking s e position (join s.triples r fragment position) := by
  have hread : s.reading.next? e.kind = some ⟨true, []⟩ := by
    refine KindReading.next?_of_mem ?_
    rwa [reading, hpending]
  rw [join]
  cases r.hint with
  | none => exact .ambiguousEnds hpending
  | some hint =>
      cases hends : joinEnds? hint s.triples fragment with
      | none =>
          simp only [hends]
          exact .joinEndpointsNotFound hpending
      | some ends =>
          simp only [hends]
          exact (adding_append_bind (adding_addFragment hfragment _ position)).taking hread

/-- What comes of one more entity is one of these. -/
theorem taking_take (s : Stitch) {e : Entity} (hpath : ∀ g, e = .path g → g.triples ≠ [])
    (position : Nat) : Taking s e position (s.take e position) := by
  obtain ⟨triples, tail, pending⟩ := s
  -- what is pending decides which kinds can be read
  cases pending with
  | nothing =>
      cases e with
      | node n => exact .read (by cases triples <;> rfl)
      | relationship r =>
          cases triples with
          | nil => exact .misplaced rfl
          | cons t rest => exact .read rfl
      | property p => exact .misplaced (KindReading.next?_eq_none rfl)
      | triple t =>
          exact (adding_addFragment (List.cons_ne_nil t []) triples position).taking
            (KindReading.next?_of_mem (show [.triple] ∈ pathItems by decide))
      | path g =>
          exact (adding_addFragment (hpath g rfl) triples position).taking
            (KindReading.next?_of_mem (show [.path] ∈ pathItems by decide))
  | node n =>
      cases e with
      | relationship r => exact .read (by cases triples <;> rfl)
      | node => exact .misplaced (KindReading.next?_eq_none rfl)
      | property => exact .misplaced (KindReading.next?_eq_none rfl)
      | triple => exact .misplaced (KindReading.next?_eq_none rfl)
      | path => exact .misplaced (KindReading.next?_eq_none rfl)
  | nodeRel n r =>
      cases e with
      | node m =>
          exact (adding_addRelation triples r n m position).taking
            (KindReading.next?_of_mem (show [.node, .relationship, .node] ∈ pathItems by decide))
      | triple t =>
          exact (adding_append_bind (adding_addFragment (List.cons_ne_nil t []) _ position)).taking
            (KindReading.next?_of_mem (show [.node, .relationship, .triple] ∈ pathItems by decide))
      | path g =>
          have hitem : [.node, .relationship, .path] ∈ pathItems := by decide
          simp only [take]
          split
          · next only honly =>
              have hadding := adding_addFragment (List.cons_ne_nil only [])
              exact (adding_append_bind (hadding _ position)).taking
                (KindReading.next?_of_mem hitem)
          · exact .ambiguousToNode
      | relationship => exact .misplaced (KindReading.next?_eq_none rfl)
      | property => exact .misplaced (KindReading.next?_eq_none rfl)
  | rel r =>
      cases e with
      | node m =>
          cases tail with
          | none => exact .ambiguousFromNode
          | some n =>
              exact (adding_addRelation triples r n m position).taking
                (KindReading.next?_of_mem (show [.relationship, .node] ∈ pathItems by decide))
      | triple t =>
          exact taking_join rfl (.triple t) (show [.relationship, .triple] ∈ pathItems by decide)
            (List.cons_ne_nil t []) position
      | path g =>
          exact taking_join rfl (.path g) (show [.relationship, .path] ∈ pathItems by decide)
            (hpath g rfl) position
      | relationship => exact .misplaced (KindReading.next?_eq_none rfl)
      | property => exact .misplaced (KindReading.next?_eq_none rfl)

/-! ## Taking all entities -/

section

variable {s s' : Stitch} {entities : List Entity} {position : Nat}

/-- The kind of an entity that is taken is read. -/
theorem reading_of_take {e : Entity} (hpath : ∀ g, e = .path g → g.triples ≠ [])
    (h : s.take e position = .ok s') : s.reading.next? e.kind = some s'.reading := by
  have htaking := taking_take s hpath position
  rw [h] at htaking
  cases htaking with
  | read hread => exact hread

/-- The kinds of entities that are taken are read one after the other. -/
theorem reading_of_takeAll (hpaths : ∀ g, .path g ∈ entities → g.triples ≠ [])
    (h : s.takeAll entities position = .ok s') :
    (entities.map Entity.kind).foldlM KindReading.next? s.reading = some s'.reading := by
  induction entities generalizing s position with
  | nil =>
      obtain rfl := Except.ok.inj h
      rfl
  | cons e rest ih =>
      obtain ⟨middle, htake, hrest⟩ := bind_eq_ok_iff.mp h
      have hread := reading_of_take (fun g hg => hpaths g (hg ▸ List.mem_cons_self)) htake
      rw [List.map_cons, List.foldlM_cons, hread]
      exact ih (fun g hg => hpaths g (List.mem_cons_of_mem _ hg)) hrest

/-- If not all entities are taken, then all before one that is not. -/
theorem takeAll_eq_error {err : PathError} (h : s.takeAll entities position = .error err) :
    ∃ before next after stitched, entities = before ++ next :: after ∧
      s.takeAll before position = .ok stitched ∧
      stitched.take next (position + before.length) = .error err := by
  induction entities generalizing s position with
  | nil => cases h
  | cons e rest ih =>
      rcases bind_eq_error_iff.mp h with hnow | ⟨middle, htake, hlater⟩
      · exact ⟨[], e, rest, s, rfl, rfl, hnow⟩
      · obtain ⟨before, next, after, stitched, rfl, hbefore, hnext⟩ := ih hlater
        refine ⟨e :: before, next, after, stitched, rfl,
          bind_eq_ok_iff.mpr ⟨middle, htake, hbefore⟩, ?_⟩
        rwa [List.length_cons, Nat.add_comm before.length 1, ← Nat.add_assoc]

/-- A relationship that waits without a node before it is the last entity that was taken. -/
theorem eq_concat_of_pending_rel (hs : s.pending = .nothing)
    (h : s.takeAll entities position = .ok s') {r : Relationship} (hpending : s'.pending = .rel r) :
    ∃ front, entities = front ++ [.relationship r] := by
  rcases List.eq_nil_or_concat' entities with rfl | ⟨front, last, rfl⟩
  · obtain rfl := Except.ok.inj h
    rw [hs] at hpending
    cases hpending
  · rw [takeAll_append] at h
    obtain ⟨middle, -, hlast⟩ := bind_eq_ok_iff.mp h
    obtain ⟨_, htaken, hend⟩ := takeAll_cons_eq_ok hlast
    obtain rfl := Except.ok.inj hend
    cases htaken with
    | rel =>
        cases hpending
        exact ⟨front, rfl⟩
    | node => cases hpending
    | nodeRel => cases hpending
    | fragment => cases hpending
    | tied => cases hpending

/-- Only a path in the making that has read an item to its end is finished. -/
theorem finish_cases (s : Stitch) :
    s.reading = ⟨true, []⟩ ∧ s.finish = .ok s.triples ∨
      s.reading ≠ ⟨true, []⟩ ∧ s.finish = .error .incompletePath := by
  obtain ⟨triples, tail, pending⟩ := s
  cases pending with
  | nothing =>
      cases triples with
      | nil => exact .inr ⟨(nomatch congrArg KindReading.begun ·), rfl⟩
      | cons => exact .inl ⟨rfl, rfl⟩
  | node => exact .inr ⟨(nomatch congrArg KindReading.waiting ·), rfl⟩
  | nodeRel => exact .inr ⟨(nomatch congrArg KindReading.waiting ·), rfl⟩
  | rel => exact .inr ⟨(nomatch congrArg KindReading.waiting ·), rfl⟩

end

end Stitch

/-! ## Verdicts -/

/-- The message about an entity that is not valid displays it. -/
theorem PathError.message_invalidArgument (e : Entity) (position : Nat) :
    (invalidArgument e position).message =
      "Entity '" ++ e.display ++ "' is not valid at arg position " ++ toString position ++ "." := by
  delta message
  with_reducible rfl

section

variable {entities before after : List Entity} {e next : Entity} {position : Nat}

/-- The entity at a position is the first one behind which no path can go on. -/
structure Misplaced (entities : List Entity) (e : Entity) (position : Nat) : Prop where
  pos : 1 ≤ position
  getElem?_eq : entities[position - 1]? = some e
  not_beginPath : ¬BeginPath ((entities.map Entity.kind).take position)
  beginPath : ∀ q < position, BeginPath ((entities.map Entity.kind).take q)

/-- An entity behind the beginning of a path that does not go on with it. -/
theorem misplaced_of_append (hbegin : BeginPath (before.map Entity.kind))
    (hnot : ¬BeginPath (before.map Entity.kind ++ [next.kind])) :
    Misplaced (before ++ next :: after) next (before.length + 1) where
  pos := Nat.le_add_left 1 _
  getElem?_eq := by simp
  not_beginPath := by
    have htake : ((before ++ next :: after).map Entity.kind).take (before.length + 1) =
        before.map Entity.kind ++ [next.kind] := by
      rw [List.map_append, List.map_cons, List.take_append, List.take_of_length_le (by simp)]
      simp
    rwa [htake]
  beginPath q hq := by
    have htake : ((before ++ next :: after).map Entity.kind).take q =
        (before.map Entity.kind).take q := by
      rw [List.map_append, List.take_append_of_le_length]
      rw [List.length_map]
      omega
    rw [← List.take_append_drop q (before.map Entity.kind)] at hbegin
    exact htake ▸ hbegin.of_append

/-- Entities with a misplaced one do not begin a path. -/
theorem Misplaced.not_beginPath_kinds (h : Misplaced entities e position) :
    ¬BeginPath (entities.map Entity.kind) := by
  intro hbegin
  rw [← List.take_append_drop position (entities.map Entity.kind)] at hbegin
  exact h.not_beginPath hbegin.of_append

/-- The position of a failure to connect the entity behind others: that of the entity, or of the
relationship before it. -/
inductive FailsBehind (before : List Entity) : PathError → Prop where
  | noOverlap : FailsBehind before (.noOverlap (before.length + 1))
  | ambiguousFromNode : FailsBehind before (.ambiguousFromNode (before.length + 1))
  | ambiguousToNode : FailsBehind before (.ambiguousToNode (before.length + 1))
  | ambiguousEnds {front : List Entity} {r : Relationship} :
      before = front ++ [.relationship r] → FailsBehind before (.ambiguousEnds before.length)
  | joinEndpointsNotFound {front : List Entity} {r : Relationship} :
      before = front ++ [.relationship r] →
      FailsBehind before (.joinEndpointsNotFound before.length)

/-- An entity that cannot be connected with those before it, which are stitched. -/
structure Disconnected (entities : List Entity) (err : PathError) : Prop where
  isConnection : err.isConnection = true
  fails : ∃ before next after stitched, entities = before ++ next :: after ∧
    Stitch.takeAll {} before 1 = .ok stitched ∧
    stitched.take next (before.length + 1) = .error err ∧ FailsBehind before err

/-- What comes of stitching entities. -/
inductive Verdict (entities : List Entity) {α : Type} : Except PathError α → Prop where
  | path {built : α} : FormPath (entities.map Entity.kind) → Verdict entities (.ok built)
  | incomplete : ¬FormPath (entities.map Entity.kind) → BeginPath (entities.map Entity.kind) →
      Verdict entities (.error .incompletePath)
  | misplaced {e : Entity} {position : Nat} : Misplaced entities e position →
      Verdict entities (.error (.invalidArgument e position))
  | disconnected {err : PathError} : Disconnected entities err → Verdict entities (.error err)

/-- A verdict with another result. -/
theorem Verdict.map {α β : Type} {x : Except PathError α} (h : Verdict entities x) (f : α → β) :
    Verdict entities (x.map f) := by
  cases h with
  | path hpath => exact .path hpath
  | incomplete hnot hbegin => exact .incomplete hnot hbegin
  | misplaced hmisplaced => exact .misplaced hmisplaced
  | disconnected hdisconnected => exact .disconnected hdisconnected

/-- An entity that is not taken behind others that are. -/
theorem verdict_of_take {α : Type} {stitched : Stitch} {err : PathError}
    (hpaths : ∀ g, .path g ∈ before ++ next :: after → g.triples ≠ [])
    (hbefore : Stitch.takeAll {} before 1 = .ok stitched)
    (hnext : stitched.take next (before.length + 1) = .error err) :
    Verdict (before ++ next :: after) (.error err : Except PathError α) := by
  have hread := Stitch.reading_of_takeAll
    (fun g hg => hpaths g (List.mem_append_left _ hg)) hbefore
  have hpath : ∀ g, next = .path g → g.triples ≠ [] := fun g hg => hpaths g (by simp [hg])
  have hrel : ∀ r, stitched.pending = .rel r → ∃ front, before = front ++ [.relationship r] :=
    fun r => Stitch.eq_concat_of_pending_rel rfl hbefore
  have hdisconnected : err.isConnection = true → FailsBehind before err →
      Verdict (before ++ next :: after) (.error err : Except PathError α) :=
    fun hconnection hfails =>
      .disconnected ⟨hconnection, before, next, after, stitched, rfl, hbefore, hnext, hfails⟩
  have htaking := Stitch.taking_take stitched hpath (before.length + 1)
  rw [hnext] at htaking
  cases htaking with
  | misplaced hnone =>
      refine .misplaced (misplaced_of_append (KindReading.beginPath_iff.mpr ⟨_, hread⟩) ?_)
      rw [KindReading.beginPath_iff]
      rintro ⟨r, hr⟩
      rw [List.foldlM_append] at hr
      obtain ⟨middle, hmiddle, hlast⟩ := Option.bind_eq_some_iff.mp hr
      obtain rfl := Option.some.inj (hread.symm.trans hmiddle)
      rw [List.foldlM_cons, hnone] at hlast
      cases hlast
  | noOverlap => exact hdisconnected rfl .noOverlap
  | ambiguousFromNode => exact hdisconnected rfl .ambiguousFromNode
  | ambiguousToNode => exact hdisconnected rfl .ambiguousToNode
  | ambiguousEnds hpending =>
      obtain ⟨front, hfront⟩ := hrel _ hpending
      exact hdisconnected rfl (.ambiguousEnds hfront)
  | joinEndpointsNotFound hpending =>
      obtain ⟨front, hfront⟩ := hrel _ hpending
      exact hdisconnected rfl (.joinEndpointsNotFound hfront)

/-- What comes of stitching any entities. -/
theorem verdict_stitch (hpaths : ∀ g, .path g ∈ entities → g.triples ≠ []) :
    Verdict entities (stitch entities) := by
  rw [stitch]
  cases htake : Stitch.takeAll {} entities 1 with
  | error err =>
      obtain ⟨before, next, after, stitched, rfl, hbefore, hnext⟩ := Stitch.takeAll_eq_error htake
      rw [Nat.add_comm] at hnext
      exact verdict_of_take hpaths hbefore hnext
  | ok s =>
      have hread := Stitch.reading_of_takeAll hpaths htake
      rcases s.finish_cases with ⟨hdone, hfinish⟩ | ⟨hmore, hfinish⟩
      · show Verdict entities s.finish
        rw [hfinish]
        exact .path (KindReading.formPath_iff.mpr (hdone ▸ hread))
      · show Verdict entities s.finish
        rw [hfinish]
        refine .incomplete ?_ (KindReading.beginPath_iff.mpr ⟨_, hread⟩)
        intro hform
        exact hmore (Option.some.inj (hread.symm.trans (KindReading.formPath_iff.mp hform)))

end

/-! ## The grammar of stitching -/

namespace Path

/-- What comes of stitching a path. -/
theorem verdict_ofEntities (s : Numbering) {entities : List Entity}
    (hpaths : ∀ g, .path g ∈ entities → g.triples ≠ []) :
    Verdict entities (Path.ofEntities s entities) :=
  (verdict_stitch hpaths).map s.path

/-- Which entities are stitched. If no entity fails to be connected, a path is built if the kinds
of the entities form one; the path is incomplete if they only begin one; and otherwise the first
entity behind which no path can go on is not valid, which the message says of it. A failure to
connect an entity comes behind entities that are stitched, and has the position of the entity, or
of a relationship right before it whose ends are not known. -/
theorem ofEntities_grammar {s : Numbering} {entities : List Entity}
    (hpaths : ∀ g, .path g ∈ entities → g.triples ≠ []) :
    ((∀ err, Path.ofEntities s entities = .error err → err.isConnection = false) →
      ((∃ built, Path.ofEntities s entities = .ok built) ↔
        FormPath (entities.map Entity.kind)) ∧
      (Path.ofEntities s entities = .error .incompletePath ↔
        ¬FormPath (entities.map Entity.kind) ∧ BeginPath (entities.map Entity.kind)) ∧
      ((∃ e position, Path.ofEntities s entities = .error (.invalidArgument e position)) ↔
        ¬BeginPath (entities.map Entity.kind)) ∧
      ∀ e position, Path.ofEntities s entities = .error (.invalidArgument e position) →
        Misplaced entities e position ∧
        (PathError.invalidArgument e position).message =
          "Entity '" ++ e.display ++ "' is not valid at arg position " ++ toString position ++
            ".") ∧
    ∀ err, Path.ofEntities s entities = .error err → err.isConnection = true →
      ∃ before next after stitched, entities = before ++ next :: after ∧
        Stitch.takeAll {} before 1 = .ok stitched ∧
        stitched.take next (before.length + 1) = .error err ∧ FailsBehind before err := by
  have hverdict := verdict_ofEntities s hpaths
  generalize Path.ofEntities s entities = outcome at hverdict ⊢
  cases hverdict with
  | path hform =>
      refine ⟨fun _ => ⟨iff_of_true ⟨_, rfl⟩ hform, iff_of_false nofun (fun h => h.1 hform),
        iff_of_false ?_ (fun h => h hform.beginPath), ?_⟩, ?_⟩
      · rintro ⟨_, _, ⟨⟩⟩
      · rintro _ _ ⟨⟩
      · rintro _ ⟨⟩
  | incomplete hnot hbegin =>
      refine ⟨fun _ => ⟨iff_of_false nofun hnot, iff_of_true rfl ⟨hnot, hbegin⟩,
        iff_of_false ?_ (fun h => h hbegin), ?_⟩, ?_⟩
      · rintro ⟨_, _, ⟨⟩⟩
      · rintro _ _ ⟨⟩
      · rintro _ ⟨⟩ ⟨⟩
  | @misplaced e position hmisplaced =>
      have hnot := hmisplaced.not_beginPath_kinds
      refine ⟨fun _ => ⟨iff_of_false nofun (fun h => hnot h.beginPath),
        iff_of_false ?_ (fun h => hnot h.2), iff_of_true ⟨e, position, rfl⟩ hnot, ?_⟩, ?_⟩
      · rintro ⟨⟩
      · rintro _ _ ⟨⟩
        exact ⟨hmisplaced, PathError.message_invalidArgument e position⟩
      · rintro _ ⟨⟩ ⟨⟩
  | disconnected hdisconnected =>
      refine ⟨fun hnone => ?_, ?_⟩
      · exact absurd hdisconnected.isConnection (Bool.eq_false_iff.mp (hnone _ rfl))
      · rintro _ ⟨⟩ -
        exact hdisconnected.fails

/-- A triple that nothing leads to. -/
def strayTriple : Triple :=
  ⟨{ var := "n2", label := some "C" }, { var := "r2", kind := some "q" },
    { var := "n3", label := some "D" }⟩

/-- A path, a relationship that continues from it to a node, and a second node, which a relationship
would have to follow; but a triple does. -/
def strayParts : List Entity :=
  let a : Node := { var := "n0", label := some "A" }
  let b : Node := { var := "n1", label := some "B" }
  [.path ⟨"g0", [⟨a, { var := "r0", kind := some "q" }, b⟩]⟩,
    .relationship { var := "r1", kind := some "q" }, .node strayTriple.source, .node a,
    .triple strayTriple]

/-- The triple is the first entity that is out of place. -/
theorem ofEntities_grammar_stray :
    (∀ g, .path g ∈ strayParts → g.triples ≠ []) ∧
      Path.ofEntities .start strayParts = .error (.invalidArgument (.triple strayTriple) 5) ∧
      Misplaced strayParts (.triple strayTriple) 5 := by
  have hpaths : ∀ g, .path g ∈ strayParts → g.triples ≠ [] := by
    intro g hg
    obtain rfl : g = ⟨"g0", _⟩ := by simpa [strayParts] using hg
    exact List.cons_ne_nil _ _
  have hstray : Path.ofEntities .start strayParts =
      .error (.invalidArgument (.triple strayTriple) 5) := rfl
  have hnone : ∀ err, Path.ofEntities .start strayParts = .error err →
      err.isConnection = false := by
    intro err herr
    obtain rfl := Except.error.inj (hstray.symm.trans herr)
    rfl
  exact ⟨hpaths, hstray, (((ofEntities_grammar hpaths).1 hnone).2.2.2 _ _ hstray).1⟩

end Path

end CypherRoutes
