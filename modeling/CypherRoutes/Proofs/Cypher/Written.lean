/-
# Written entities

A term writes its entities in places: its own place, or that of the innermost function around the
entity. The slots of a clause are those of the entities that it writes (`Clause.slots_phrase`), and
the values that it needs are those of the entities that it collects (`Clause.params_eq`), which are
the ones that it writes, except for the target of a REMOVE clause. So slots and values can be
compared for one entity in one place: every slot has its value among those collected, and every
value collected has a slot unless it belongs to a copy of a node that no walk of a path visits.
-/
import CypherRoutes.Proofs.Cypher.Texts
import CypherRoutes.Proofs.Graph.Session

namespace CypherRoutes

/-! ## Entities in their places -/

namespace Term

mutual

/-- The entities of a term, each with the place in which it is written. -/
def written : Term → Place → List (Entity × Place)
  | entity e, place => [(e, place)]
  | apply kind args _, _ => allWritten args kind.place
  | raw _, _ => []

/-- The entities of a list of terms with their places. -/
def allWritten : List Term → Place → List (Entity × Place)
  | [], _ => []
  | t :: rest, place => written t place ++ allWritten rest place

end

end Term

namespace Clause

/-- The entities whose values a clause needs, each with the place in which it is written. -/
def collected : Clause → List (Entity × Place)
  | matching terms => Term.allWritten terms .pattern
  | optionalMatching terms => Term.allWritten terms .pattern
  | create terms => Term.allWritten terms .pattern
  | merge terms => Term.allWritten terms .pattern
  | filter _ terms => Term.allWritten terms .condition
  | assign _ terms => (terms.filterMap Term.property?).map fun p => (.property p, .condition)
  | onCreateSet terms => (terms.filterMap Term.property?).map fun p => (.property p, .condition)
  | onMatchSet terms => (terms.filterMap Term.property?).map fun p => (.property p, .condition)
  | remove _ _ => []
  | returning terms => Term.allWritten terms .item
  | passing terms => Term.allWritten terms .item
  | unwind terms => Term.allWritten terms .item
  | raw _ => []

/-- The entities that a clause writes, each with its place: those that it collects, and the target
of a REMOVE clause. -/
def written : Clause → List (Entity × Place)
  | remove target _ => target.written .item
  | c => c.collected

end Clause

/-- The entities that a statement collects, each with its place. -/
def Statement.collected (s : Statement) : List (Entity × Place) :=
  s.clauses.flatMap Clause.collected

/-! ## Slots and values -/

/-- The slots of an entity in a place. -/
def slotsIn (x : Entity × Place) : List (String × Value) :=
  (x.1.phrases x.2).flatMap Phrase.slots

/-- The values of an entity in a place. -/
def paramsIn (x : Entity × Place) : List (String × Value) := Term.entityParams x.1 x.2

namespace Term

mutual

/-- The slots of a term are those of its entities in their places. -/
theorem slots_phrases (t : Term) (place : Place) :
    (t.phrases place).flatMap Phrase.slots = (t.written place).flatMap slotsIn := by
  cases t with
  | entity e => rw [phrases, written, List.flatMap_singleton, slotsIn]
  | apply kind args asName =>
      rw [phrases, written, List.flatMap_singleton, FuncKind.slots_around,
        slots_allPhrases args kind.place]
  | raw text => rfl

/-- The same for a list of terms. -/
theorem slots_allPhrases (ts : List Term) (place : Place) :
    (allPhrases ts place).flatMap Phrase.slots = (allWritten ts place).flatMap slotsIn := by
  cases ts with
  | nil => rfl
  | cons t rest =>
      rw [allPhrases, allWritten, List.flatMap_append, List.flatMap_append,
        slots_phrases t place, slots_allPhrases rest place]

end

mutual

/-- The values that a term needs are those of its entities in their places. -/
theorem params_eq (t : Term) (place : Place) :
    t.params place = (t.written place).flatMap paramsIn := by
  cases t with
  | entity e => rw [params, written, List.flatMap_singleton, paramsIn]
  | apply kind args asName => rw [params, written, allParams_eq args kind.place]
  | raw text => rfl

/-- The same for a list of terms. -/
theorem allParams_eq (ts : List Term) (place : Place) :
    allParams ts place = (allWritten ts place).flatMap paramsIn := by
  cases ts with
  | nil => rfl
  | cons t rest =>
      rw [allParams, allWritten, List.flatMap_append, params_eq t place,
        allParams_eq rest place]

end

mutual

/-- What a term writes are its entities. -/
theorem mem_entities_of_mem_written {t : Term} {place : Place} {x : Entity × Place}
    (h : x ∈ t.written place) : x.1 ∈ t.entities := by
  cases t with
  | entity e =>
      rw [List.mem_singleton.mp h]
      exact List.mem_singleton_self e
  | apply kind args asName => exact mem_allEntities_of_mem_allWritten h
  | raw text => exact absurd h List.not_mem_nil

/-- The same for a list of terms. -/
theorem mem_allEntities_of_mem_allWritten {ts : List Term} {place : Place} {x : Entity × Place}
    (h : x ∈ allWritten ts place) : x.1 ∈ allEntities ts := by
  cases ts with
  | nil => exact absurd h List.not_mem_nil
  | cons t rest =>
      rw [allWritten, List.mem_append] at h
      rw [allEntities, List.mem_append]
      exact h.imp mem_entities_of_mem_written mem_allEntities_of_mem_allWritten

end

/-- The slots of terms are values of their entities. -/
theorem exists_entity_of_mem_allSlots {ts : List Term} {place : Place} {a : String × Value}
    (h : a ∈ (allPhrases ts place).flatMap Phrase.slots) :
    ∃ e ∈ allEntities ts, a ∈ e.params := by
  rw [slots_allPhrases] at h
  obtain ⟨x, hx, h⟩ := List.mem_flatMap.mp h
  exact ⟨x.1, mem_allEntities_of_mem_allWritten hx, Entity.mem_params_of_mem_slots_phrases h⟩

/-- What terms need are values of their entities. -/
theorem exists_entity_of_mem_allParams {ts : List Term} {place : Place} {a : String × Value}
    (h : a ∈ allParams ts place) : ∃ e ∈ allEntities ts, a ∈ e.params := by
  rw [allParams_eq] at h
  obtain ⟨x, hx, h⟩ := List.mem_flatMap.mp h
  exact ⟨x.1, mem_allEntities_of_mem_allWritten hx, mem_params_of_mem_entityParams h⟩

end Term

namespace Clause

theorem slots_listing (keyword joiner : String) (place : Place) (ts : List Term) :
    (listing keyword place joiner ts).slots = (Term.allWritten ts place).flatMap slotsIn := by
  rw [listing, Phrase.slots_verbatim, Phrase.slots_joined, Term.slots_allPhrases]

/-- An assignment has the slot that the condition of the property has, whatever stands between. -/
theorem slots_assignments (keyword op : String) (ts : List Term) :
    (assignments keyword op ts).slots
      = ((ts.filterMap Term.property?).map fun p => (Entity.property p, Place.condition)).flatMap
          slotsIn := by
  have hop : ∀ p : Property, (p.assignment? op).toList.flatMap Phrase.slots
      = slotsIn (.property p, .condition) := by
    intro p
    rw [slotsIn, Entity.phrases, Entity.conditions, Property.condition?, Property.assignment?,
      Property.assignment?]
    cases p.owner with
    | none => rfl
    | some owner => cases p.value? <;> rfl
  rw [assignments, Phrase.slots_verbatim, Phrase.slots_joined]
  induction ts.filterMap Term.property? with
  | nil => rfl
  | cons p rest ih =>
      rw [List.map_cons, List.flatMap_cons, ← ih, ← hop, List.filterMap_cons]
      cases p.assignment? op <;> simp

/-- The target of a REMOVE clause has the slots of its first phrase: an entity among items has
none, and a function is written as one phrase. -/
theorem slots_remove (target : Term) (removal : Removal) :
    (remove target removal).phrase.slots = (target.written .item).flatMap slotsIn := by
  have hhead : Phrase.slots ((target.phrases .item).headD [])
      = (target.phrases .item).flatMap Phrase.slots := by
    cases target with
    | entity e =>
        have hnone : ∀ phrase ∈ e.items.map Phrase.ofText, phrase.slots = [] := by
          intro phrase hphrase
          obtain ⟨item, -, rfl⟩ := List.mem_map.mp hphrase
          rfl
        rw [Term.phrases, Entity.phrases, List.flatMap_eq_nil_iff.mpr hnone]
        cases e.items <;> rfl
    | apply kind args asName => rw [Term.phrases, List.flatMap_singleton, List.headD_cons]
    | raw text => rfl
  rw [phrase, Phrase.slots_verbatim, Phrase.slots_append, hhead, Term.slots_phrases]
  simp

/-- The slots of a clause are those of the entities that it writes. -/
theorem slots_phrase (c : Clause) : c.phrase.slots = c.written.flatMap slotsIn := by
  cases c with
  | matching ts => exact slots_listing _ _ _ ts
  | optionalMatching ts => exact slots_listing _ _ _ ts
  | create ts => exact slots_listing _ _ _ ts
  | merge ts => exact slots_listing _ _ _ ts
  | filter op ts => exact slots_listing _ _ _ ts
  | assign update ts => exact slots_assignments _ _ ts
  | onCreateSet ts => exact slots_assignments _ _ ts
  | onMatchSet ts => exact slots_assignments _ _ ts
  | remove target removal => exact slots_remove target removal
  | returning ts => exact slots_listing _ _ _ ts
  | passing ts => exact slots_listing _ _ _ ts
  | unwind ts => exact slots_listing _ _ _ ts
  | raw text => rfl

theorem assignmentParams_eq (ts : List Term) :
    assignmentParams ts
      = ((ts.filterMap Term.property?).map fun p => (Entity.property p, Place.condition)).flatMap
          paramsIn := by
  rw [assignmentParams, List.flatMap_map]
  rfl

/-- The values that a clause needs are those of the entities that it collects. -/
theorem params_eq (c : Clause) : c.params = c.collected.flatMap paramsIn := by
  cases c with
  | matching ts => exact Term.allParams_eq ts _
  | optionalMatching ts => exact Term.allParams_eq ts _
  | create ts => exact Term.allParams_eq ts _
  | merge ts => exact Term.allParams_eq ts _
  | filter op ts => exact Term.allParams_eq ts _
  | assign update ts => exact assignmentParams_eq ts
  | onCreateSet ts => exact assignmentParams_eq ts
  | onMatchSet ts => exact assignmentParams_eq ts
  | remove target removal => rfl
  | returning ts => exact Term.allParams_eq ts _
  | passing ts => exact Term.allParams_eq ts _
  | unwind ts => exact Term.allParams_eq ts _
  | raw text => rfl

/-- A clause that is no REMOVE clause writes what it collects, and a REMOVE clause writes its
target. -/
theorem mem_written_iff {c : Clause} {x : Entity × Place} :
    x ∈ c.written ↔ x ∈ c.collected ∨
      ∃ target removal, c = remove target removal ∧ x ∈ target.written .item := by
  cases c with
  | remove target removal => simp [written, collected]
  | _ => simp [written, collected]

/-- What a clause collects are entities of its terms. -/
theorem mem_allEntities_of_mem_collected {c : Clause} {x : Entity × Place}
    (h : x ∈ c.collected) : x.1 ∈ Term.allEntities c.terms := by
  have hassign : ∀ ts : List Term,
      x ∈ (ts.filterMap Term.property?).map (fun p => (Entity.property p, Place.condition)) →
        x.1 ∈ Term.allEntities ts := by
    intro ts hx
    obtain ⟨p, hp, rfl⟩ := List.mem_map.mp hx
    exact Term.mem_allEntities_of_mem_properties hp
  cases c with
  | assign update ts => exact hassign ts h
  | onCreateSet ts => exact hassign ts h
  | onMatchSet ts => exact hassign ts h
  | remove => exact absurd h List.not_mem_nil
  | raw => exact absurd h List.not_mem_nil
  | _ => exact Term.mem_allEntities_of_mem_allWritten h

/-- What a clause writes are entities of its terms. -/
theorem mem_allEntities_of_mem_written {c : Clause} {x : Entity × Place} (h : x ∈ c.written) :
    x.1 ∈ Term.allEntities c.terms := by
  rcases mem_written_iff.mp h with h | ⟨target, removal, rfl, h⟩
  · exact mem_allEntities_of_mem_collected h
  · rw [terms, Term.allEntities, Term.allEntities, List.append_nil]
    exact Term.mem_entities_of_mem_written h

/-- A slot of a clause is one of an entity that it writes. -/
theorem mem_slots_iff {c : Clause} {a : String × Value} :
    a ∈ c.phrase.slots ↔ ∃ x ∈ c.written, a ∈ slotsIn x := by
  rw [slots_phrase, List.mem_flatMap]

end Clause

namespace Statement

/-- The slots of a statement are those of its clauses. -/
theorem slots_phrase (s : Statement) :
    s.phrase.slots = s.clauses.flatMap fun c => c.phrase.slots := by
  have hend : Phrase.slots (if s.terminate then [.verbatim ";"] else []) = [] := by
    split_ifs <;> rfl
  rw [phrase, Phrase.slots_append, Phrase.slots_joined, hend, List.append_nil, List.flatMap_map]

/-- A slot of a statement is one of a clause. -/
theorem mem_slots_iff {s : Statement} {a : String × Value} :
    a ∈ s.phrase.slots ↔ ∃ c ∈ s.clauses, a ∈ c.phrase.slots := by
  rw [slots_phrase, List.mem_flatMap]

/-- A statement has the parameters of the entities that it collects. -/
theorem params_eq (s : Statement) : s.params = .ofList (s.collected.flatMap paramsIn) := by
  rw [params, collected, List.flatMap_assoc]
  exact congrArg Params.ofList (List.flatMap_congr fun c _ => c.params_eq)

end Statement

/-! ## One entity in one place -/

/-- Wherever an entity is written, its slots are among the values that are collected. -/
theorem mem_paramsIn_of_mem_slotsIn {x : Entity × Place} {a : String × Value}
    (h : a ∈ slotsIn x) : a ∈ paramsIn x := by
  obtain ⟨e, place⟩ := x
  have hparams : a ∈ e.params := Entity.mem_params_of_mem_slots_phrases h
  cases place with
  | pattern => cases e <;> exact hparams
  | item =>
      obtain ⟨phrase, hphrase, ha⟩ := List.mem_flatMap.mp h
      obtain ⟨item, -, rfl⟩ := List.mem_map.mp hphrase
      exact absurd ha List.not_mem_nil
  | condition =>
      cases e with
      | property p =>
          -- a property without an owner is not written as a condition
          rw [paramsIn, Term.entityParams]
          cases howner : p.owner with
          | none => simp [slotsIn, Entity.phrases, Entity.conditions, Property.condition?,
              Property.assignment?, howner] at h
          | some owner => exact hparams
      | node => exact hparams
      | relationship => exact hparams
      | triple => exact hparams
      | path => exact hparams

/-- The conditions of owned properties have all their values in slots. -/
theorem Property.mem_slots_conditions {props : List Property}
    (howned : ∀ p ∈ props, p.owner.isSome = true) {a : String × Value}
    (h : a ∈ props.flatMap Property.params) :
    a ∈ (props.filterMap Property.condition?).flatMap Phrase.slots := by
  obtain ⟨v, value⟩ := a
  obtain ⟨p, hp, ha⟩ := List.mem_flatMap.mp h
  obtain ⟨owner, howner⟩ := Option.isSome_iff_exists.mp (howned p hp)
  obtain ⟨rfl, hvalue⟩ := Property.mem_params_iff.mp ha
  have hcondition : p.condition?
      = some [.verbatim (owner ++ "." ++ p.handle ++ " " ++ "=" ++ " "), .slot p.var value] := by
    rw [condition?, assignment?, howner, hvalue]
    rfl
  exact List.mem_flatMap.mpr ⟨_, List.mem_filterMap.mpr ⟨p, hp, hcondition⟩,
    List.mem_singleton_self _⟩

/-- A copy of a node that no walk of the path visits. -/
def Path.Unvisited (g : Path) (n : Node) : Prop :=
  n ∈ g.triples.flatMap Triple.nodes ∧ n ∉ g.walks.flatMap Walk.nodes

/-- The values of a path have slots, except on copies that no walk visits. -/
theorem Path.mem_slots_or_unvisited {g : Path} {a : String × Value} (h : a ∈ g.params) :
    a ∈ g.pattern.slots ∨ ∃ n, g.Unvisited n ∧ a ∈ n.params := by
  have hcopies : a ∈ (Entity.path g).params := h
  rw [Path.mem_slots_pattern_iff]
  rcases Entity.mem_params_iff_copies.mp hcopies with ⟨n, hn, ha⟩ | ⟨r, hr, ha⟩ | ⟨p, hp, -⟩
  · by_cases hwalk : n ∈ g.walks.flatMap Walk.nodes
    · exact .inl (.inl ⟨n, hwalk, ha⟩)
    · exact .inr ⟨n, ⟨hn, hwalk⟩, ha⟩
  · exact .inl (.inr ⟨r, g.perm_edges_walks.mem_iff.mpr hr, ha⟩)
  · cases hp

/-- The values of a copy in a path are values of the path. -/
theorem Path.Unvisited.mem_params {g : Path} {n : Node} (h : g.Unvisited n) {a : String × Value}
    (ha : a ∈ n.params) : a ∈ g.params :=
  (Entity.mem_params_iff_copies (e := .path g)).mpr (.inl ⟨n, h.1, ha⟩)

/-- What is collected of an entity has slots, except on copies in a path that no walk visits. -/
theorem mem_slotsIn_or_unvisited {x : Entity × Place} (howned : x.1.Obeys .owned)
    {a : String × Value} (h : a ∈ paramsIn x) :
    a ∈ slotsIn x ∨ ∃ g n, x.1 = .path g ∧ g.Unvisited n ∧ a ∈ n.params := by
  obtain ⟨e, place⟩ := x
  have hphrase : ∀ phrase : Phrase, a ∈ phrase.slots → a ∈ [phrase].flatMap Phrase.slots := by
    intro phrase ha
    rwa [List.flatMap_singleton]
  have hpath : ∀ {g : Path}, a ∈ g.params → a ∈ [g.pattern].flatMap Phrase.slots ∨
      ∃ g' n, Entity.path g = .path g' ∧ g'.Unvisited n ∧ a ∈ n.params := by
    intro g ha
    rcases g.mem_slots_or_unvisited ha with ha | ⟨n, hn, ha⟩
    · exact .inl (hphrase _ ha)
    · exact .inr ⟨g, n, rfl, hn, ha⟩
  cases place with
  | item => cases e <;> exact absurd h List.not_mem_nil
  | pattern =>
      cases e with
      | node n => exact .inl (hphrase n.pattern (n.slots_pattern ▸ h))
      | relationship r => exact .inl (hphrase r.pattern (r.slots_pattern ▸ h))
      | property p =>
          left
          show a ∈ p.pattern?.toList.flatMap Phrase.slots
          rwa [Property.slots_pattern?]
      | triple t => exact .inl (hphrase t.pattern (t.slots_pattern ▸ h))
      | path g => exact hpath h
  | condition =>
      cases e with
      | node n => exact .inl (Property.mem_slots_conditions howned.node.2 h)
      | relationship r => exact .inl (Property.mem_slots_conditions howned.relationship.2 h)
      | property p =>
          rw [paramsIn, Term.entityParams] at h
          split_ifs at h with hloose
          · exact absurd h List.not_mem_nil
          · have howner : ∀ q ∈ [p], q.owner.isSome = true := by
              intro q hq
              rw [List.mem_singleton.mp hq, Option.isSome_iff_ne_none]
              exact fun hnone => hloose (by rw [hnone]; rfl)
            have ha := Property.mem_slots_conditions howner (by rwa [List.flatMap_singleton])
            left
            show a ∈ p.condition?.toList.flatMap Phrase.slots
            rwa [List.filterMap_cons, List.filterMap_nil] at ha
      | triple t => exact .inl (hphrase t.pattern (t.slots_pattern ▸ h))
      | path g => exact hpath h

end CypherRoutes
