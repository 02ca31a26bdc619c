/-
# Issued variables

A numbering has issued the variables below its counts. Variables are told apart by their letter
and their number (`varName_injective`), so what a numbering names next was not issued before, and
entities built one after the other have no variable in common.
-/
import CypherRoutes.Graph.Numbering
import CypherRoutes.Proofs.Graph.Coherent

namespace CypherRoutes

namespace Numbering

/-- A variable tells its letter and its number. -/
theorem varName_injective {a b : Char} {m n : Nat} (h : varName a m = varName b n) :
    a = b ∧ m = n := by
  rw [varName, varName, ← String.toList_inj, String.toList_ofList, String.toList_ofList,
    List.cons.injEq] at h
  refine ⟨h.1, ?_⟩
  -- the digits give the number back
  rw [← Nat.ofDigitChars_ten_toDigits (n := m), h.2, Nat.ofDigitChars_ten_toDigits]

/-- The variable is one of those that were named so far: of a node, of a relationship or of a
property. -/
def Issued (s : Numbering) (v : String) : Prop :=
  (∃ i < s.nodes, v = varName 'n' i) ∨ (∃ i < s.relationships, v = varName 'r' i) ∨
    ∃ i < s.properties, v = varName 'p' i

/-- A numbering that comes before another, or is the same. -/
structure Before (s t : Numbering) : Prop where
  nodes : s.nodes ≤ t.nodes
  relationships : s.relationships ≤ t.relationships
  properties : s.properties ≤ t.properties

theorem Before.refl (s : Numbering) : s.Before s := ⟨le_rfl, le_rfl, le_rfl⟩

theorem Before.trans {s t u : Numbering} (h : s.Before t) (h' : t.Before u) : s.Before u :=
  ⟨h.nodes.trans h'.nodes, h.relationships.trans h'.relationships,
    h.properties.trans h'.properties⟩

/-- What was issued before stays issued. -/
theorem Issued.mono {s t : Numbering} {v : String} (h : s.Issued v) (hst : s.Before t) :
    t.Issued v := by
  rcases h with ⟨i, hi, rfl⟩ | ⟨i, hi, rfl⟩ | ⟨i, hi, rfl⟩
  · exact .inl ⟨i, hi.trans_le hst.nodes, rfl⟩
  · exact .inr (.inl ⟨i, hi.trans_le hst.relationships, rfl⟩)
  · exact .inr (.inr ⟨i, hi.trans_le hst.properties, rfl⟩)

/-! ## The next variables -/

theorem issued_node_iff {s : Numbering} {i : Nat} : s.Issued (varName 'n' i) ↔ i < s.nodes := by
  constructor
  · rintro (⟨j, hj, h⟩ | ⟨j, -, h⟩ | ⟨j, -, h⟩)
    · rw [(varName_injective h).2]
      exact hj
    · exact absurd (varName_injective h).1 (by decide)
    · exact absurd (varName_injective h).1 (by decide)
  · exact fun hi => .inl ⟨i, hi, rfl⟩

theorem issued_relationship_iff {s : Numbering} {i : Nat} :
    s.Issued (varName 'r' i) ↔ i < s.relationships := by
  constructor
  · rintro (⟨j, -, h⟩ | ⟨j, hj, h⟩ | ⟨j, -, h⟩)
    · exact absurd (varName_injective h).1 (by decide)
    · rw [(varName_injective h).2]
      exact hj
    · exact absurd (varName_injective h).1 (by decide)
  · exact fun hi => .inr (.inl ⟨i, hi, rfl⟩)

theorem issued_property_iff {s : Numbering} {i : Nat} :
    s.Issued (varName 'p' i) ↔ i < s.properties := by
  constructor
  · rintro (⟨j, -, h⟩ | ⟨j, -, h⟩ | ⟨j, hj, h⟩)
    · exact absurd (varName_injective h).1 (by decide)
    · exact absurd (varName_injective h).1 (by decide)
    · rw [(varName_injective h).2]
      exact hj
  · exact fun hi => .inr (.inr ⟨i, hi, rfl⟩)

/-- A variable that a construction takes: new, and issued from then on. -/
structure Takes (s t : Numbering) (v : String) : Prop where
  before : s.Before t
  issued : t.Issued v
  isNew : ¬ s.Issued v

theorem takes_node (s : Numbering) (label : Option String) :
    s.Takes (s.node label).2 (s.node label).1.var where
  before := ⟨Nat.le_succ _, le_rfl, le_rfl⟩
  issued := issued_node_iff.mpr (Nat.lt_succ_self _)
  isNew := fun h => lt_irrefl _ (issued_node_iff.mp h)

theorem takes_relationship (s : Numbering) (kind : Option String) :
    s.Takes (s.relationship kind).2 (s.relationship kind).1.var where
  before := ⟨le_rfl, Nat.le_succ _, le_rfl⟩
  issued := issued_relationship_iff.mpr (Nat.lt_succ_self _)
  isNew := fun h => lt_irrefl _ (issued_relationship_iff.mp h)

theorem takes_property (s : Numbering) (handle : String) (given : Option Value) :
    s.Takes (s.property handle given).2 (s.property handle given).1.var where
  before := ⟨le_rfl, le_rfl, Nat.le_succ _⟩
  issued := issued_property_iff.mpr (Nat.lt_succ_self _)
  isNew := fun h => lt_irrefl _ (issued_property_iff.mp h)

/-- Naming a path issues no variable of a member. -/
theorem issued_path_iff {s : Numbering} {triples : List Triple} {v : String} :
    (s.path triples).2.Issued v ↔ s.Issued v := Iff.rfl

theorem before_path (s : Numbering) (triples : List Triple) : s.Before (s.path triples).2 :=
  ⟨le_rfl, le_rfl, le_rfl⟩

end Numbering

/-! ## Entities with new variables -/

/-- A coherent entity whose variables were all issued between two numberings. -/
structure Entity.BuiltBetween (s t : Numbering) (e : Entity) : Prop where
  before : s.Before t
  coherent : e.Coherent
  issued : ∀ v ∈ e.vars, t.Issued v
  isNew : ∀ v ∈ e.vars, ¬ s.Issued v

/-- The same for an earlier and a later numbering. -/
theorem Entity.BuiltBetween.mono {s s' t t' : Numbering} {e : Entity}
    (h : e.BuiltBetween s t) (hs : s'.Before s) (ht : t.Before t') : e.BuiltBetween s' t' where
  before := (hs.trans h.before).trans ht
  coherent := h.coherent
  issued v hv := (h.issued v hv).mono ht
  isNew v hv hi := h.isNew v hv (hi.mono hs)

end CypherRoutes
