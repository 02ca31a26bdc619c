/-
# Phrases with other values

An entity with new values is written as before, with the new values in the slots. Placeholders do
not show values, so the parameterized text stays the same.
-/
import CypherRoutes.Proofs.Cypher.Slots
import CypherRoutes.Proofs.Graph.Revalue

namespace CypherRoutes

/-! ## Phrases -/

/-- A value, or the new one that is given for its variable. -/
def newValue (σ : String → Option String) (var : String) (value : Value) : Value :=
  ((σ var).map .string).getD value

/-- The piece with a new value in its slot. -/
def Piece.revalue (σ : String → Option String) : Piece → Piece
  | verbatim text => verbatim text
  | slot var value => slot var (newValue σ var value)

namespace Phrase

variable (σ : String → Option String)

/-- The phrase with new values in its slots. -/
def revalue (phrase : Phrase) : Phrase := phrase.map (.revalue σ)

@[simp] theorem revalue_nil : revalue σ [] = [] := rfl

@[simp] theorem revalue_verbatim (text : String) (rest : Phrase) :
    revalue σ (.verbatim text :: rest) = .verbatim text :: revalue σ rest := rfl

@[simp] theorem revalue_slot (var : String) (value : Value) (rest : Phrase) :
    revalue σ (.slot var value :: rest) = .slot var (newValue σ var value) :: revalue σ rest := rfl

@[simp] theorem revalue_append (a b : Phrase) :
    revalue σ (a ++ b) = revalue σ a ++ revalue σ b := List.map_append

/-- Placeholders do not show values. -/
theorem text_revalue (phrase : Phrase) :
    (phrase.revalue σ).text .parameterized = phrase.text .parameterized := by
  have hpiece : ∀ piece : Piece,
      (piece.revalue σ).text .parameterized = piece.text .parameterized := by
    intro piece
    cases piece <;> rfl
  rw [text, text, revalue, List.map_map]
  exact congrArg String.join (List.map_congr_left fun piece _ => hpiece piece)

/-- The slots have the new values. -/
theorem slots_revalue (phrase : Phrase) :
    (phrase.revalue σ).slots = phrase.slots.map fun x => (x.1, newValue σ x.1 x.2) := by
  induction phrase with
  | nil => rfl
  | cons piece rest ih =>
      cases piece with
      | verbatim text => exact ih
      | slot var value =>
          rw [revalue_slot, slots_slot, slots_slot, ih, List.map_cons]

/-- Separators have no values. -/
theorem revalue_joined (separator : String) (phrases : List Phrase) :
    revalue σ (joined separator phrases) = joined separator (phrases.map (revalue σ)) := by
  rw [joined, joined]
  induction phrases with
  | nil => rfl
  | cons p rest ih =>
      cases rest with
      | nil => simp [List.intercalate]
      | cons q rest =>
          rw [List.intercalate_cons_cons, List.map_cons, List.map_cons,
            List.intercalate_cons_cons, revalue_append, revalue_append, ih]
          rfl

end Phrase

/-! ## Entities -/

section Entities

variable (σ : String → Option String)

namespace Property

theorem pattern?_revalue (p : Property) :
    (p.revalue σ).pattern? = p.pattern?.map (.revalue σ) := by
  rw [pattern?, pattern?, value?_revalue, revalue_handle, revalue_var]
  cases p.value? <;> rfl

theorem condition?_revalue (p : Property) :
    (p.revalue σ).condition? = p.condition?.map (.revalue σ) := by
  rw [condition?, condition?, assignment?, assignment?, value?_revalue, revalue_handle,
    revalue_var, revalue_owner]
  cases p.owner <;> cases p.value? <;> rfl

theorem item?_revalue (p : Property) : (p.revalue σ).item? = p.item? := by
  rw [item?, item?, revalue_owner, revalue_handle, revalue_asName]

theorem mapPattern_revalue (props : List Property) :
    mapPattern (props.map (.revalue σ)) = (mapPattern props).revalue σ := by
  have hentries : (props.map (revalue σ)).filterMap pattern?
      = (props.filterMap pattern?).map (.revalue σ) := by
    rw [List.filterMap_map, List.map_filterMap]
    exact List.filterMap_congr fun p _ => p.pattern?_revalue σ
  rw [mapPattern, mapPattern, hentries]
  cases props.filterMap pattern? with
  | nil => rfl
  | cons entry rest =>
      simp [Phrase.revalue_joined]

theorem conditions_revalue (props : List Property) :
    (props.map (revalue σ)).filterMap condition?
      = (props.filterMap condition?).map (.revalue σ) := by
  rw [List.filterMap_map, List.map_filterMap]
  exact List.filterMap_congr fun p _ => p.condition?_revalue σ

end Property

theorem Node.pattern_revalue (n : Node) : (n.revalue σ).pattern = n.pattern.revalue σ := by
  simp [Node.pattern, Node.revalue, Property.mapPattern_revalue]

theorem Relationship.pattern_revalue (r : Relationship) :
    (r.revalue σ).pattern = r.pattern.revalue σ := by
  have hempty : (Phrase.revalue σ (Property.mapPattern r.props)).isEmpty
      = (Property.mapPattern r.props).isEmpty := by
    rw [Phrase.revalue, List.isEmpty_map]
  simp only [Relationship.pattern, Relationship.revalue, Property.mapPattern_revalue, hempty]
  split_ifs <;> simp

theorem Relationship.arrow_revalue (r : Relationship) (d : Direction) :
    (r.revalue σ).arrow d = (r.arrow d).revalue σ := by
  simp [Relationship.arrow, Relationship.pattern_revalue]

theorem Triple.pattern_revalue (t : Triple) : (t.revalue σ).pattern = t.pattern.revalue σ := by
  simp [Triple.pattern, Triple.revalue, Triple.map, Node.pattern_revalue,
    Relationship.arrow_revalue]

/-! ## Walks -/

/-- The hop with new values. -/
def Hop.revalue (hop : Hop) : Hop := ⟨hop.edge.revalue σ, hop.direction, hop.node.revalue σ⟩

/-- The walk with new values. -/
def Walk.revalue (w : Walk) : Walk := ⟨w.first.revalue σ, w.hops.map (.revalue σ)⟩

namespace Walk

theorem last_revalue (w : Walk) : (w.revalue σ).last = w.last.revalue σ := by
  obtain ⟨first, hops⟩ := w
  show lastAfter (first.revalue σ) (hops.map (.revalue σ)) = (lastAfter first hops).revalue σ
  induction hops generalizing first with
  | nil => rfl
  | cons hop rest ih => exact ih hop.node

/-- Walks are lengthened by variables. -/
theorem extend?_revalue (w : Walk) (t : Triple) :
    (w.revalue σ).extend? (t.revalue σ) = (w.extend? t).map (.revalue σ) := by
  have hend : ∀ n m : Node, (n.revalue σ).sameEndpoint (m.revalue σ) = n.sameEndpoint m :=
    fun _ _ => rfl
  have happend : ∀ (edge : Relationship) (d : Direction) (node : Node),
      (w.revalue σ).append (edge.revalue σ) d (node.revalue σ)
        = (w.append edge d node).revalue σ := by
    intro edge d node
    simp [append, revalue, Hop.revalue]
  have hsource : (t.revalue σ).source = t.source.revalue σ := rfl
  have hedge : (t.revalue σ).edge = t.edge.revalue σ := rfl
  have htarget : (t.revalue σ).target = t.target.revalue σ := rfl
  have hfirst : (w.revalue σ).first = w.first.revalue σ := rfl
  rw [extend?, extend?, hsource, hedge, htarget, hfirst, last_revalue, hend, hend, hend, hend,
    happend, happend]
  split_ifs <;> rfl

theorem gather_revalue (w : Walk) (triples : List Triple) :
    gather (w.revalue σ) (triples.map (.revalue σ)) = (gather w triples).map (.revalue σ) := by
  induction triples generalizing w with
  | nil => rfl
  | cons t rest ih =>
      rw [List.map_cons, gather, gather, extend?_revalue]
      cases w.extend? t with
      | some w' => exact ih w'
      | none =>
          rw [List.map_cons, ← ih]
          rfl

theorem pattern_revalue (w : Walk) : (w.revalue σ).pattern = w.pattern.revalue σ := by
  have hhops : ∀ hops : List Hop, (hops.map (Hop.revalue σ)).flatMap Hop.pattern
      = Phrase.revalue σ (hops.flatMap Hop.pattern) := by
    intro hops
    induction hops with
    | nil => rfl
    | cons hop rest ih =>
        rw [List.map_cons, List.flatMap_cons, List.flatMap_cons, Phrase.revalue_append, ih,
          Hop.pattern, Hop.pattern, Phrase.revalue_append, ← Relationship.arrow_revalue,
          ← Node.pattern_revalue]
        rfl
  rw [pattern, pattern, Phrase.revalue_append, ← hhops, ← Node.pattern_revalue]
  rfl

end Walk

theorem Path.walks_revalue (g : Path) : (g.revalue σ).walks = g.walks.map (.revalue σ) := by
  obtain ⟨var, triples⟩ := g
  cases triples with
  | nil => rfl
  | cons t rest => exact Walk.gather_revalue σ (.ofTriple t) rest

theorem Path.pattern_revalue (g : Path) : (g.revalue σ).pattern = g.pattern.revalue σ := by
  have hwalks : (g.walks.map (Walk.revalue σ)).map Walk.pattern
      = (g.walks.map Walk.pattern).map (.revalue σ) := by
    rw [List.map_map, List.map_map]
    exact List.map_congr_left fun w _ => w.pattern_revalue σ
  rw [Path.pattern, Path.pattern, Path.walks_revalue, Phrase.revalue_joined, hwalks]

/-! ## Places -/

namespace Entity

theorem items_revalue (e : Entity) : (e.revalue σ).items = e.items := by
  cases e with
  | property p => exact congrArg Option.toList (p.item?_revalue σ)
  | path g =>
      show (Entity.path (g.revalue σ)).nodes.filterMap Node.item? = g.nodes.filterMap Node.item?
      rw [show Entity.path (g.revalue σ) = (Entity.path g).revalue σ from rfl, nodes_revalue,
        List.filterMap_map]
      rfl
  | node => rfl
  | relationship => rfl
  | triple => rfl

/-- An entity with new values is written with these in its slots. -/
theorem phrases_revalue (e : Entity) (place : Place) :
    (e.revalue σ).phrases place = (e.phrases place).map (.revalue σ) := by
  cases place with
  | item =>
      rw [phrases, phrases, items_revalue, List.map_map]
      rfl
  | pattern =>
      cases e with
      | node n => exact congrArg (fun phrase => [phrase]) (n.pattern_revalue σ)
      | relationship r => exact congrArg (fun phrase => [phrase]) (r.pattern_revalue σ)
      | triple t => exact congrArg (fun phrase => [phrase]) (t.pattern_revalue σ)
      | path g => exact congrArg (fun phrase => [phrase]) (g.pattern_revalue σ)
      | property p =>
          show (p.revalue σ).pattern?.toList = p.pattern?.toList.map (.revalue σ)
          rw [Property.pattern?_revalue]
          cases p.pattern? <;> rfl
  | condition =>
      cases e with
      | node n => exact Property.conditions_revalue σ n.props
      | relationship r => exact Property.conditions_revalue σ r.props
      | triple t => exact congrArg (fun phrase => [phrase]) (t.pattern_revalue σ)
      | path g => exact congrArg (fun phrase => [phrase]) (g.pattern_revalue σ)
      | property p =>
          show (p.revalue σ).condition?.toList = p.condition?.toList.map (.revalue σ)
          rw [Property.condition?_revalue]
          cases p.condition? <;> rfl

end Entity

end Entities

/-! ## Terms -/

namespace Term

variable (σ : String → Option String)

mutual

/-- The term with new values. -/
def revalue : Term → Term
  | entity e => entity (e.revalue σ)
  | apply kind args asName => apply kind (revalueAll args) asName
  | raw text => raw text

/-- The terms of a list with new values. -/
def revalueAll : List Term → List Term
  | [] => []
  | t :: rest => revalue t :: revalueAll rest

end

theorem revalueAll_eq_map (terms : List Term) : revalueAll σ terms = terms.map (revalue σ) := by
  induction terms with
  | nil => rfl
  | cons t rest ih => rw [revalueAll, List.map_cons, ih]

mutual

/-- A term with new values is written with these in its slots. -/
theorem phrases_revalue (t : Term) (place : Place) :
    (t.revalue σ).phrases place = (t.phrases place).map (.revalue σ) := by
  cases t with
  | entity e => exact e.phrases_revalue σ place
  | apply kind args asName =>
      rw [revalue, phrases, phrases, allPhrases_revalue args kind.place, List.map_singleton]
      unfold FuncKind.around
      rw [Phrase.revalue_verbatim, Phrase.revalue_append, Phrase.revalue_joined,
        Phrase.revalue_verbatim, Phrase.revalue_nil]
  | raw text => rfl

/-- The same for a list of terms. -/
theorem allPhrases_revalue (terms : List Term) (place : Place) :
    allPhrases (revalueAll σ terms) place = (allPhrases terms place).map (.revalue σ) := by
  cases terms with
  | nil => rfl
  | cons t rest =>
      rw [revalueAll, allPhrases, allPhrases, List.map_append, phrases_revalue t place,
        allPhrases_revalue rest place]

end

end Term

end CypherRoutes
