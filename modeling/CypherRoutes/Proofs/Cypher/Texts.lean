/-
# The texts of a statement

Besides values a statement writes variables, and texts that stand as they were given: labels,
types, handles, owners, names of returned items, and raw text. If the variables are names and the
texts are inert, then the statement is legible (`Statement.legible_phrase`): in each place a value
is followed by the end or by a character that ends the name of its variable.
-/
import CypherRoutes.Proofs.Cypher.Legible
import CypherRoutes.Proofs.Graph.All

namespace CypherRoutes

/-! ## Given texts -/

/-- The handle of a property, its name among returned items and its owner. -/
def Property.texts (p : Property) : List String :=
  p.handle :: (p.asName.toList ++ p.owner.toList)

/-- The label of a node and its name among returned items. -/
def Node.texts (n : Node) : List String := n.label.toList ++ n.asName.toList

/-- The type of a relationship and its name among returned items. -/
def Relationship.texts (r : Relationship) : List String := r.kind.toList ++ r.asName.toList

/-- The texts of all nodes, relationships and properties in an entity. -/
def Entity.texts (e : Entity) : List String :=
  e.nodeCopies.flatMap Node.texts ++ e.edgeCopies.flatMap Relationship.texts ++
    e.props.flatMap Property.texts

namespace Term

mutual

/-- What a term says besides its entities: the names of functions' results, and raw text. -/
def bareTexts : Term → List String
  | entity _ => []
  | apply _ args asName => allBareTexts args ++ asName.toList
  | raw text => [text]

/-- What a list of terms says besides their entities. -/
def allBareTexts : List Term → List String
  | [] => []
  | t :: rest => bareTexts t ++ allBareTexts rest

end

end Term

/-- The label or the handle that is removed. -/
def Removal.name : Removal → String
  | label name => name
  | property handle => handle

namespace Clause

/-- The terms of a clause, the target of a REMOVE clause included. -/
def terms : Clause → List Term
  | matching terms => terms
  | optionalMatching terms => terms
  | create terms => terms
  | merge terms => terms
  | filter _ terms => terms
  | assign _ terms => terms
  | onCreateSet terms => terms
  | onMatchSet terms => terms
  | remove target _ => [target]
  | returning terms => terms
  | passing terms => terms
  | unwind terms => terms
  | raw _ => []

/-- What a clause says itself: the name that it removes, or raw text. -/
def ownTexts : Clause → List String
  | remove _ removal => [removal.name]
  | raw text => [text]
  | _ => []

/-- What a clause says besides the entities of its terms. -/
def bareTexts (c : Clause) : List String := Term.allBareTexts c.terms ++ c.ownTexts

end Clause

namespace Statement

/-- The entities in the terms of a statement. -/
def entities (s : Statement) : List Entity := s.clauses.flatMap fun c => Term.allEntities c.terms

/-- All texts that a statement was given. -/
def texts (s : Statement) : List String :=
  s.entities.flatMap Entity.texts ++ s.clauses.flatMap Clause.bareTexts

end Statement

/-! ## Inert entities -/

/-- A property whose variable is a name, and whose texts are inert. -/
structure Property.Inert (p : Property) : Prop where
  var : IsName p.var
  texts : ∀ text ∈ p.texts, IsInert text

/-- The same of a node and its properties. -/
structure Node.Inert (n : Node) : Prop where
  var : IsName n.var
  texts : ∀ text ∈ n.texts, IsInert text
  props : ∀ p ∈ n.props, p.Inert

/-- The same of a relationship and its properties. -/
structure Relationship.Inert (r : Relationship) : Prop where
  var : IsName r.var
  texts : ∀ text ∈ r.texts, IsInert text
  props : ∀ p ∈ r.props, p.Inert

/-- The same of everything in an entity. -/
def Entity.Inert (e : Entity) : Prop := e.All Node.Inert Relationship.Inert Property.Inert

/-- An entity is inert if its variables are names and its texts are inert. -/
theorem Entity.inert_of_texts {e : Entity} (hvars : ∀ v ∈ e.vars, IsName v)
    (htexts : ∀ text ∈ e.texts, IsInert text) : e.Inert := by
  rw [texts, List.forall_mem_append, List.forall_mem_append] at htexts
  have hprops : ∀ p ∈ e.props, p.Inert := fun p hp =>
    ⟨hvars _ (var_mem_vars_of_prop hp), fun text ht =>
      htexts.2 text (List.mem_flatMap.mpr ⟨p, hp, ht⟩)⟩
  constructor
  · intro n hn
    refine ⟨hvars _ (var_mem_vars_of_node hn), fun text ht => ?_, fun p hp =>
      hprops p (mem_props_of_mem_nodeCopies hn hp)⟩
    exact htexts.1.1 text (List.mem_flatMap.mpr ⟨n, hn, ht⟩)
  · intro r hr
    refine ⟨hvars _ (var_mem_vars_of_edge hr), fun text ht => ?_, fun p hp =>
      hprops p (mem_props_of_mem_edgeCopies hr hp)⟩
    exact htexts.1.2 text (List.mem_flatMap.mpr ⟨r, hr, ht⟩)
  · intro p hp
    exact hprops p (mem_props_iff.mpr (.inr (.inr hp)))

/-! ## Properties -/

theorem isInert_itemText {item : String} (hitem : IsInert item) {asName : Option String}
    (hname : ∀ name ∈ asName.toList, IsInert name) : IsInert (itemText item asName) := by
  cases asName with
  | none => exact hitem
  | some name =>
      have has : IsInert " as " := by decide
      exact isInert_append.mpr ⟨isInert_append.mpr ⟨hitem, has⟩,
        hname name (List.mem_singleton_self name)⟩

namespace Property

variable {p : Property}

theorem Inert.handle (h : p.Inert) : IsInert p.handle := h.texts _ List.mem_cons_self

theorem Inert.owner (h : p.Inert) {owner : String} (ho : p.owner = some owner) :
    IsInert owner :=
  h.texts _ (List.mem_cons_of_mem _ (List.mem_append_right _ (by simp [ho])))

/-- A value stands at the end of `handle:value`. -/
theorem Inert.legible_pattern? (h : p.Inert) : ∀ phrase ∈ p.pattern?, phrase.Legible := by
  intro phrase hphrase
  obtain ⟨value, -, rfl⟩ := Option.map_eq_some_iff.mp hphrase
  have hcolon : IsInert ":" := by decide
  exact .verbatim (isInert_append.mpr ⟨h.handle, hcolon⟩) (.slot value h.var endsName_nil .nil)

/-- A value stands at the end of an assignment. -/
theorem Inert.legible_assignment? (h : p.Inert) {op : String} (hop : IsInert op) :
    ∀ phrase ∈ p.assignment? op, phrase.Legible := by
  intro phrase hphrase
  rw [Option.mem_def, assignment?] at hphrase
  obtain ⟨owner, howner, hphrase⟩ := Option.bind_eq_some_iff.mp hphrase
  obtain ⟨value, -, hphrase⟩ := Option.bind_eq_some_iff.mp hphrase
  obtain rfl := Option.some.inj hphrase
  have hdot : IsInert "." := by decide
  have hblank : IsInert " " := by decide
  refine .verbatim ?_ (.slot value h.var endsName_nil .nil)
  simp only [isInert_append]
  exact ⟨⟨⟨⟨⟨h.owner howner, hdot⟩, h.handle⟩, hblank⟩, hop⟩, hblank⟩

theorem Inert.isInert_item? (h : p.Inert) : ∀ item ∈ p.item?, IsInert item := by
  intro item hitem
  obtain ⟨owner, howner, rfl⟩ := Option.map_eq_some_iff.mp hitem
  have hdot : IsInert "." := by decide
  refine isInert_itemText ?_ fun name hname =>
    h.texts name (List.mem_cons_of_mem _ (List.mem_append_left _ hname))
  exact isInert_append.mpr ⟨isInert_append.mpr ⟨h.owner howner, hdot⟩, h.handle⟩

/-- The conditions of inert properties are legible. -/
theorem legible_conditions {props : List Property} (h : ∀ p ∈ props, p.Inert) :
    ∀ phrase ∈ props.filterMap condition?, phrase.Legible := by
  intro phrase hphrase
  obtain ⟨p, hp, hcondition⟩ := List.mem_filterMap.mp hphrase
  exact (h p hp).legible_assignment? (by decide) phrase hcondition

/-- In a map a comma or the closing brace follows a value. -/
theorem separate_mapPattern {props : List Property} (h : ∀ p ∈ props, p.Inert) :
    (mapPattern props).Separate := by
  have hentries : ∀ entry ∈ props.filterMap pattern?, entry.Legible := by
    intro entry hentry
    obtain ⟨p, hp, hpattern⟩ := List.mem_filterMap.mp hentry
    exact (h p hp).legible_pattern? entry hpattern
  rw [mapPattern]
  generalize props.filterMap pattern? = entries at hentries
  cases entries with
  | nil => exact .nil
  | cons entry rest =>
      have hclose : Phrase.Separate [.verbatim "\x7d"] :=
        .verbatim (by decide) (by decide) (by decide) .nil
      have hlist : (Phrase.joined "," (entry :: rest)).Legible :=
        .joined (by decide) (by decide) (by decide) hentries
      exact .verbatim (by decide) (by decide) (by decide)
        (hlist.append hclose.legible hclose.ends)

end Property

/-! ## Nodes and relationships -/

theorem isInert_headText {anonymous : Bool} {var : String} (hvar : IsInert var)
    {label : Option String} (hlabel : ∀ text ∈ label.toList, IsInert text) :
    IsInert (headText anonymous var label) := by
  refine isInert_append.mpr ⟨?_, ?_⟩
  · cases anonymous with
    | true => exact (by decide : IsInert "")
    | false => exact hvar
  · cases label with
    | none => exact (by decide : IsInert "")
    | some text =>
        have hcolon : IsInert ":" := by decide
        exact isInert_append.mpr ⟨hcolon, hlabel text (List.mem_singleton_self text)⟩

namespace Node

variable {n : Node}

/-- A node begins with a parenthesis. -/
theorem Inert.separate_pattern (h : n.Inert) : n.pattern.Separate := by
  have hhead : IsInert (headText n.anonymous n.var n.label) :=
    isInert_headText h.var.isInert fun text ht => h.texts text (List.mem_append_left _ ht)
  have hclose : Phrase.Separate [.verbatim ")"] :=
    .verbatim (by decide) (by decide) (by decide) .nil
  have hmap := Property.separate_mapPattern h.props
  exact .verbatim_append (by decide) (by decide) (by decide) hhead (hmap.append hclose).legible

theorem Inert.isInert_item? (h : n.Inert) : ∀ item ∈ n.item?, IsInert item := by
  intro item hitem
  rw [Option.mem_def, item?] at hitem
  split_ifs at hitem
  obtain rfl := Option.some.inj hitem
  exact isInert_itemText h.var.isInert fun name hname =>
    h.texts name (List.mem_append_right _ hname)

end Node

namespace Relationship

variable {r : Relationship}

/-- A relationship begins with a dash. -/
theorem Inert.separate_pattern (h : r.Inert) : r.pattern.Separate := by
  have hhead : IsInert (headText r.anonymous r.var r.kind) :=
    isInert_headText h.var.isInert fun text ht => h.texts text (List.mem_append_left _ ht)
  have hclose : Phrase.Separate [.verbatim "]-"] :=
    .verbatim (by decide) (by decide) (by decide) .nil
  have hmap := Property.separate_mapPattern h.props
  rw [pattern]
  split_ifs
  · exact .verbatim (by decide) (by decide) (by decide) .nil
  · exact .verbatim_append (by decide) (by decide) (by decide) hhead (hmap.append hclose).legible

theorem Inert.separate_arrow (h : r.Inert) (d : Direction) : (r.arrow d).Separate := by
  have hends : ∀ text : String, IsInert text → EndsName text.toList →
      Phrase.Separate [.verbatim text] := by
    intro text hinert htext
    refine ⟨.ofText hinert, ?_⟩
    rw [Phrase.text_verbatim]
    exact htext
  have hhead : Phrase.Separate [.verbatim d.head] := by
    cases d <;> exact hends _ (by decide) (by decide)
  have hpoint : Phrase.Separate [.verbatim d.point] := by
    cases d <;> exact hends _ (by decide) (by decide)
  exact hhead.append (h.separate_pattern.append hpoint)

theorem Inert.isInert_item? (h : r.Inert) : ∀ item ∈ r.item?, IsInert item := by
  intro item hitem
  rw [Option.mem_def, item?] at hitem
  split_ifs at hitem
  obtain rfl := Option.some.inj hitem
  exact isInert_itemText h.var.isInert fun name hname =>
    h.texts name (List.mem_append_right _ hname)

end Relationship

/-! ## Triples and paths -/

/-- A walk over inert nodes and edges. -/
theorem Walk.separate_pattern {w : Walk} (hnodes : ∀ n ∈ w.nodes, n.Inert)
    (hedges : ∀ r ∈ w.edges, r.Inert) : w.pattern.Separate := by
  refine (hnodes w.first List.mem_cons_self).separate_pattern.append (.flatMap fun hop hhop => ?_)
  have hnode : hop.node.Inert := hnodes _ (List.mem_cons_of_mem _ (List.mem_map_of_mem hhop))
  have hedge : hop.edge.Inert := hedges _ (List.mem_map_of_mem hhop)
  exact (hedge.separate_arrow hop.direction).append hnode.separate_pattern

namespace Entity

variable {e : Entity}

theorem Inert.legible_triple {t : Triple} (h : (triple t).Inert) : t.pattern.Legible := by
  have hsource := h.source.separate_pattern
  have htarget := h.target.separate_pattern
  exact ((hsource.append (h.edge.separate_arrow .right)).append htarget).legible

/-- The walks of a path are made of its nodes and edges. -/
theorem All.ofWalk {P : Node → Prop} {Q : Relationship → Prop} {R : Property → Prop} {g : Path}
    (h : (path g).All P Q R) {w : Walk} (hw : w ∈ g.walks) :
    (∀ n ∈ w.nodes, P n) ∧ ∀ r ∈ w.edges, Q r :=
  ⟨fun n hn => h.nodes n (g.standsFor_walks.subset (List.mem_flatMap.mpr ⟨w, hw, hn⟩)),
    fun r hr => h.edges r (g.perm_edges_walks.mem_iff.mp (List.mem_flatMap.mpr ⟨w, hw, hr⟩))⟩

theorem Inert.legible_path {g : Path} (h : (path g).Inert) : g.pattern.Legible := by
  refine .joined (by decide) (by decide) (by decide) fun phrase hphrase => ?_
  obtain ⟨w, hw, rfl⟩ := List.mem_map.mp hphrase
  obtain ⟨hnodes, hedges⟩ := All.ofWalk h hw
  exact (Walk.separate_pattern hnodes hedges).legible

theorem Inert.isInert_items (h : e.Inert) : ∀ item ∈ e.items, IsInert item := by
  intro item hitem
  cases e with
  | node n => exact h.node.isInert_item? item (Option.mem_toList.mp hitem)
  | relationship r => exact h.relationship.isInert_item? item (Option.mem_toList.mp hitem)
  | property p => exact h.property.isInert_item? item (Option.mem_toList.mp hitem)
  | triple t =>
      obtain ⟨found, hfound, hid⟩ := List.mem_filterMap.mp hitem
      obtain rfl : found = some item := hid
      rcases List.mem_cons.mp hfound with hs | hfound
      · exact h.source.isInert_item? item hs.symm
      rcases List.mem_cons.mp hfound with hr | hfound
      · exact h.edge.isInert_item? item hr.symm
      · exact h.target.isInert_item? item (List.mem_singleton.mp hfound).symm
  | path g =>
      obtain ⟨n, hn, hfound⟩ := List.mem_filterMap.mp hitem
      exact (h.nodes n (mem_of_mem_distinctBy _ _ _ _ hn)).isInert_item? item hfound

/-- Wherever an inert entity is written, it is legible. -/
theorem Inert.legible_phrases (h : e.Inert) (place : Place) :
    ∀ phrase ∈ e.phrases place, phrase.Legible := by
  intro phrase hphrase
  cases place with
  | pattern =>
      cases e with
      | node n =>
          rw [List.mem_singleton.mp hphrase]
          exact h.node.separate_pattern.legible
      | relationship r =>
          rw [List.mem_singleton.mp hphrase]
          exact h.relationship.separate_pattern.legible
      | property p =>
          exact h.property.legible_pattern? phrase (Option.mem_toList.mp hphrase)
      | triple t => exact List.mem_singleton.mp hphrase ▸ h.legible_triple
      | path g => exact List.mem_singleton.mp hphrase ▸ h.legible_path
  | condition =>
      cases e with
      | node n => exact Property.legible_conditions h.node.props phrase hphrase
      | relationship r => exact Property.legible_conditions h.relationship.props phrase hphrase
      | property p =>
          exact h.property.legible_assignment? (by decide) phrase
            (Option.mem_toList.mp hphrase)
      | triple t => exact List.mem_singleton.mp hphrase ▸ h.legible_triple
      | path g => exact List.mem_singleton.mp hphrase ▸ h.legible_path
  | item =>
      obtain ⟨item, hitem, rfl⟩ := List.mem_map.mp hphrase
      exact .ofText (h.isInert_items item hitem)

end Entity

/-! ## Terms -/

namespace FuncKind

/-- Behind the arguments of a function stands its closing text, under the name of the result. -/
theorem around_eq (kind : FuncKind) (asName : Option String) (args : List Phrase) :
    kind.around asName args = .verbatim kind.opening ::
      (Phrase.joined kind.joiner args ++ [.verbatim (itemText kind.closing asName)]) := by
  unfold around
  cases asName with
  | none => rw [itemText, String.append_empty]
  | some name => rw [itemText, String.append_assoc]

/-- What stands between two arguments ends a name. -/
theorem endsName_joiner (kind : FuncKind) :
    EndsName kind.joiner.toList ∧ kind.joiner.toList ≠ [] := by
  cases kind <;> decide

/-- So does what stands behind them. -/
theorem endsName_closing (kind : FuncKind) (asName : Option String) :
    EndsName (itemText kind.closing asName).toList := by
  have hclosing : EndsName kind.closing.toList := by cases kind <;> decide
  cases asName with
  | none => exact hclosing
  | some name =>
      rw [itemText, String.append_assoc, String.toList_append, String.toList_append]
      exact hclosing.append (endsName_cons (by decide) _)

/-- A function around legible arguments is legible. -/
theorem legible_around (kind : FuncKind) {asName : Option String}
    (hname : ∀ name ∈ asName.toList, IsInert name) {args : List Phrase}
    (hargs : ∀ phrase ∈ args, phrase.Legible) : (kind.around asName args).Legible := by
  have hopening : IsInert kind.opening := by cases kind <;> decide
  have hclosing : IsInert kind.closing := by cases kind <;> decide
  have hjoiner : IsInert kind.joiner := by cases kind <;> decide
  have hlist := Phrase.Legible.joined hjoiner kind.endsName_joiner.1 kind.endsName_joiner.2 hargs
  rw [around_eq]
  refine .verbatim hopening (hlist.append (.ofText (isInert_itemText hclosing hname)) ?_)
  rw [Phrase.text_verbatim]
  exact kind.endsName_closing asName

end FuncKind

namespace Term

mutual

/-- A term with inert entities and texts is legible in every place. -/
theorem legible_phrases {t : Term} (hentities : ∀ e ∈ t.entities, e.Inert)
    (htexts : ∀ text ∈ t.bareTexts, IsInert text) (place : Place) :
    ∀ phrase ∈ t.phrases place, phrase.Legible := by
  intro phrase hphrase
  cases t with
  | entity e => exact (hentities e (List.mem_singleton_self e)).legible_phrases place phrase hphrase
  | apply kind args asName =>
      rw [List.mem_singleton.mp hphrase]
      have hargs : ∀ phrase ∈ allPhrases args kind.place, phrase.Legible :=
        legible_allPhrases hentities (fun text ht => htexts text (List.mem_append_left _ ht))
          kind.place
      exact kind.legible_around (fun name hn => htexts name (List.mem_append_right _ hn)) hargs
  | raw text =>
      rw [List.mem_singleton.mp hphrase]
      exact .ofText (htexts text (List.mem_singleton_self text))

/-- The same for a list of terms. -/
theorem legible_allPhrases {ts : List Term} (hentities : ∀ e ∈ allEntities ts, e.Inert)
    (htexts : ∀ text ∈ allBareTexts ts, IsInert text) (place : Place) :
    ∀ phrase ∈ allPhrases ts place, phrase.Legible := by
  intro phrase hphrase
  cases ts with
  | nil => exact absurd hphrase List.not_mem_nil
  | cons t rest =>
      rw [allEntities, List.forall_mem_append] at hentities
      rw [allBareTexts, List.forall_mem_append] at htexts
      rw [allPhrases, List.mem_append] at hphrase
      rcases hphrase with hphrase | hphrase
      · exact legible_phrases hentities.1 htexts.1 place phrase hphrase
      · exact legible_allPhrases hentities.2 htexts.2 place phrase hphrase

end

/-- The properties among the terms are entities of theirs. -/
theorem mem_allEntities_of_mem_properties {ts : List Term} {p : Property}
    (h : p ∈ ts.filterMap property?) : .property p ∈ allEntities ts := by
  induction ts with
  | nil => exact absurd h List.not_mem_nil
  | cons t rest ih =>
      rw [allEntities, List.mem_append]
      rw [List.filterMap_cons] at h
      cases t with
      | entity e =>
          cases e with
          | property q =>
              rcases List.mem_cons.mp h with rfl | h
              · exact .inl (List.mem_singleton_self _)
              · exact .inr (ih h)
          | node => exact .inr (ih h)
          | relationship => exact .inr (ih h)
          | triple => exact .inr (ih h)
          | path => exact .inr (ih h)
      | apply => exact .inr (ih h)
      | raw => exact .inr (ih h)

end Term

/-! ## Clauses and statements -/

namespace Clause

theorem legible_listing {keyword joiner : String} (hkeyword : IsInert keyword) {place : Place}
    (hjoiner : IsInert joiner ∧ EndsName joiner.toList ∧ joiner.toList ≠ []) {ts : List Term}
    (hentities : ∀ e ∈ Term.allEntities ts, e.Inert)
    (htexts : ∀ text ∈ Term.allBareTexts ts, IsInert text) :
    (listing keyword place joiner ts).Legible := by
  have hblank : IsInert " " := by decide
  exact .verbatim (isInert_append.mpr ⟨hkeyword, hblank⟩)
    (.joined hjoiner.1 hjoiner.2.1 hjoiner.2.2 (Term.legible_allPhrases hentities htexts place))

theorem legible_assignments {keyword op : String} (hkeyword : IsInert keyword) (hop : IsInert op)
    {ts : List Term} (hentities : ∀ e ∈ Term.allEntities ts, e.Inert) :
    (assignments keyword op ts).Legible := by
  have hblank : IsInert " " := by decide
  refine .verbatim (isInert_append.mpr ⟨hkeyword, hblank⟩)
    (.joined (by decide) (by decide) (by decide) fun phrase hphrase => ?_)
  obtain ⟨p, hp, hassignment⟩ := List.mem_filterMap.mp hphrase
  have hinert : p.Inert := (hentities _ (Term.mem_allEntities_of_mem_properties hp)).property
  exact hinert.legible_assignment? hop phrase hassignment

/-- A REMOVE clause goes on with a colon or a dot behind its target. -/
theorem legible_remove {target : Term} (hentities : ∀ e ∈ target.entities, e.Inert)
    (htexts : ∀ text ∈ target.bareTexts, IsInert text) {removal : Removal}
    (hname : IsInert removal.name) : (remove target removal).phrase.Legible := by
  have hremoval : Phrase.Separate [.verbatim removal.text] := by
    cases removal with
    | label name => exact .verbatim_append (by decide) (by decide) (by decide) hname .nil
    | property handle => exact .verbatim_append (by decide) (by decide) (by decide) hname .nil
  have htarget : ((target.phrases .item).headD []).Legible := by
    have hall := Term.legible_phrases hentities htexts .item
    generalize target.phrases .item = phrases at hall
    cases phrases with
    | nil => exact .nil
    | cons phrase rest => exact hall phrase List.mem_cons_self
  exact .verbatim (by decide) (htarget.append hremoval.legible hremoval.ends)

/-- A clause of inert entities and texts is legible. -/
theorem legible_phrase {c : Clause} (hentities : ∀ e ∈ Term.allEntities c.terms, e.Inert)
    (htexts : ∀ text ∈ c.bareTexts, IsInert text) : c.phrase.Legible := by
  rw [bareTexts, List.forall_mem_append] at htexts
  cases c with
  | matching ts => exact legible_listing (by decide) (by decide) hentities htexts.1
  | optionalMatching ts => exact legible_listing (by decide) (by decide) hentities htexts.1
  | create ts => exact legible_listing (by decide) (by decide) hentities htexts.1
  | merge ts => exact legible_listing (by decide) (by decide) hentities htexts.1
  | filter op ts =>
      exact legible_listing (by decide) (by cases op <;> decide) hentities htexts.1
  | assign update ts =>
      exact legible_assignments (by decide) (by cases update <;> decide) hentities
  | onCreateSet ts => exact legible_assignments (by decide) (by decide) hentities
  | onMatchSet ts => exact legible_assignments (by decide) (by decide) hentities
  | remove target removal =>
      refine legible_remove (fun e he => hentities e ?_) (fun text ht => htexts.1 text ?_)
        (htexts.2 _ (List.mem_singleton_self _))
      · simpa [terms, Term.allEntities] using he
      · simpa [terms, Term.allBareTexts] using ht
  | returning ts => exact legible_listing (by decide) (by decide) hentities htexts.1
  | passing ts => exact legible_listing (by decide) (by decide) hentities htexts.1
  | unwind ts => exact legible_listing (by decide) (by decide) hentities htexts.1
  | raw text => exact .ofText (htexts.2 text (List.mem_singleton_self text))

end Clause

/-- A statement of inert entities and texts is legible. -/
theorem Statement.legible_phrase {s : Statement} (hentities : ∀ e ∈ s.entities, e.Inert)
    (htexts : ∀ text ∈ s.clauses.flatMap Clause.bareTexts, IsInert text) : s.phrase.Legible := by
  have hclauses : ∀ phrase ∈ s.clauses.map Clause.phrase, phrase.Legible := by
    intro phrase hphrase
    obtain ⟨c, hc, rfl⟩ := List.mem_map.mp hphrase
    exact c.legible_phrase (fun e he => hentities e (List.mem_flatMap.mpr ⟨c, hc, he⟩))
      fun text ht => htexts text (List.mem_flatMap.mpr ⟨c, hc, ht⟩)
  have hlist : (Phrase.joined " " (s.clauses.map Clause.phrase)).Legible :=
    .joined (by decide) (by decide) (by decide) hclauses
  rw [phrase]
  split_ifs
  · have hend : Phrase.Separate [.verbatim ";"] :=
      .verbatim (by decide) (by decide) (by decide) .nil
    exact hlist.append hend.legible hend.ends
  · rwa [List.append_nil]

end CypherRoutes
