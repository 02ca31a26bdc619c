/-
# What returned items say

A compiled statement returns at least one item. An item names the variable of the member that it
stands for, or is `*`, in both modes and inside every function, with one exception: the connectives
write the conditions of a member, and a member whose properties have no value has none
(`RouteTable.worded_of_compile`).
-/
import CypherRoutes.Proofs.Cypher.Texts
import CypherRoutes.Proofs.Route.Scope
import CypherRoutes.Text.Blank

namespace CypherRoutes

/-! ## Words of a text -/

/-- A text with a character that is not blank. -/
def IsVisible (text : String) : Prop := ∃ c ∈ text.toList, isBlank c = false

/-- A text names a word: it holds the word, and not as a part of a longer name. -/
def Names (text word : String) : Prop :=
  ∃ before after, text.toList = before ++ (word.toList ++ after) ∧ EndsName before.reverse ∧
    EndsName after

/-- A text that names a visible word is visible. -/
theorem Names.isVisible {text word : String} (h : Names text word) (hword : IsVisible word) :
    IsVisible text := by
  obtain ⟨before, after, htext, -, -⟩ := h
  obtain ⟨c, hc, hblank⟩ := hword
  exact ⟨c, htext ▸ List.mem_append_right _ (List.mem_append_left _ hc), hblank⟩

/-- The variables of nodes and relationships are visible. -/
theorem Numbering.isVisible_varName {letter : Char} (h : isBlank letter = false) (i : Nat) :
    IsVisible (varName letter i) := by
  refine ⟨letter, ?_, h⟩
  rw [varName, String.toList_ofList]
  exact List.mem_cons_self

/-! ## Phrases that open with a word -/

namespace Phrase

variable {word : String}

/-- A phrase opens with a word: in both modes the word ends where the text goes on. -/
def Opens (word : String) (phrase : Phrase) : Prop :=
  ∀ mode, ∃ after, (phrase.text mode).toList = word.toList ++ after ∧ EndsName after

/-- It names the word then. -/
theorem Opens.names {phrase : Phrase} (h : phrase.Opens word) (mode : Mode) :
    Names (phrase.text mode) word := by
  obtain ⟨after, htext, hafter⟩ := h mode
  exact ⟨[], after, htext, endsName_nil, hafter⟩

/-- It opens with the word still if something that ends a name is put behind it. -/
theorem Opens.append {a b : Phrase} (h : a.Opens word)
    (hb : ∀ mode, EndsName (b.text mode).toList) : (a ++ b).Opens word := by
  intro mode
  obtain ⟨after, htext, hafter⟩ := h mode
  refine ⟨after ++ (b.text mode).toList, ?_, hafter.append (hb mode)⟩
  rw [text_append, String.toList_append, htext, List.append_assoc]

/-- The first of joined phrases opens them. -/
theorem Opens.joined {separator : String} (hends : EndsName separator.toList)
    (hne : separator.toList ≠ []) {first : Phrase} (h : first.Opens word) (rest : List Phrase) :
    (Phrase.joined separator (first :: rest)).Opens word := by
  cases rest with
  | nil =>
      rw [Phrase.joined, List.intercalate_singleton]
      exact h
  | cons second rest =>
      rw [Phrase.joined, List.intercalate_cons_cons, List.append_assoc]
      refine h.append fun mode => ?_
      rw [text_append, ofText, text_verbatim, String.toList_append]
      exact hends.append_of_ne_nil hne _

/-- A text that is the word opens with it. -/
theorem opens_ofText (word : String) : (ofText word).Opens word :=
  fun mode => ⟨[], by rw [ofText, text_verbatim, List.append_nil], endsName_nil⟩

/-- What is written about a variable opens with it. -/
theorem About.opens {v : String} {phrase : Phrase} (h : phrase.About v) : phrase.Opens v := by
  intro mode
  cases h with
  | item asName =>
      cases asName with
      | none => exact opens_ofText v mode
      | some name =>
          refine ⟨(" as " ++ name).toList, ?_, ?_⟩
          · rw [ofText, text_verbatim, itemText, String.append_assoc, String.toList_append]
          · rw [String.toList_append]
            exact endsName_cons (by decide) _
  | condition handle var value =>
      refine ⟨("." ++ handle ++ " = ").toList ++ (Piece.text mode (.slot var value)).toList, ?_, ?_⟩
      · simp [text, Piece.text]
      · rw [String.append_assoc, String.toList_append]
        exact endsName_cons (by decide) _

end Phrase

/-! ## Inside functions -/

namespace FuncKind

/-- A function around something that opens with a word names the word. -/
theorem names_around (kind : FuncKind) (asName : Option String) {word : String} {first : Phrase}
    (h : first.Opens word) (rest : List Phrase) (mode : Mode) :
    Names ((kind.around asName (first :: rest)).text mode) word := by
  have hopening : EndsName kind.opening.toList.reverse := by cases kind <;> decide
  have hlist := h.joined kind.endsName_joiner.1 kind.endsName_joiner.2 rest
  obtain ⟨after, htext, hafter⟩ := hlist mode
  refine ⟨kind.opening.toList, after ++ (itemText kind.closing asName).toList, ?_, hopening,
    hafter.append (kind.endsName_closing asName)⟩
  rw [around_eq, Phrase.text_cons, Phrase.text_append, Phrase.text_verbatim, Piece.text,
    String.toList_append, String.toList_append, htext, List.append_assoc]

/-- A connective around nothing is its own text, under the name of the result. -/
theorem text_around_nil (kind : FuncKind) (h : kind.place = .condition) (asName : Option String)
    (mode : Mode) : (kind.around asName []).text mode = itemText kind.opening asName := by
  have hclosing : kind.closing = "" := by
    cases kind with
    | and => rfl
    | or => rfl
    | not => rfl
    | _ => cases h
  have hnil : Phrase.joined kind.joiner [] = [] := rfl
  rw [around_eq, hnil, List.nil_append, Phrase.text_cons, Phrase.text_verbatim, hclosing,
    Piece.text]
  cases asName with
  | none => exact String.append_empty
  | some name => rw [itemText, itemText, String.empty_append, String.append_assoc]

end FuncKind

/-! ## What terms are about -/

/-- A term is about a word: it is the node or the relationship of that variable, or the word is `*`,
perhaps inside functions. -/
inductive Term.About (word : String) : Term → Prop where
  | node {n : Node} : n.var = word → About word (.entity (.node n))
  | relationship {r : Relationship} : r.var = word → About word (.entity (.relationship r))
  | everything : word = "*" → About word (.raw "*")
  | apply {t : Term} (kind : FuncKind) (asName : Option String) : About word t →
      About word (.apply kind [t] asName)

/-- A hollow term: a connective around a member whose properties have no value. -/
inductive Term.Hollow (kind : FuncKind) (asName : Option String) : Term → Prop where
  | intro {e : Entity} : kind.place = .condition → e.params = [] →
      Hollow kind asName (.apply kind [.entity e] asName)

/-- Properties with an owner are written as conditions exactly if one of them has a value. -/
theorem Property.conditions_eq_nil_iff {props : List Property} {owner : String}
    (h : ∀ p ∈ props, p.owner = some owner) :
    props.filterMap condition? = [] ↔ props.flatMap params = [] := by
  rw [List.filterMap_eq_nil_iff, List.flatMap_eq_nil_iff]
  refine forall₂_congr fun p hp => ?_
  rw [condition?, assignment?, h p hp, params]
  cases p.value? with
  | none => simp
  | some value => simp

/-- What is known of a returned term before a function is put around it: it is about a visible word,
and whatever is written of it opens with the word. Nothing is written only where conditions stand,
of a member whose properties have no value. -/
structure Term.Speaks (word : String) (t : Term) : Prop where
  about : t.About word
  visible : IsVisible word
  bare : ∀ kind args asName, t ≠ .apply kind args asName
  opens : ∀ place, place ≠ .pattern → ∀ phrase ∈ t.phrases place, phrase.Opens word
  silent : ∀ place, place ≠ .pattern →
    (t.phrases place = [] ↔ place = .condition ∧ ∃ e, t = .entity e ∧ e.params = [])

/-- An entity speaks if whatever is written of it is about the word, it is an item, and it has a
condition exactly if it has a value. -/
theorem Entity.speaks_of_about {e : Entity} {word : String}
    (habout : Term.About word (.entity e)) (hvisible : IsVisible word)
    (hphrases : ∀ place, place ≠ .pattern → ∀ phrase ∈ e.phrases place, phrase.About word)
    (hconditions : e.conditions = [] ↔ e.params = []) (hitems : e.items ≠ []) :
    Term.Speaks word (.entity e) where
  about := habout
  visible := hvisible
  bare _ _ _ := Term.noConfusion
  opens place hplace phrase hphrase := (hphrases place hplace phrase hphrase).opens
  silent place hplace := by
    cases place with
    | pattern => exact absurd rfl hplace
    | condition =>
        refine hconditions.trans ⟨fun h => ⟨rfl, e, rfl, h⟩, ?_⟩
        rintro ⟨-, e', he, h⟩
        exact Term.entity.inj he ▸ h
    | item =>
        refine ⟨fun h => absurd (List.map_eq_nil_iff.mp h) hitems, ?_⟩
        rintro ⟨hplace, -⟩
        cases hplace

theorem Node.speaks {n : Node} (h : n.Tidy) : Term.Speaks n.var (.entity (.node n)) := by
  obtain ⟨i, hi⟩ := h.var
  refine Entity.speaks_of_about (.node rfl) (hi ▸ Numbering.isVisible_varName (by decide) i)
    (fun place hplace phrase => Node.about_phrases h hplace)
    (Property.conditions_eq_nil_iff h.owned) ?_
  rw [Entity.items, item?, h.shown, if_neg (by decide)]
  exact List.cons_ne_nil _ _

theorem Relationship.speaks {r : Relationship} (h : r.Tidy) :
    Term.Speaks r.var (.entity (.relationship r)) := by
  obtain ⟨i, hi⟩ := h.var
  refine Entity.speaks_of_about (.relationship rfl) (hi ▸ Numbering.isVisible_varName (by decide) i)
    (fun place hplace phrase => Relationship.about_phrases h hplace)
    (Property.conditions_eq_nil_iff h.owned) ?_
  rw [Entity.items, item?, h.shown, if_neg (by decide)]
  exact List.cons_ne_nil _ _

theorem Term.speaks_everything : Term.Speaks "*" (.raw "*") where
  about := .everything rfl
  visible := ⟨'*', by decide, by decide⟩
  bare _ _ _ := Term.noConfusion
  opens place _ phrase hphrase := by
    rw [List.mem_singleton.mp hphrase]
    exact Phrase.opens_ofText "*"
  silent place _ := by simp [Term.phrases]

/-- A word of an entity is `*` or the variable of a node or a relationship. -/
def Entity.HasWord (e : Entity) (word : String) : Prop :=
  word = "*" ∨ (∃ n ∈ e.nodeCopies, n.var = word) ∨ ∃ r ∈ e.edgeCopies, r.var = word

/-- What a route may return of a tidy entity is about one of its words. -/
theorem Entity.speaks_of_returnsUnder {e : Entity} (h : e.Tidy) {names : List String} {t : Term}
    (ht : e.ReturnsUnder names t) : ∃ word, e.HasWord word ∧ t.Speaks word := by
  rcases tidy_of_returnsUnder h ht with
    ⟨n, rfl, hn, m, hm, hvar⟩ | ⟨r, rfl, hr, q, hq, hvar⟩ | rfl
  · exact ⟨n.var, .inr (.inl ⟨m, hm, hvar⟩), Node.speaks hn⟩
  · exact ⟨r.var, .inr (.inr ⟨q, hq, hvar⟩), Relationship.speaks hr⟩
  · exact ⟨"*", .inl rfl, Term.speaks_everything⟩

/-! ## Returned items -/

/-- A connected entity has a node. -/
theorem Entity.IsConnected.nodes_ne_nil {e : Entity} (h : e.IsConnected) : e.nodes ≠ [] := by
  rcases h.shape with ⟨n, rfl⟩ | ⟨t, rfl⟩ | ⟨g, rfl, hne⟩
  · exact List.cons_ne_nil _ _
  · exact List.cons_ne_nil _ _
  · obtain ⟨t, ht⟩ := List.exists_mem_of_ne_nil _ hne
    obtain ⟨n, hn, -⟩ := exists_mem_nodes (e := .path g) (n := t.source)
      (List.mem_flatMap.mpr ⟨t, ht, t.source_mem_nodes⟩)
    exact List.ne_nil_of_mem hn

/-- What is returned of a connected entity is something. -/
theorem ReturnSpec.ne_nil_of_resolve {ret : ReturnSpec} {entity : Entity}
    (hconnected : entity.IsConnected) {unlabelled : Option String} {func : Option FuncSpec}
    {token : String} {terms : List Term} {func' : Option FuncSpec} {pathId : Option String}
    (h : ret.resolve entity unlabelled func token = .ok (terms, func', pathId)) : terms ≠ [] := by
  rcases resolve_eq_ok h with
    ⟨-, rfl, -⟩ | ⟨name, -, -, hne, -⟩ | ⟨nodes, edges, own, -, -, hne, -⟩
  · have hnodes := hconnected.nodes_ne_nil
    rcases hconnected.shape with ⟨n, rfl⟩ | ⟨t, rfl⟩ | ⟨g, rfl, -⟩
    · exact List.cons_ne_nil _ _
    · exact List.map_eq_nil_iff.not.mpr hnodes
    · exact List.map_eq_nil_iff.not.mpr hnodes
  · exact hne
  · exact hne

/-- A worded item: in both modes one of its phrases is visible and names the word. -/
def Term.Worded (word : String) (item : Term) : Prop :=
  ∃ phrase ∈ item.phrases .item, ∀ mode,
    IsVisible (phrase.text mode) ∧ Names (phrase.text mode) word

/-- A function of one term is written as the function around the phrases of the term. -/
theorem Term.phrases_apply (kind : FuncKind) (t : Term) (asName : Option String) :
    (Term.apply kind [t] asName).phrases .item = [kind.around asName (t.phrases kind.place)] := by
  rw [phrases, allPhrases, allPhrases, List.append_nil]

namespace Term.Speaks

variable {word : String} {t : Term}

/-- A term by itself is worded. -/
theorem worded (h : t.Speaks word) : t.Worded word := by
  have hne : t.phrases .item ≠ [] := fun hnil =>
    absurd ((h.silent .item (by decide)).mp hnil).1 (by decide)
  obtain ⟨phrase, hphrase⟩ := List.exists_mem_of_ne_nil _ hne
  have hnames := (h.opens .item (by decide) phrase hphrase).names
  exact ⟨phrase, hphrase, fun mode => ⟨(hnames mode).isVisible h.visible, hnames mode⟩⟩

/-- So is a function of the term, unless it is hollow. -/
theorem worded_apply (h : t.Speaks word) {kind : FuncKind} {asName : Option String}
    (hsolid : ¬ Hollow kind asName (.apply kind [t] asName)) :
    (Term.apply kind [t] asName).Worded word := by
  have hplace := kind.place_ne_pattern
  have hne : t.phrases kind.place ≠ [] := by
    intro hnil
    obtain ⟨hcondition, e, rfl, hparams⟩ := (h.silent kind.place hplace).mp hnil
    exact hsolid (.intro hcondition hparams)
  obtain ⟨first, rest, hphrases⟩ := List.exists_cons_of_ne_nil hne
  have hfirst : first.Opens word :=
    h.opens kind.place hplace first (hphrases ▸ List.mem_cons_self)
  refine ⟨kind.around asName (first :: rest), ?_, fun mode => ?_⟩
  · rw [phrases_apply, hphrases]
    exact List.mem_singleton_self _
  · have hnames := kind.names_around asName hfirst rest mode
    exact ⟨hnames.isVisible h.visible, hnames⟩

/-- A hollow function of the term is written as the function around nothing. -/
theorem text_of_hollow (h : t.Speaks word) {kind : FuncKind} {asName : Option String}
    (hhollow : Hollow kind asName (.apply kind [t] asName)) (mode : Mode) :
    ((Term.apply kind [t] asName).phrases .item).map (Phrase.text mode)
      = [itemText kind.opening asName] := by
  cases hhollow with
  | @intro e hcondition hparams =>
      have hnil := (h.silent kind.place kind.place_ne_pattern).mpr ⟨hcondition, e, rfl, hparams⟩
      rw [phrases_apply, hnil, List.map_singleton, kind.text_around_nil hcondition]

end Term.Speaks

/-- What a returned item says of an entity: it is about a word of the entity and is worded, unless
it is hollow; then it says nothing but the function and the name of its result. -/
structure Term.Says (e : Entity) (item : Term) (word : String) : Prop where
  hasWord : e.HasWord word
  about : item.About word
  worded : (∀ kind asName, ¬ item.Hollow kind asName) → item.Worded word
  hollow : ∀ kind asName, item.Hollow kind asName → ∀ mode,
    (item.phrases .item).map (Phrase.text mode) = [itemText kind.opening asName]

/-- A function around terms lets each of them say what it says. -/
theorem Term.says_wrap {e : Entity} {terms : List Term}
    (h : ∀ t ∈ terms, ∃ word, e.HasWord word ∧ t.Speaks word) (func : Option FuncSpec) :
    ∀ item ∈ FuncSpec.wrap func terms, ∃ word, item.Says e word := by
  intro item hitem
  cases func with
  | none =>
      obtain ⟨word, hword, hspeaks⟩ := h item hitem
      refine ⟨word, hword, hspeaks.about, fun _ => hspeaks.worded, fun kind asName hhollow => ?_⟩
      cases hhollow with
      | intro => exact absurd rfl (hspeaks.bare _ _ _)
  | some spec =>
      obtain ⟨t, ht, rfl⟩ := List.mem_map.mp hitem
      obtain ⟨word, hword, hspeaks⟩ := h t ht
      refine ⟨word, hword, .apply _ _ hspeaks.about,
        fun hsolid => hspeaks.worded_apply (hsolid _ _), fun kind asName hhollow => ?_⟩
      cases hhollow with
      | intro hcondition hparams => exact hspeaks.text_of_hollow (.intro hcondition hparams)

/-! ## Compiled requests -/

namespace RouteTable

/-- A compiled statement returns at least one item. Each item is about `*`, or about the variable of
a node or a relationship of the matched entity, perhaps inside the function of the step or of the
return block; and in both modes one of its phrases is visible and names that word. Only a connective
around a member without a valued property does not: it is written as the connective alone. -/
theorem worded_of_compile {table : RouteTable} {options : StatementOptions}
    {tokens : List String} {c : Compiled} (h : table.compile options tokens = .ok c) :
    ∃ entity items, c.statement.clauses = [.matching [.entity entity], .returning items] ∧
      items ≠ [] ∧ ∀ item ∈ items, ∃ word, item.Says entity word := by
  obtain ⟨visits, v, trail, -, hfollow, hfinish⟩ := compile_eq_ok_iff.mp h
  obtain ⟨ret, entity, terms, func, pathId, -, hentity, hresolve, rfl⟩ :=
    Trail.finish_eq_ok_iff.mp hfinish
  have hreached := Trail.reachedBy_of_followVisits hfollow hentity
  have hspeaks : ∀ t ∈ terms, ∃ word, entity.HasWord word ∧ t.Speaks word := fun t ht =>
    Entity.speaks_of_returnsUnder hreached.tidy (ReturnSpec.returnsUnder_resolve hresolve t ht)
  refine ⟨entity, FuncSpec.wrap func terms, rfl, ?_, fun item hitem => ?_⟩
  · have hterms := ReturnSpec.ne_nil_of_resolve hreached.connected hresolve
    cases func with
    | none => exact hterms
    | some spec => exact List.map_eq_nil_iff.not.mpr hterms
  · exact Term.says_wrap hspeaks func item hitem

/-- The table of `/a/b`, which returns a node with a valued property and a relationship without
one, both inside a connective. -/
def halfHollow : RouteTable where
  root := ⟨[("a", ⟨{ node := some (.block "A" (some (.fixed "k" (.string "v")))) },
    ⟨[("b", ⟨{ node := some (.label "B")
               edge := some ⟨"r", .right, none⟩
               ret := some (.select [⟨"A", none⟩] [⟨"r", none⟩] (some ⟨.or, some "x"⟩) none) },
      .empty⟩)], none⟩⟩)], none⟩

/-- The first item names the node, and the second is the connective alone. -/
theorem worded_of_compile_halfHollow :
    ∃ c, halfHollow.compile {} ["a", "b"] = .ok c ∧
      c.statement.textIn .parameterized =
        "MATCH (n0:A \x7bk:$p0\x7d)-[r0:r]->(n1:B) RETURN n0.k = $p0 as x,  as x" ∧
      ∃ entity items, c.statement.clauses = [.matching [.entity entity], .returning items] ∧
        items ≠ [] ∧ ∀ item ∈ items, ∃ word, item.Says entity word := by
  obtain ⟨c, hc, htext⟩ := exists_ok_of_observed
    (f := fun c : Compiled => c.statement.textIn .parameterized)
    (b := "MATCH (n0:A \x7bk:$p0\x7d)-[r0:r]->(n1:B) RETURN n0.k = $p0 as x,  as x")
    (x := halfHollow.compile {} ["a", "b"]) (by decide +kernel)
  exact ⟨c, hc, htext, worded_of_compile hc⟩

/-- The table of `/a`, which returns a node inside a connective. -/
def hollow : RouteTable where
  root := ⟨[("a", ⟨{ node := some (.label "A"), ret := some .items, func := some ⟨.and, none⟩ },
    .empty⟩)], none⟩

/-- Its only item is written as nothing in both modes, and the statement ends behind `RETURN`. -/
theorem wordless_hollow :
    ∃ c item phrase, hollow.compile {} ["a"] = .ok c ∧
      c.statement.clauses.getLast? = some (.returning [item]) ∧ item.phrases .item = [phrase] ∧
      (∀ mode, phrase.text mode = "") ∧
      c.statement.text = "MATCH (n0:A) RETURN " := by
  refine ⟨_, _, _, rfl, rfl, rfl, fun mode => ?_, by decide +kernel⟩
  cases mode <;> decide +kernel

end RouteTable

end CypherRoutes
