/-
# Connectives

Terms made of owned properties by And, Or, Not and Group, in which a list that is joined by a weaker
word than what is around it stands in a Group, are written without a loss of structure: the WHERE
clause of such terms has one reading, and this has the truth value of the terms, each property being
compared with its parameter where it is written among conditions. Group alone writes its argument as
an item: a property directly inside it is written without its comparison
(`Clause.reads_filter`).
-/
import CypherRoutes.Proofs.Cypher.Conditions
import CypherRoutes.Proofs.Cypher.Texts

namespace CypherRoutes

open Condition

/-! ## Boolean terms -/

/-- A property with a value and no name of its own, whose owner and handle are identifiers. -/
structure Property.Compared (p : Property) (owner : String) : Prop where
  owned : p.owner = some owner
  value : p.value?.isSome
  unnamed : p.asName = none
  identifier : IsName owner
  unreserved : keyword? owner = none
  handle : IsName p.handle
  var : IsName p.var

/-- What a property is read as in a place: it is compared in a condition, and alone as an item. -/
def Property.operand (p : Property) : Place → Operand
  | .condition => .comparison (p.owner.getD "") p.handle p.var
  | _ => .property (p.owner.getD "") p.handle

namespace Term

/-- The function at the top of a term. -/
def head? : Term → Option FuncKind
  | apply kind _ _ => some kind
  | _ => none

/-- Terms of compared properties: lists joined by And and Or are not empty, an Or below And or Not
and an And below Not stand in a Group, and nothing has a name. -/
inductive IsBoolean : Term → Prop where
  | property {p : Property} {owner : String} :
      p.Compared owner → IsBoolean (.entity (.property p))
  | and {args : List Term} : args ≠ [] → (∀ a ∈ args, IsBoolean a) →
      (∀ a ∈ args, a.head? ≠ some .or) → IsBoolean (.apply .and args none)
  | or {args : List Term} : args ≠ [] → (∀ a ∈ args, IsBoolean a) →
      IsBoolean (.apply .or args none)
  | not {a : Term} : IsBoolean a → a.head? ≠ some .or → a.head? ≠ some .and →
      IsBoolean (.apply .not [a] none)
  | group {a : Term} : IsBoolean a → IsBoolean (.apply .group [a] none)

mutual

/-- The truth value of a term in a place, when functions write their arguments in given places. -/
def truth (placeOf : FuncKind → Place) (v : Operand → Bool) : Term → Place → Bool
  | entity (.property p), place => v (p.operand place)
  | apply .and args _, _ => allTruth placeOf v .and args (placeOf .and)
  | apply .or args _, _ => allTruth placeOf v .or args (placeOf .or)
  | apply .not args _, _ => !allTruth placeOf v .and args (placeOf .not)
  | apply .group args _, _ => allTruth placeOf v .and args (placeOf .group)
  | _, _ => false

/-- The truth values of a list of terms joined. -/
def allTruth (placeOf : FuncKind → Place) (v : Operand → Bool) (op : BoolOp) :
    List Term → Place → Bool
  | [], _ => op.unit
  | t :: rest, place => op.eval (truth placeOf v t place) (allTruth placeOf v op rest place)

end

/-- The truth value of a term among conditions, where every property is compared. -/
def meaning (t : Term) (v : Operand → Bool) : Bool := t.truth (fun _ => .condition) v .condition

/-- Some property stands directly in a Group. -/
inductive GroupsProperty : Term → Prop where
  | here (p : Property) (asName : Option String) :
      GroupsProperty (.apply .group [.entity (.property p)] asName)
  | inside (kind : FuncKind) {args : List Term} (asName : Option String) {a : Term} :
      a ∈ args → GroupsProperty a → GroupsProperty (.apply kind args asName)

/-- How close the text of a term holds together. -/
def rank (t : Term) : Rank :=
  match t.head? with
  | some .and => .joined .and
  | some .or => .joined .or
  | _ => .single

end Term

theorem Term.groupsProperty_apply_iff {kind : FuncKind} {args : List Term}
    {asName : Option String} :
    (Term.apply kind args asName).GroupsProperty ↔
      (kind = .group ∧ ∃ p, args = [.entity (.property p)]) ∨ ∃ a ∈ args, a.GroupsProperty := by
  constructor
  · intro h
    cases h with
    | here p => exact .inl ⟨rfl, p, rfl⟩
    | inside _ _ ha h => exact .inr ⟨_, ha, h⟩
  · rintro (⟨rfl, p, rfl⟩ | ⟨a, ha, h⟩)
    · exact .here p asName
    · exact .inside kind asName ha h

theorem Term.property?_isSome_iff {t : Term} :
    t.property?.isSome ↔ ∃ p, t = .entity (.property p) := by
  unfold property?
  split
  · simp
  · next h => simpa using h

/-- A property is not compared. -/
def Condition.Formula.HasAlone (f : Formula) : Prop :=
  ∃ owner handle, .property owner handle ∈ f.operands

/-! ## The text of a term -/

/-- A phrase is read as a formula that has the truth value of a term written in a place, and in
which properties are alone where the term says so. -/
structure Phrase.ReadAs (phrase : Phrase) (rank : Rank) (f : Formula)
    (value : (Operand → Bool) → Bool) (alone : Prop) : Prop where
  reads : Reads rank (tokens (phrase.text .parameterized)) f
  value : ∀ v, f.holds v = value v
  alone : f.HasAlone ↔ alone

/-- The text of a compared property. -/
theorem Property.Compared.readAs {p : Property} {owner : String} (h : p.Compared owner)
    {place : Place} (hplace : place ≠ .pattern) :
    ∃ phrase f, (Entity.property p).phrases place = [phrase] ∧
      phrase.ReadAs .single f (fun v => v (p.operand place)) (place = .item) := by
  obtain ⟨value, hvalue⟩ := Option.isSome_iff_exists.mp h.value
  have howner : p.owner.getD "" = owner := by rw [h.owned, Option.getD_some]
  have hreads : ∀ {o : Operand}, o.owner = owner → Reads .single o.tokens (.operand o) :=
    fun ho => .operand (ho ▸ h.unreserved)
  cases place with
  | pattern => exact absurd rfl hplace
  | condition =>
      refine ⟨[.verbatim (owner ++ "." ++ p.handle ++ " " ++ "=" ++ " "), .slot p.var value],
        .operand (.comparison owner p.handle p.var), ?_, ?_, fun v => ?_, ?_⟩
      · simp [Entity.phrases, Entity.conditions, Property.condition?, Property.assignment?, h.owned,
          hvalue]
      · rw [Phrase.text_cons, Piece.text, Phrase.text_cons, Piece.text]
        change Reads _ (tokens (_ ++ ("$" ++ p.var ++ ""))) _
        rw [String.append_empty, tokens_comparison h.identifier h.handle h.var]
        exact hreads rfl
      · rw [Formula.holds, Property.operand, howner]
      · simp [Formula.HasAlone, Formula.operands]
  | item =>
      refine ⟨[.verbatim (owner ++ "." ++ p.handle)], .operand (.property owner p.handle), ?_, ?_,
        fun v => ?_, ?_⟩
      · simp [Entity.phrases, Entity.items, Property.item?, itemText, h.owned, h.unnamed,
          Phrase.ofText]
      · rw [Phrase.text_verbatim, tokens_property h.identifier h.handle]
        exact hreads rfl
      · simp [Formula.holds, Property.operand, howner]
      · simp [Formula.HasAlone, Formula.operands]

namespace BoolOp

/-- The word between two conditions. -/
def word : BoolOp → String
  | and => "AND"
  | or => "OR"

theorem joiner_eq (op : BoolOp) : op.joiner = " " ++ op.word ++ " " := by
  cases op <;> decide

/-- The function that joins its arguments by the word. -/
def kind : BoolOp → FuncKind
  | and => .and
  | or => .or

theorem isName_word (op : BoolOp) : IsName op.word := by
  cases op <;> exact isName_of_isAlphanum (by decide) (by decide)

theorem keyword?_word (op : BoolOp) : keyword? op.word = some (.join op) := by
  cases op <;> decide +kernel

end BoolOp

theorem Condition.Formula.hasAlone_congr {f g : Formula} (h : f.Same g) :
    f.HasAlone ↔ g.HasAlone := by
  rw [HasAlone, HasAlone, h.operands]

theorem Condition.Formula.hasAlone_join {op : BoolOp} {f g : Formula} :
    (Formula.join op f g).HasAlone ↔ f.HasAlone ∨ g.HasAlone := by
  simp only [HasAlone, operands, List.mem_append, exists_or]

/-- Phrases that are read as lists joined by one word are read as one when they are joined by it. -/
theorem Phrase.ReadAs.join {op : BoolOp} {a b : Phrase} {f g : Formula}
    {value value' : (Operand → Bool) → Bool} {alone alone' : Prop}
    (ha : a.ReadAs (.joined op) f value alone) (hb : b.ReadAs (.joined op) g value' alone') :
    ∃ k, Phrase.ReadAs (a ++ Phrase.ofText op.joiner ++ b) (.joined op) k
      (fun v => op.eval (value v) (value' v)) (alone ∨ alone') := by
  obtain ⟨k, hk, hsame⟩ := ha.reads.append op.keyword?_word hb.reads
  refine ⟨k, ?_, fun v => ?_, ?_⟩
  · rw [Phrase.text_append, Phrase.text_append, Phrase.ofText, Phrase.text_verbatim, op.joiner_eq,
      tokens_between _ _ op.isName_word]
    exact hk
  · rw [hsame.holds, Formula.holds, ha.value, hb.value]
  · rw [Formula.hasAlone_congr hsame, Formula.hasAlone_join, ha.alone, hb.alone]

namespace Term

/-- A term is written in a place as one phrase that is read with its truth value. -/
def Written (t : Term) (place : Place) (rank : Rank) : Prop :=
  ∃ phrase f, t.phrases place = [phrase] ∧
    phrase.ReadAs rank f (fun v => t.truth FuncKind.place v place)
      (t.GroupsProperty ∨ place = .item ∧ t.property?.isSome)

/-- Terms that are written as lists joined by one word are written as one when they are joined by
it. -/
theorem written_list {op : BoolOp} {args : List Term} (hne : args ≠ [])
    (h : ∀ a ∈ args, a.Written .condition (.joined op)) :
    ∃ f, (Phrase.joined op.joiner (allPhrases args .condition)).ReadAs (.joined op) f
      (fun v => allTruth FuncKind.place v op args .condition) (∃ a ∈ args, a.GroupsProperty) := by
  induction args with
  | nil => exact absurd rfl hne
  | cons t rest ih =>
      obtain ⟨phrase, f, hphrase, hread⟩ := h t List.mem_cons_self
      cases rest with
      | nil =>
          refine ⟨f, ?_, fun v => ?_, ?_⟩
          · rw [allPhrases, allPhrases, hphrase, List.append_nil, Phrase.joined,
              List.intercalate_singleton]
            exact hread.reads
          · rw [allTruth, allTruth, op.eval_unit]
            exact hread.value v
          · rw [hread.alone]
            simp
      | cons u rest =>
          obtain ⟨g, hrest⟩ := ih (List.cons_ne_nil _ _) fun a ha => h a (List.mem_cons_of_mem _ ha)
          obtain ⟨k, hk⟩ := hread.join hrest
          obtain ⟨second, -, hsecond, -⟩ := h u (List.mem_cons_of_mem _ List.mem_cons_self)
          have hjoined : Phrase.joined op.joiner (allPhrases (t :: u :: rest) .condition)
              = phrase ++ Phrase.ofText op.joiner ++
                Phrase.joined op.joiner (allPhrases (u :: rest) .condition) := by
            rw [allPhrases, hphrase, allPhrases, hsecond, List.singleton_append,
              List.singleton_append, Phrase.joined, Phrase.joined, List.intercalate_cons_cons]
          refine ⟨k, hjoined ▸ hk.reads, hk.value, ?_⟩
          rw [hk.alone]
          simp

/-- What is written as a term of its rank can be joined by a word, unless that binds closer. -/
theorem Written.joined {t : Term} {place : Place} (h : t.Written place t.rank) {op : BoolOp}
    (hop : op = .and → t.head? ≠ some .or) : t.Written place (.joined op) := by
  obtain ⟨phrase, f, hphrase, hread⟩ := h
  refine ⟨phrase, f, hphrase, ?_, hread.value, hread.alone⟩
  have hreads := hread.reads
  rw [rank] at hreads
  split at hreads
  · cases op with
    | and => exact hreads
    | or => exact .inside hreads
  · next hor =>
      cases op with
      | and => exact absurd hor (hop rfl)
      | or => exact hreads
  · exact hreads.of_single op

/-- A term that is neither an And nor an Or holds together by itself. -/
theorem rank_eq_single {t : Term} (hand : t.head? ≠ some .and) (hor : t.head? ≠ some .or) :
    t.rank = .single := by
  rw [rank]
  split
  · next h => exact absurd h hand
  · next h => exact absurd h hor
  · rfl

/-- The text of a function without a name for its result. -/
theorem text_around (mode : Mode) (kind : FuncKind) (args : List Phrase) :
    (kind.around none args).text mode =
      kind.opening ++ (Phrase.joined kind.joiner args).text mode ++ kind.closing := by
  rw [FuncKind.around_eq, Phrase.text_cons, Phrase.text_append, Phrase.text_verbatim, Piece.text,
    itemText, String.append_assoc]

/-- A list of terms is written as one term by the function of its word. -/
theorem written_apply (op : BoolOp) {args : List Term} (hne : args ≠ [])
    (h : ∀ a ∈ args, a.Written .condition (.joined op)) (place : Place) :
    (apply op.kind args none).Written place (.joined op) := by
  obtain ⟨f, hread⟩ := written_list hne h
  have hplace : op.kind.place = .condition := by cases op <;> rfl
  have htext : (op.kind.around none (allPhrases args .condition)).text .parameterized
      = (Phrase.joined op.joiner (allPhrases args .condition)).text .parameterized := by
    rw [text_around]
    cases op <;> exact String.append_empty.trans String.empty_append
  have hvalue : ∀ v, truth FuncKind.place v (apply op.kind args none) place
      = allTruth FuncKind.place v op args .condition := by
    cases op <;> exact fun _ => rfl
  have halone : (apply op.kind args none).GroupsProperty ↔ ∃ a ∈ args, a.GroupsProperty := by
    rw [groupsProperty_apply_iff]
    cases op <;> simp [BoolOp.kind]
  refine ⟨op.kind.around none (allPhrases args .condition), f, ?_, htext ▸ hread.reads,
    fun v => ?_, ?_⟩
  · rw [phrases, hplace]
  · rw [hread.value, hvalue]
  · rw [hread.alone, halone]
    simp [property?]

/-- A term that holds together is written behind NOT. -/
theorem written_not {a : Term} (h : a.Written .condition .single) (place : Place) :
    (apply .not [a] none).Written place .single := by
  obtain ⟨phrase, f, hphrase, hread⟩ := h
  have hargs : allPhrases [a] FuncKind.not.place = [phrase] :=
    (List.append_nil _).trans hphrase
  have htext : (FuncKind.not.around none [phrase]).text .parameterized
      = "NOT" ++ " " ++ phrase.text .parameterized := by
    rw [text_around, Phrase.joined, List.intercalate_singleton]
    exact String.append_empty
  have hword : IsName "NOT" := isName_of_isAlphanum (by decide) (by decide)
  refine ⟨FuncKind.not.around none [phrase], .not f, by rw [phrases, hargs], ?_, fun v => ?_, ?_⟩
  · rw [htext, tokens_word hword]
    exact .not rfl hread.reads
  · rw [Formula.holds, hread.value]
    exact congrArg (!·) (BoolOp.and.eval_unit _).symm
  · rw [groupsProperty_apply_iff]
    simpa [Formula.HasAlone, Formula.operands, property?] using hread.alone

/-- A term that is written as an item is written in parentheses by Group. -/
theorem written_group {a : Term} (h : a.Written .item (.joined .or)) (place : Place) :
    (apply .group [a] none).Written place .single := by
  obtain ⟨phrase, f, hphrase, hread⟩ := h
  have hargs : allPhrases [a] FuncKind.group.place = [phrase] :=
    (List.append_nil _).trans hphrase
  have htext : (FuncKind.group.around none [phrase]).text .parameterized
      = "(" ++ phrase.text .parameterized ++ ")" := by
    rw [text_around, Phrase.joined, List.intercalate_singleton]
    rfl
  refine ⟨FuncKind.group.around none [phrase], f, by rw [phrases, hargs], ?_, fun v => ?_, ?_⟩
  · rw [htext, tokens_parens]
    exact .parens hread.reads
  · rw [hread.value]
    exact (BoolOp.and.eval_unit _).symm
  · rw [hread.alone, groupsProperty_apply_iff, property?_isSome_iff]
    simp [property?, or_comm]

/-- A boolean term is written with its truth value, as close together as its rank says. -/
theorem IsBoolean.written {t : Term} (h : t.IsBoolean) :
    ∀ place, place ≠ .pattern → t.Written place t.rank := by
  induction h with
  | @property p owner hp =>
      intro place hplace
      obtain ⟨phrase, f, hphrase, hread⟩ := hp.readAs hplace
      refine ⟨phrase, f, hphrase, hread.reads, hread.value, ?_⟩
      have hnone : ¬(entity (.property p)).GroupsProperty := fun h => nomatch h
      rw [hread.alone, or_iff_right hnone, property?_isSome_iff]
      simp
  | @and args hne _ hor ih =>
      exact fun place _ => written_apply .and hne
        (fun a ha => (ih a ha .condition (by decide)).joined fun _ => hor a ha) place
  | @or args hne _ ih =>
      exact fun place _ => written_apply .or hne
        (fun a ha => (ih a ha .condition (by decide)).joined fun hop => nomatch hop) place
  | @not a _ hor hand ih =>
      exact fun place _ => written_not (rank_eq_single hand hor ▸ ih .condition (by decide)) place
  | @group a _ ih =>
      exact fun place _ => written_group
        ((ih .item (by decide)).joined fun hop => nomatch hop) place

/-! ## What a Group keeps -/

/-- Terms with equal truth values in a place have equal ones when they are joined. -/
theorem allTruth_congr {placeOf placeOf' : FuncKind → Place} {v : Operand → Bool} {op : BoolOp}
    {args : List Term} {place : Place}
    (h : ∀ a ∈ args, a.truth placeOf v place = a.truth placeOf' v place) :
    allTruth placeOf v op args place = allTruth placeOf' v op args place := by
  induction args with
  | nil => rfl
  | cons a rest ih =>
      rw [allTruth, allTruth, h a List.mem_cons_self,
        ih fun b hb => h b (List.mem_cons_of_mem _ hb)]

/-- Without a property that stands directly in a Group every property is compared. -/
theorem IsBoolean.truth_eq {t : Term} (h : t.IsBoolean) (hgroups : ¬t.GroupsProperty)
    (v : Operand → Bool) (place : Place) :
    t.truth FuncKind.place v place = t.truth (fun _ => .condition) v place := by
  induction h generalizing place with
  | property => rfl
  | and _ _ _ ih =>
      exact allTruth_congr fun a ha => ih a ha (fun h => hgroups (.inside _ _ ha h)) .condition
  | or _ _ ih =>
      exact allTruth_congr fun a ha => ih a ha (fun h => hgroups (.inside _ _ ha h)) .condition
  | @not a _ _ _ ih =>
      have hinside := ih (fun h => hgroups (.inside _ _ (List.mem_singleton_self a) h)) .condition
      exact congrArg (!·) (allTruth_congr (List.forall_mem_singleton.mpr hinside))
  | @group a ha ih =>
      have hinside := ih (fun h => hgroups (.inside _ _ (List.mem_singleton_self a) h)) .item
      -- a function is written alike in all places
      have hitem : a.truth (fun _ => .condition) v .item
          = a.truth (fun _ => .condition) v .condition := by
        cases ha with
        | property => exact absurd (.here _ _) hgroups
        | and => rfl
        | or => rfl
        | not => rfl
        | group => rfl
      exact congrArg (BoolOp.and.eval · true) (hinside.trans hitem)

/-- A list joined by OR is true if one of its terms is. -/
theorem allTruth_or (placeOf : FuncKind → Place) (v : Operand → Bool) (ts : List Term)
    (place : Place) :
    allTruth placeOf v .or ts place = ts.any fun t => t.truth placeOf v place := by
  induction ts with
  | nil => rfl
  | cons t rest ih =>
      rw [allTruth, ih]
      rfl

end Term

/-! ## WHERE clauses -/

namespace Condition

/-- A formula that is read behind WHERE. -/
def ReadsWhere (text : String) (f : Formula) : Prop :=
  ∃ ts, tokens text = .word "WHERE" :: ts ∧ Reads (.joined .or) ts f

/-- The reading of a text, with the truth value that is written and the one that is meant, and
whether a property was written alone. -/
structure IsReading (text : String) (written meant : (Operand → Bool) → Bool) (grouped : Prop)
    (f : Formula) : Prop where
  reads : ReadsWhere text f
  only : ∀ g, ReadsWhere text g → g = f
  written : ∀ v, f.holds v = written v
  alone : f.HasAlone ↔ grouped
  meant : ¬grouped → ∀ v, f.holds v = meant v

end Condition

namespace Clause

theorem tokens_where (phrase : Phrase) :
    tokens (Phrase.text .parameterized (.verbatim "WHERE " :: phrase))
      = .word "WHERE" :: tokens (phrase.text .parameterized) := by
  have hword : IsName "WHERE" := isName_of_isAlphanum (by decide) (by decide)
  rw [Phrase.text_cons, Piece.text]
  exact tokens_word hword _

/-- A WHERE clause is read as the list of its conditions. -/
theorem isReading_of_readAs {phrase : Phrase} {f : Formula} {written meant : (Operand → Bool) → Bool}
    {grouped : Prop} (h : phrase.ReadAs (.joined .or) f written grouped)
    (hmeant : ¬grouped → ∀ v, written v = meant v) :
    IsReading (Phrase.text .parameterized (.verbatim "WHERE " :: phrase)) written meant grouped
      f := by
  refine ⟨⟨_, tokens_where phrase, h.reads⟩, fun g hg => ?_, h.value, h.alone,
    fun hgrouped v => ?_⟩
  · obtain ⟨ts, hts, hreads⟩ := hg
    obtain rfl := List.tail_eq_of_cons_eq ((tokens_where phrase).symm.trans hts)
    exact hreads.unique h.reads
  · rw [h.value, hmeant hgrouped]

/-- The text of a WHERE clause of one boolean term, or of any number of them joined by OR, has one
reading, in which NOT binds closer than AND and AND closer than OR. Its truth value is that of the
terms, each function writing its arguments in its own place. So every property is compared, and
the truth value is the one that is meant, exactly if no property stands directly in a Group. A
clause of no terms cannot be read. -/
theorem reads_filter {t : Term} (ht : t.IsBoolean) {ts : List Term} (hts : ∀ t ∈ ts, t.IsBoolean) :
    (∃ f, IsReading ((Clause.filter .and [t]).phrase.text .parameterized)
      (fun v => t.truth FuncKind.place v .condition) t.meaning t.GroupsProperty f) ∧
    (ts ≠ [] → ∃ f, IsReading ((Clause.filter .or ts).phrase.text .parameterized)
      (fun v => ts.any fun t => t.truth FuncKind.place v .condition)
      (fun v => ts.any fun t => t.meaning v) (∃ t ∈ ts, t.GroupsProperty) f) ∧
    (ts = [] → ∀ f, ¬ReadsWhere ((Clause.filter .or ts).phrase.text .parameterized) f) := by
  have hwritten : ∀ t : Term, t.IsBoolean → t.Written .condition (.joined .or) := fun t ht =>
    (ht.written .condition (by decide)).joined fun hop => nomatch hop
  refine ⟨?_, fun hne => ?_, ?_⟩
  · obtain ⟨phrase, f, hphrase, hread⟩ := hwritten t ht
    have hjoined : Phrase.joined BoolOp.and.joiner (Term.allPhrases [t] .condition) = phrase := by
      rw [Term.allPhrases, Term.allPhrases, hphrase, List.append_nil, Phrase.joined,
        List.intercalate_singleton]
    refine ⟨f, isReading_of_readAs (hjoined ▸ ⟨hread.reads, hread.value, ?_⟩)
      fun hgrouped v => ht.truth_eq hgrouped v .condition⟩
    rw [hread.alone]
    simp
  · obtain ⟨f, hread⟩ := Term.written_list hne fun t ht => hwritten t (hts t ht)
    refine ⟨f, isReading_of_readAs ⟨hread.reads, fun v => ?_, hread.alone⟩ fun hgrouped v => ?_⟩
    · rw [hread.value, Term.allTruth_or]
    · have hsame : Term.allTruth FuncKind.place v .or ts .condition
          = Term.allTruth (fun _ => .condition) v .or ts .condition :=
        Term.allTruth_congr fun t ht =>
          (hts t ht).truth_eq (fun h => hgrouped ⟨t, ht, h⟩) v .condition
      rwa [Term.allTruth_or, Term.allTruth_or] at hsame
  · rintro rfl f ⟨us, hus, hreads⟩
    have hnil := List.tail_eq_of_cons_eq ((tokens_where []).symm.trans hus)
    exact hreads.ne_nil hnil.symm

/-- A property of a node that is compared with a parameter. -/
def compared (var handle : String) : Term :=
  .entity (.property ⟨var, handle, some (.string "v"), none, some "n0"⟩)

theorem isBoolean_compared {var handle : String}
    (hvar : var ≠ "" ∧ var.toList.all Char.isAlphanum = true)
    (hhandle : handle ≠ "" ∧ handle.toList.all Char.isAlphanum = true) :
    (compared var handle).IsBoolean := by
  have howner : IsName "n0" := isName_of_isAlphanum (by decide) (by decide)
  have hcompared : Property.Compared ⟨var, handle, some (.string "v"), none, some "n0"⟩ "n0" :=
    ⟨rfl, rfl, rfl, howner, rfl, isName_of_isAlphanum hhandle.1 hhandle.2,
      isName_of_isAlphanum hvar.1 hvar.2⟩
  exact .property hcompared

/-- A condition with an Or below an And, and a Not below the Or. -/
def nestedCondition : Term :=
  .apply .and [compared "p0" "k", .apply .group [.apply .or [compared "p1" "m",
    .apply .not [compared "p2" "k"] none] none] none] none

theorem reads_filter_nested :
    nestedCondition.IsBoolean ∧
      (Clause.filter .and [nestedCondition]).phrase.text .parameterized =
        "WHERE n0.k = $p0 AND (n0.m = $p1 OR NOT n0.k = $p2)" ∧
      (∃ f, IsReading ((Clause.filter .and [nestedCondition]).phrase.text .parameterized)
        (fun v => nestedCondition.truth FuncKind.place v .condition) nestedCondition.meaning
        nestedCondition.GroupsProperty f) ∧
      ∃ f, IsReading ((Clause.filter .or [compared "p0" "k", nestedCondition]).phrase.text
        .parameterized)
        (fun v => [compared "p0" "k", nestedCondition].any fun t =>
          t.truth FuncKind.place v .condition)
        (fun v => [compared "p0" "k", nestedCondition].any fun t => t.meaning v)
        (∃ t ∈ [compared "p0" "k", nestedCondition], t.GroupsProperty) f := by
  have hfirst : (compared "p0" "k").IsBoolean := isBoolean_compared (by decide) (by decide)
  have hsecond : (compared "p1" "m").IsBoolean := isBoolean_compared (by decide) (by decide)
  have hthird : (compared "p2" "k").IsBoolean := isBoolean_compared (by decide) (by decide)
  have hpair : ∀ {P : Term → Prop} {a b : Term}, P a → P b → ∀ t ∈ [a, b], P t := fun ha hb =>
    List.forall_mem_cons.mpr ⟨ha, List.forall_mem_singleton.mpr hb⟩
  have hnot : (Term.apply .not [compared "p2" "k"] none).IsBoolean :=
    .not hthird (by decide) (by decide)
  have hor : (Term.apply .or [compared "p1" "m", .apply .not [compared "p2" "k"] none]
      none).IsBoolean := .or (List.cons_ne_nil _ _) (hpair hsecond hnot)
  have hnested : nestedCondition.IsBoolean :=
    .and (List.cons_ne_nil _ _) (hpair hfirst (.group hor))
      (hpair (P := fun a => a.head? ≠ some .or) (by decide) (by decide))
  have hlist : ∀ t ∈ [compared "p0" "k", nestedCondition], t.IsBoolean := hpair hfirst hnested
  obtain ⟨hall, hany, -⟩ := reads_filter hnested hlist
  exact ⟨hnested, by decide +kernel, hall, hany (List.cons_ne_nil _ _)⟩

/-- A property in a Group is written without its comparison. -/
theorem reads_group_property :
    let t : Term := .apply .group [compared "p0" "k"] none
    let v : Operand → Bool := fun o => match o with
      | .comparison _ _ _ => true
      | .property _ _ => false
    t.IsBoolean ∧ (Clause.filter .and [t]).phrase.text .parameterized = "WHERE (n0.k)" ∧
      (∃ f, ReadsWhere "WHERE (n0.k)" f) ∧
      ∀ f, ReadsWhere "WHERE (n0.k)" f → f.holds v ≠ t.meaning v := by
  intro t v
  have hboolean : t.IsBoolean := .group (isBoolean_compared (by decide) (by decide))
  have htokens : tokens "WHERE (n0.k)"
      = .word "WHERE" :: .sign '(' :: ((Operand.property "n0" "k").tokens ++ [.sign ')']) := by
    decide +kernel
  have hreads : Reads (.joined .or)
      (.sign '(' :: ((Operand.property "n0" "k").tokens ++ [.sign ')']))
      (.operand (.property "n0" "k")) :=
    .of_single (.parens (.of_single (.operand rfl) .or)) .or
  refine ⟨hboolean, by decide +kernel, ⟨_, _, htokens, hreads⟩, ?_⟩
  rintro f ⟨ts, hts, hf⟩
  obtain rfl := List.tail_eq_of_cons_eq (htokens.symm.trans hts)
  obtain rfl := hf.unique hreads
  exact Bool.false_ne_true

end Clause

end CypherRoutes
