/-
# What a pattern shows

A pattern shows its walks: of every node and every edge the variable, unless that is hidden, the
label or the type, and the handle and the variable of each property with a value; and of every edge
which way its arrow points. If all of these are names, then the parameterized text tells what the
pattern shows (`Path.text_eq_iff`). The reason is that every part of the text says by itself where
it ends: if two of them, with something behind them that may follow, are one text, then they are
one part (`UniquelyRead`). This goes over from parts to parts one behind the other, to a part that
may be missing and to lists.
-/
import CypherRoutes.Proofs.Cypher.Placeholders
import CypherRoutes.Proofs.Cypher.Texts

namespace CypherRoutes

/-! ## Texts that are read in one way -/

/-- A text is over, or begins with one of the given characters. -/
def FollowedBy (chars text : List Char) : Prop := ∀ c ∈ text.head?, c ∈ chars

/-- The things of a kind are read from their texts in one way: a text that begins with the texts of
two of them, each with something behind it that may follow, begins with one thing only, and the
same is behind it. -/
def UniquelyRead {α : Type} (P : α → Prop) (follows : List Char → Prop) (text : α → List Char) :
    Prop :=
  ∀ a b r s, P a → P b → follows r → follows s → text a ++ r = text b ++ s → a = b ∧ r = s

theorem followedBy_cons {chars : List Char} {c : Char} (h : c ∈ chars) (rest : List Char) :
    FollowedBy chars (c :: rest) := by
  intro d hd
  obtain rfl := Option.some.inj hd
  exact h

theorem not_followedBy_cons {chars : List Char} {c : Char} (h : c ∉ chars) (rest : List Char) :
    ¬ FollowedBy chars (c :: rest) := fun hfollowed => h (hfollowed c rfl)

theorem FollowedBy.mono {chars chars' text : List Char} (h : FollowedBy chars text)
    (hsubset : chars ⊆ chars') : FollowedBy chars' text := fun c hc => hsubset (h c hc)

theorem FollowedBy.endsName {chars text : List Char} (h : FollowedBy chars text)
    (hchars : chars.any isNameChar = false) : EndsName text := by
  intro c hc
  exact Bool.eq_false_of_not_eq_true (List.any_eq_false.mp hchars c (h c hc))

/-- A name is read up to its last character. -/
theorem uniquelyRead_name (chars : List Char) (hchars : chars.any isNameChar = false) :
    UniquelyRead IsName (FollowedBy chars) String.toList := by
  intro a b r s ha hb hr hs h
  have hname : a.toList = b.toList := by
    rw [← takeWhile_name ha (hr.endsName hchars), h, takeWhile_name hb (hs.endsName hchars)]
  exact ⟨String.toList_inj.mp hname, List.append_cancel_left (hname ▸ h)⟩

namespace UniquelyRead

variable {α β : Type} {P : α → Prop} {Q : β → Prop} {follows follows' : List Char → Prop}
  {text : α → List Char} {text' : β → List Char}

/-- A thing is read if what it is made of is read. -/
theorem comap (h : UniquelyRead P follows text) {f : β → α} (hf : f.Injective) :
    UniquelyRead (fun b => P (f b)) follows fun b => text (f b) := by
  intro a b r s ha hb hr hs heq
  obtain ⟨hab, hrest⟩ := h (f a) (f b) r s ha hb hr hs heq
  exact ⟨hf hab, hrest⟩

/-- A part behind fixed characters. -/
theorem behind (h : UniquelyRead P follows text) (opening : List Char) :
    UniquelyRead P follows fun a => opening ++ text a := by
  intro a b r s ha hb hr hs heq
  simp only [List.append_assoc] at heq
  exact h a b r s ha hb hr hs (List.append_cancel_left heq)

/-- A part with fixed characters behind it. -/
theorem closedBy (h : UniquelyRead P follows text) (closing : List Char)
    (hclosing : ∀ r, follows' r → follows (closing ++ r)) :
    UniquelyRead P follows' fun a => text a ++ closing := by
  intro a b r s ha hb hr hs heq
  simp only [List.append_assoc] at heq
  obtain ⟨hab, hrest⟩ := h a b _ _ ha hb (hclosing r hr) (hclosing s hs) heq
  exact ⟨hab, List.append_cancel_left hrest⟩

/-- One part behind another. -/
theorem append (h : UniquelyRead P follows text) (h' : UniquelyRead Q follows' text')
    (hfollows : ∀ b r, Q b → follows' r → follows (text' b ++ r)) :
    UniquelyRead (fun x : α × β => P x.1 ∧ Q x.2) follows' fun x => text x.1 ++ text' x.2 := by
  rintro ⟨a, b⟩ ⟨c, d⟩ r s ⟨ha, hb⟩ ⟨hc, hd⟩ hr hs heq
  simp only [List.append_assoc] at heq
  obtain ⟨rfl, hrest⟩ := h a c _ _ ha hc (hfollows b r hb hr) (hfollows d s hd hs) heq
  obtain ⟨rfl, rfl⟩ := h' b d r s hb hd hr hs hrest
  exact ⟨rfl, rfl⟩

/-- A part that may be missing. -/
theorem option (h : UniquelyRead P follows text) (hfirst : ∀ a r, P a → ¬ follows (text a ++ r)) :
    UniquelyRead (fun o : Option α => ∀ a ∈ o, P a) follows fun o => o.elim [] text := by
  rintro (_ | a) (_ | b) r s ha hb hr hs heq
  · exact ⟨rfl, heq⟩
  · exact absurd ((show r = text b ++ s from heq) ▸ hr) (hfirst b s (hb b rfl))
  · exact absurd ((show text a ++ r = s from heq) ▸ hs) (hfirst a r (ha a rfl))
  · obtain ⟨rfl, hrest⟩ := h a b r s (ha a rfl) (hb b rfl) hr hs heq
    exact ⟨rfl, hrest⟩

/-- A thing that is written in a way of its own. -/
theorem exceptFor [DecidableEq α] (h : UniquelyRead P follows text) (special : α) {own : List Char}
    (hother : ∀ a r s, follows s → text a ++ r ≠ own ++ s) :
    UniquelyRead P follows fun a => if a = special then own else text a := by
  intro a b r s ha hb hr hs heq
  beta_reduce at heq
  by_cases haspecial : a = special <;> by_cases hbspecial : b = special
  · rw [if_pos haspecial, if_pos hbspecial] at heq
    exact ⟨haspecial.trans hbspecial.symm, List.append_cancel_left heq⟩
  · rw [if_pos haspecial, if_neg hbspecial] at heq
    exact absurd heq.symm (hother b s r hr)
  · rw [if_neg haspecial, if_pos hbspecial] at heq
    exact absurd heq (hother a r s hs)
  · rw [if_neg haspecial, if_neg hbspecial] at heq
    exact h a b r s ha hb hr hs heq

/-- Parts of one kind one behind the other. -/
theorem flatMap (h : UniquelyRead P follows text) (hfirst : ∀ a r, P a → ¬ follows' (text a ++ r))
    (hend : ∀ r, follows' r → follows r) (hnext : ∀ a r, P a → follows (text a ++ r)) :
    UniquelyRead (fun l : List α => ∀ a ∈ l, P a) follows' fun l => l.flatMap text := by
  have hbehind : ∀ (l : List α) r, (∀ a ∈ l, P a) → follows' r → follows (l.flatMap text ++ r) := by
    intro l r hl hr
    cases l with
    | nil => exact hend r hr
    | cons a l =>
        rw [List.flatMap_cons, List.append_assoc]
        exact hnext a _ (hl a List.mem_cons_self)
  intro l
  induction l with
  | nil =>
      rintro (_ | ⟨b, m⟩) r s _ hm hr _ heq
      · exact ⟨rfl, heq⟩
      · simp only [List.flatMap_nil, List.nil_append, List.flatMap_cons, List.append_assoc] at heq
        exact absurd (heq ▸ hr) (hfirst b _ (hm b List.mem_cons_self))
  | cons a l ih =>
      rintro (_ | ⟨b, m⟩) r s hl hm hr hs heq
      · simp only [List.flatMap_nil, List.nil_append, List.flatMap_cons, List.append_assoc] at heq
        exact absurd (heq ▸ hs) (hfirst a _ (hl a List.mem_cons_self))
      · obtain ⟨ha, hl⟩ := List.forall_mem_cons.mp hl
        obtain ⟨hb, htail⟩ := List.forall_mem_cons.mp hm
        simp only [List.flatMap_cons, List.append_assoc] at heq
        obtain ⟨rfl, hrest⟩ := h a b _ _ ha hb (hbehind l r hl hr) (hbehind m s htail hs) heq
        obtain ⟨rfl, rfl⟩ := ih m r s hl htail hr hs hrest
        exact ⟨rfl, rfl⟩

end UniquelyRead

/-- Behind the first of several texts the others stand each behind a separator. -/
theorem intercalate_map_cons {α : Type} (separator : List Char) (text : α → List Char) (a : α)
    (l : List α) :
    separator.intercalate ((a :: l).map text)
      = text a ++ l.flatMap fun b => separator ++ text b := by
  induction l generalizing a with
  | nil => simp
  | cons b l ih =>
      rw [List.map_cons, List.map_cons, List.intercalate_cons_cons, ← List.map_cons, ih b]
      simp

/-- Parts of one kind with a separator between each two. -/
theorem UniquelyRead.intercalate {α : Type} {P : α → Prop} {follows follows' : List Char → Prop}
    {text : α → List Char} (h : UniquelyRead P follows text) (separator : List Char)
    (hfirst : ∀ a r, P a → ¬ follows' (text a ++ r))
    (hseparator : ∀ r, follows (separator ++ r)) (hnot : ∀ r, ¬ follows' (separator ++ r))
    (hend : ∀ r, follows' r → follows r) :
    UniquelyRead (fun l : List α => ∀ a ∈ l, P a) follows' fun l =>
      separator.intercalate (l.map text) := by
  have hothers : UniquelyRead (fun l : List α => ∀ a ∈ l, P a) follows' fun l =>
      l.flatMap fun a => separator ++ text a := by
    refine (h.behind separator).flatMap (fun a r _ => ?_) hend fun a r _ => ?_
    · rw [List.append_assoc]
      exact hnot _
    · rw [List.append_assoc]
      exact hseparator _
  have hboth := h.append hothers fun l r hl hr => by
    cases l with
    | nil => exact hend r hr
    | cons b l =>
        rw [List.flatMap_cons, List.append_assoc, List.append_assoc]
        exact hseparator _
  intro l m r s hl hm hr hs heq
  beta_reduce at heq
  rcases l with _ | ⟨a, l⟩ <;> rcases m with _ | ⟨b, m⟩
  · exact ⟨rfl, heq⟩
  · rw [intercalate_map_cons, List.append_assoc] at heq
    exact absurd ((show r = _ from heq) ▸ hr) (hfirst b _ (hm b List.mem_cons_self))
  · rw [intercalate_map_cons, List.append_assoc] at heq
    exact absurd ((show _ = s from heq) ▸ hs) (hfirst a _ (hl a List.mem_cons_self))
  · rw [intercalate_map_cons, intercalate_map_cons] at heq
    obtain ⟨hpair, rfl⟩ := hboth (a, l) (b, m) r s (List.forall_mem_cons.mp hl)
      (List.forall_mem_cons.mp hm) hr hs heq
    obtain ⟨rfl, rfl⟩ := Prod.mk.inj hpair
    exact ⟨rfl, rfl⟩

/-! ## What is shown of nodes and edges -/

/-- What a pattern shows of a node or of an edge: its variable unless that is hidden, its label or
type, and the handle and the variable of each property with a value. -/
structure Shown where
  var : Option String
  label : Option String
  entries : List (String × String)
deriving DecidableEq

/-- An edge with the way its arrow points. -/
abbrev ShownArrow := Shown × Direction

/-- A node with the arrows behind it, each with the node that it leads to. -/
abbrev ShownWalk := Shown × List (ShownArrow × Shown)

namespace Shown

/-- The texts that are shown are names. -/
structure Named (s : Shown) : Prop where
  var : ∀ var ∈ s.var, IsName var
  label : ∀ label ∈ s.label, IsName label
  entries : ∀ entry ∈ s.entries, IsName entry.1 ∧ IsName entry.2

/-- `handle:$var`. -/
def entryText (entry : String × String) : List Char :=
  entry.1.toList ++ ([':', '$'] ++ entry.2.toList)

/-- The entries between braces, if there are any. -/
def mapText (entries : List (String × String)) : List Char :=
  if entries = [] then []
  else [' ', '\x7b'] ++ ([','].intercalate (entries.map entryText) ++ ['\x7d'])

/-- `var:label map`. -/
def innerText (s : Shown) : List Char :=
  s.var.elim [] String.toList ++
    (s.label.elim [] (fun label => [':'] ++ label.toList) ++ mapText s.entries)

/-- A node. -/
def nodeText (s : Shown) : List Char := ['('] ++ (s.innerText ++ [')'])

/-- An edge without an arrow head. -/
def edgeText (s : Shown) : List Char :=
  if s = ⟨none, none, []⟩ then ['-', '-'] else ['-', '['] ++ (s.innerText ++ [']', '-'])

/-- An edge with its arrow head. -/
def arrowText (a : ShownArrow) : List Char :=
  a.2.head.toList ++ (a.1.edgeText ++ a.2.point.toList)

/-- A walk. -/
def walkText (w : ShownWalk) : List Char :=
  w.1.nodeText ++ w.2.flatMap fun hop => arrowText hop.1 ++ hop.2.nodeText

/-- Walks with commas between them. -/
def walksText (walks : List ShownWalk) : List Char := [',', ' '].intercalate (walks.map walkText)

/-! ## Reading what is shown -/

/-- A colon stands behind a handle, and a comma or a brace behind an entry. -/
theorem uniquelyRead_entryText :
    UniquelyRead (fun entry : String × String => IsName entry.1 ∧ IsName entry.2)
      (FollowedBy [',', '\x7d']) entryText := by
  have hvar := (uniquelyRead_name [',', '\x7d'] (by decide)).behind [':', '$']
  exact (uniquelyRead_name [':'] (by decide)).append hvar fun b r _ _ =>
    followedBy_cons (by decide) _

/-- A name does not begin with another character. -/
theorem not_followedBy_name {chars : List Char} (hchars : chars.any isNameChar = false)
    {name : String} (h : IsName name) (rest : List Char) :
    ¬ FollowedBy chars (name.toList ++ rest) :=
  fun hfollowed => h.not_endsName rest (hfollowed.endsName hchars)

/-- A blank begins the map of entries. -/
theorem uniquelyRead_mapText :
    UniquelyRead (fun entries : List (String × String) => ∀ e ∈ entries, IsName e.1 ∧ IsName e.2)
      (FollowedBy [')', ']']) mapText := by
  have hentries : UniquelyRead
      (fun entries : List (String × String) => ∀ e ∈ entries, IsName e.1 ∧ IsName e.2)
      (FollowedBy ['\x7d']) fun entries => [','].intercalate (entries.map entryText) := by
    refine uniquelyRead_entryText.intercalate [','] (fun e r he => ?_)
      (fun r => followedBy_cons (by decide) r) (fun r => not_followedBy_cons (by decide) r)
      (fun r hr => hr.mono (by simp))
    rw [entryText, List.append_assoc]
    exact not_followedBy_name (by decide) he.1 _
  refine ((hentries.closedBy ['\x7d'] fun r _ => followedBy_cons (by decide) r).behind
    [' ', '\x7b']).exceptFor [] fun entries r s hs heq => ?_
  rw [List.nil_append] at heq
  exact not_followedBy_cons (by decide) _ (heq ▸ hs)

/-- What follows a part also follows it if there is a map between. -/
theorem followedBy_mapText {chars : List Char} (hblank : ' ' ∈ chars)
    (hclose : [')', ']'] ⊆ chars) (entries : List (String × String)) {r : List Char}
    (hr : FollowedBy [')', ']'] r) : FollowedBy chars (mapText entries ++ r) := by
  rw [mapText]
  split_ifs
  · exact hr.mono hclose
  · exact followedBy_cons hblank _

/-- The variable ends with a colon, a blank or the closing bracket, and the label with a blank or
the closing bracket. -/
theorem uniquelyRead_innerText : UniquelyRead Named (FollowedBy [')', ']']) innerText := by
  have hvar : UniquelyRead (fun var : Option String => ∀ v ∈ var, IsName v)
      (FollowedBy [':', ' ', ')', ']']) fun var => var.elim [] String.toList :=
    (uniquelyRead_name _ (by decide)).option fun _ r hname =>
      not_followedBy_name (by decide) hname r
  have hlabel : UniquelyRead (fun label : Option String => ∀ l ∈ label, IsName l)
      (FollowedBy [' ', ')', ']']) fun label =>
        label.elim [] fun label => [':'] ++ label.toList :=
    ((uniquelyRead_name _ (by decide)).behind [':']).option fun _ r _ =>
      not_followedBy_cons (by decide) _
  have hrest := hlabel.append uniquelyRead_mapText fun entries r _ hr =>
    followedBy_mapText (by decide) (by decide) entries hr
  have hall := hvar.append hrest fun ⟨label, entries⟩ r _ hr => by
    cases label with
    | none => exact followedBy_mapText (by decide) (by decide) entries hr
    | some label => exact followedBy_cons (by decide) _
  have hparts : Function.Injective fun s : Shown => (s.var, s.label, s.entries) := by
    rintro ⟨⟩ ⟨⟩ h
    simpa using h
  exact fun a b r s ha hb => hall.comap hparts a b r s ⟨ha.var, ha.label, ha.entries⟩
    ⟨hb.var, hb.label, hb.entries⟩

theorem uniquelyRead_nodeText : UniquelyRead Named (fun _ => True) nodeText :=
  (uniquelyRead_innerText.closedBy [')'] fun r _ => followedBy_cons (by decide) r).behind ['(']

/-- Behind the first dash stands a bracket, or another dash if there is nothing to show. -/
theorem uniquelyRead_edgeText : UniquelyRead Named (fun _ => True) edgeText := by
  have hinner : UniquelyRead Named (fun _ => True) fun s : Shown =>
      ['-', '['] ++ (s.innerText ++ [']', '-']) :=
    (uniquelyRead_innerText.closedBy [']', '-'] fun r _ => followedBy_cons (by decide) _).behind
      ['-', '[']
  exact hinner.exceptFor ⟨none, none, []⟩ fun s r t _ heq => by simp at heq

/-- An edge begins with a dash. -/
theorem exists_edgeText_eq (s : Shown) : ∃ rest, s.edgeText = '-' :: rest := by
  rw [edgeText]
  split_ifs
  · exact ⟨_, rfl⟩
  · exact ⟨_, rfl⟩

/-- An arrow to the left begins with its head. -/
theorem uniquelyRead_arrowText :
    UniquelyRead (fun a : ShownArrow => a.1.Named) (fun _ => True) arrowText := by
  have hhead : ∀ (s t : Shown) (r r' : List Char),
      '<' :: (s.edgeText ++ r) ≠ t.edgeText ++ r' := by
    intro s t r r' heq
    obtain ⟨rest, ht⟩ := t.exists_edgeText_eq
    rw [ht] at heq
    exact absurd (List.cons.inj heq).1 (by decide)
  rintro ⟨s, d⟩ ⟨t, d'⟩ r r' hs ht - - heq
  simp only [arrowText, List.append_assoc] at heq
  cases d <;> cases d'
  · obtain ⟨rfl, hrest⟩ := uniquelyRead_edgeText s t _ _ hs ht trivial trivial heq
    exact ⟨rfl, (List.cons.inj hrest).2⟩
  · exact absurd heq.symm (hhead t s _ _)
  · exact absurd heq (hhead s t _ _)
  · obtain ⟨rfl, hrest⟩ := uniquelyRead_edgeText s t _ _ hs ht trivial trivial
      (List.cons.inj heq).2
    exact ⟨rfl, hrest⟩

/-- The nodes and the edges of a walk show names. -/
def NamedWalk (w : ShownWalk) : Prop := w.1.Named ∧ ∀ hop ∈ w.2, hop.1.1.Named ∧ hop.2.Named

/-- A walk goes on with an arrow, and a comma or nothing stands behind it. -/
theorem uniquelyRead_walkText : UniquelyRead NamedWalk (FollowedBy [',']) walkText := by
  have hhop := uniquelyRead_arrowText.append uniquelyRead_nodeText fun _ _ _ _ => trivial
  refine uniquelyRead_nodeText.append (hhop.flatMap (fun hop r _ => ?_) (fun _ _ => trivial)
    fun _ _ _ => trivial) fun _ _ _ _ => trivial
  obtain ⟨rest, hedge⟩ := hop.1.1.exists_edgeText_eq
  rw [arrowText, hedge]
  cases hop.1.2 <;> exact not_followedBy_cons (by decide) _

/-- The text of walks tells the walks. -/
theorem walksText_inj {walks walks' : List ShownWalk} (h : ∀ w ∈ walks, NamedWalk w)
    (h' : ∀ w ∈ walks', NamedWalk w) (heq : walksText walks = walksText walks') :
    walks = walks' := by
  have hwalks : UniquelyRead (fun walks : List ShownWalk => ∀ w ∈ walks, NamedWalk w)
      (FollowedBy []) walksText :=
    uniquelyRead_walkText.intercalate [',', ' ']
      (fun w r _ => not_followedBy_cons List.not_mem_nil _)
      (fun r => followedBy_cons (by decide) _) (fun r => not_followedBy_cons List.not_mem_nil _)
      (fun r hr => hr.mono (List.nil_subset _))
  have hnil : FollowedBy [] [] := fun _ hc => nomatch hc
  exact (hwalks walks walks' [] [] h h' hnil hnil (by rw [heq])).1

end Shown

/-! ## What patterns show -/

/-- The text of joined phrases. -/
theorem Phrase.toList_text_joined (mode : Mode) (separator : String) (phrases : List Phrase) :
    ((Phrase.joined separator phrases).text mode).toList
      = separator.toList.intercalate (phrases.map fun p => (p.text mode).toList) := by
  rw [joined]
  induction phrases with
  | nil => simp [text]
  | cons p rest ih =>
      cases rest with
      | nil => simp [text]
      | cons q rest =>
          rw [List.map_cons] at ih
          rw [List.intercalate_cons_cons, text_append, text_append, String.toList_append,
            String.toList_append, ih, ofText, text_verbatim, List.map_cons, List.map_cons,
            List.intercalate_cons_cons, List.append_assoc]

namespace Property

/-- The handle and the variable of a property with a value. -/
def shown? (p : Property) : Option (String × String) := p.value?.map fun _ => (p.handle, p.var)

/-- A property is written as its entry. -/
theorem toList_text_pattern? (p : Property) :
    (p.pattern?.map fun entry => (entry.text .parameterized).toList)
      = p.shown?.map Shown.entryText := by
  rw [pattern?, shown?]
  cases p.value? with
  | none => rfl
  | some value => simp [Phrase.text, Piece.text, Shown.entryText]

/-- Nothing is written if no entry is shown. -/
theorem mapPattern_eq_nil_iff {props : List Property} :
    mapPattern props = [] ↔ props.filterMap shown? = [] := by
  have hpatterns : props.filterMap pattern? = [] ↔ props.filterMap shown? = [] := by
    simp only [List.filterMap_eq_nil_iff, pattern?, shown?, Option.map_eq_none_iff]
  rw [← hpatterns, mapPattern]
  cases props.filterMap pattern? <;> simp

/-- A list of properties is written as the entries that it shows. -/
theorem toList_text_mapPattern (props : List Property) :
    ((mapPattern props).text .parameterized).toList = Shown.mapText (props.filterMap shown?) := by
  have hentries : (props.filterMap pattern?).map (fun entry => (entry.text .parameterized).toList)
      = (props.filterMap shown?).map Shown.entryText := by
    rw [List.map_filterMap, List.map_filterMap]
    exact List.filterMap_congr fun p _ => p.toList_text_pattern?
  rw [Shown.mapText]
  split_ifs with hnone
  · rw [mapPattern_eq_nil_iff.mpr hnone]
    simp [Phrase.text]
  · rw [← hentries]
    rw [← mapPattern_eq_nil_iff, mapPattern] at hnone
    rw [mapPattern]
    cases hpatterns : props.filterMap pattern? with
    | nil => simp [hpatterns] at hnone
    | cons entry rest =>
        show (Phrase.text _ (_ :: (_ ++ _))).toList = _
        rw [Phrase.text_cons, Phrase.text_append, Phrase.text_verbatim, String.toList_append,
          String.toList_append, Phrase.toList_text_joined]
        rfl

end Property

/-- The variable and the label are written one behind the other. -/
theorem toList_headText (anonymous : Bool) (var : String) (label : Option String) :
    (headText anonymous var label).toList
      = (if anonymous then none else some var).elim [] String.toList ++
        label.elim [] fun label => [':'] ++ label.toList := by
  cases anonymous <;> cases label <;> simp [headText]

namespace Node

/-- What the pattern of a node shows. -/
def shown (n : Node) : Shown :=
  ⟨if n.anonymous then none else some n.var, n.label, n.props.filterMap Property.shown?⟩

theorem toList_text_pattern (n : Node) :
    (n.pattern.text .parameterized).toList = n.shown.nodeText := by
  rw [pattern, Phrase.text_cons, Phrase.text_append, Phrase.text_verbatim, Piece.text]
  simp [toList_headText, Property.toList_text_mapPattern, shown, Shown.nodeText, Shown.innerText]

end Node

namespace Relationship

/-- What the pattern of an edge shows. -/
def shown (r : Relationship) : Shown :=
  ⟨if r.anonymous then none else some r.var, r.kind, r.props.filterMap Property.shown?⟩

/-- An edge is bare if it shows nothing. -/
theorem shown_eq_iff (r : Relationship) : r.shown = ⟨none, none, []⟩ ↔
    (r.anonymous && r.kind.isNone && (Property.mapPattern r.props).isEmpty) = true := by
  rw [shown, Shown.mk.injEq, ← Property.mapPattern_eq_nil_iff]
  simp [and_assoc]

theorem toList_text_pattern (r : Relationship) :
    (r.pattern.text .parameterized).toList = r.shown.edgeText := by
  rw [pattern, Shown.edgeText]
  by_cases hbare : r.shown = ⟨none, none, []⟩
  · rw [if_pos hbare, if_pos (r.shown_eq_iff.mp hbare), Phrase.text_verbatim]
    rfl
  · rw [if_neg hbare, if_neg (mt r.shown_eq_iff.mpr hbare), Phrase.text_cons, Phrase.text_append,
      Phrase.text_verbatim, Piece.text]
    simp [toList_headText, Property.toList_text_mapPattern, shown, Shown.innerText]

theorem toList_text_arrow (r : Relationship) (d : Direction) :
    ((r.arrow d).text .parameterized).toList = Shown.arrowText (r.shown, d) := by
  rw [arrow, Phrase.text_cons, Phrase.text_append, Phrase.text_verbatim, String.toList_append,
    String.toList_append, toList_text_pattern]
  rfl

end Relationship

namespace Walk

/-- What a walk shows. -/
def shown (w : Walk) : ShownWalk :=
  (w.first.shown, w.hops.map fun hop => ((hop.edge.shown, hop.direction), hop.node.shown))

theorem toList_text_pattern (w : Walk) :
    (w.pattern.text .parameterized).toList = Shown.walkText w.shown := by
  obtain ⟨first, hops⟩ := w
  rw [pattern, Phrase.text_append, String.toList_append, Node.toList_text_pattern, shown,
    Shown.walkText]
  refine congrArg (first.shown.nodeText ++ ·) ?_
  induction hops with
  | nil => simp [Phrase.text]
  | cons hop rest ih =>
      rw [List.flatMap_cons, Phrase.text_append, String.toList_append, ih, Hop.pattern,
        Phrase.text_append, String.toList_append, Relationship.toList_text_arrow,
        Node.toList_text_pattern]
      rfl

end Walk

theorem Path.toList_text_pattern (g : Path) :
    (g.pattern.text .parameterized).toList = Shown.walksText (g.walks.map Walk.shown) := by
  rw [pattern, Phrase.toList_text_joined, Shown.walksText, List.map_map, List.map_map]
  exact congrArg _ (List.map_congr_left fun w _ => w.toList_text_pattern)

/-! ## Names -/

/-- A property with names for its variable and its handle. -/
structure Property.Named (p : Property) : Prop where
  var : IsName p.var
  handle : IsName p.handle

/-- A node with names for its variable, its label, and those of its properties. -/
structure Node.Named (n : Node) : Prop where
  var : IsName n.var
  label : ∀ label ∈ n.label, IsName label
  props : ∀ p ∈ n.props, p.Named

/-- The same for a relationship. -/
structure Relationship.Named (r : Relationship) : Prop where
  var : IsName r.var
  kind : ∀ kind ∈ r.kind, IsName kind
  props : ∀ p ∈ r.props, p.Named

/-- A path of nodes and relationships with names. -/
def Path.Named (g : Path) : Prop :=
  (Entity.path g).All Node.Named Relationship.Named fun _ => True

theorem Property.Named.shown {props : List Property} (h : ∀ p ∈ props, p.Named) :
    ∀ entry ∈ props.filterMap Property.shown?, IsName entry.1 ∧ IsName entry.2 := by
  intro entry hentry
  obtain ⟨p, hp, hshown⟩ := List.mem_filterMap.mp hentry
  obtain ⟨_, -, rfl⟩ := Option.map_eq_some_iff.mp hshown
  exact ⟨(h p hp).handle, (h p hp).var⟩

theorem isName_of_visible {anonymous : Bool} {var : String} (h : IsName var) :
    ∀ v ∈ if anonymous then none else some var, IsName v := by
  intro v hv
  split_ifs at hv
  · cases hv
  · exact Option.some.inj hv ▸ h

theorem Node.Named.shown {n : Node} (h : n.Named) : n.shown.Named :=
  ⟨isName_of_visible h.var, h.label, Property.Named.shown h.props⟩

theorem Relationship.Named.shown {r : Relationship} (h : r.Named) : r.shown.Named :=
  ⟨isName_of_visible h.var, h.kind, Property.Named.shown h.props⟩

/-- The walks of a path have its nodes and edges. -/
theorem Path.Named.shown {g : Path} (h : g.Named) :
    ∀ w ∈ g.walks.map Walk.shown, Shown.NamedWalk w := by
  intro shown hshown
  obtain ⟨w, hw, rfl⟩ := List.mem_map.mp hshown
  obtain ⟨hnodes, hedges⟩ := Entity.All.ofWalk h hw
  refine ⟨(hnodes w.first List.mem_cons_self).shown, fun hop hhop => ?_⟩
  obtain ⟨hop, hmem, rfl⟩ := List.mem_map.mp hhop
  exact ⟨(hedges _ (List.mem_map_of_mem hmem)).shown,
    (hnodes _ (List.mem_cons_of_mem _ (List.mem_map_of_mem hmem))).shown⟩

/-- The parameterized text of a path tells what its pattern shows, if its nodes and relationships
have names: two paths have one text if and only if they show the same walks. -/
theorem Path.text_eq_iff {g h : Path} (hg : g.Named) (hh : h.Named) :
    g.pattern.text .parameterized = h.pattern.text .parameterized ↔
      g.walks.map Walk.shown = h.walks.map Walk.shown := by
  rw [← String.toList_inj, g.toList_text_pattern, h.toList_text_pattern]
  exact ⟨Shown.walksText_inj hg.shown hh.shown, fun heq => by rw [heq]⟩

namespace Path

/-- Two triples without a common node, which are written as two walks. The first one has an edge
and a target that show nothing, and a source that shows a property. -/
def withHidden (n : Int) (edge target : String) (asName : Option String) : Path :=
  let k : Property := ⟨"p0", "k", some (.number (.integer n)), none, some "n0"⟩
  ⟨"g0", [⟨{ var := "n0", label := some "A", props := [k], asName },
      { var := edge, kind := none, anonymous := true },
      { var := target, label := none, anonymous := true }⟩,
    ⟨{ var := "n2", label := none }, { var := "r1", kind := some "q" },
      { var := "n3", label := some "D" }⟩]⟩

theorem named_withHidden (n : Int) {edge target : String} (hedge : IsName edge)
    (htarget : IsName target) (asName : Option String) :
    (withHidden n edge target asName).Named := by
  have hname : ∀ text ∈ ["n0", "A", "p0", "k", "n2", "r1", "q", "n3", "D"], IsName text := by
    intro text htext
    have halphanum : ∀ text ∈ ["n0", "A", "p0", "k", "n2", "r1", "q", "n3", "D"],
      text ≠ "" ∧ text.toList.all Char.isAlphanum = true := by decide
    exact isName_of_isAlphanum (halphanum text htext).1 (halphanum text htext).2
  refine Entity.all_path fun t ht => ?_
  rcases List.mem_pair.mp ht with rfl | rfl
  · refine Entity.all_triple ⟨hname _ (by simp), ?_, ?_⟩ ⟨hedge, ?_, ?_⟩ ⟨htarget, ?_, ?_⟩
    all_goals simp
    · exact hname _ (by simp)
    · exact ⟨hname _ (by simp), hname _ (by simp)⟩
  · refine Entity.all_triple ⟨hname _ (by simp), ?_, ?_⟩ ⟨hname _ (by simp), ?_, ?_⟩
      ⟨hname _ (by simp), ?_, ?_⟩
    all_goals simp
    · exact hname _ (by simp)
    · exact hname _ (by simp)

/-- Paths with one text that differ in a value, in the variables that are hidden and in the name
under which a node is returned. -/
theorem text_eq_withHidden :
    let g := withHidden 1 "r0" "n1" none
    let h := withHidden 2 "r7" "n8" (some "a")
    g.Named ∧ h.Named ∧
      g.pattern.text .parameterized = "(n0:A \x7bk:$p0\x7d)-->(), (n2)-[r1:q]->(n3:D)" ∧
      h.pattern.text .parameterized = "(n0:A \x7bk:$p0\x7d)-->(), (n2)-[r1:q]->(n3:D)" ∧
      g.walks.map Walk.shown = h.walks.map Walk.shown := by
  intro g h
  have hg : g.Named := named_withHidden 1 (isName_of_isAlphanum (by decide) (by decide))
    (isName_of_isAlphanum (by decide) (by decide)) none
  have hh : h.Named := named_withHidden 2 (isName_of_isAlphanum (by decide) (by decide))
    (isName_of_isAlphanum (by decide) (by decide)) (some "a")
  have htext : g.pattern.text .parameterized
      = "(n0:A \x7bk:$p0\x7d)-->(), (n2)-[r1:q]->(n3:D)" := by decide
  have htext' : h.pattern.text .parameterized
      = "(n0:A \x7bk:$p0\x7d)-->(), (n2)-[r1:q]->(n3:D)" := by decide
  exact ⟨hg, hh, htext, htext', (text_eq_iff hg hh).mp (htext.trans htext'.symm)⟩

/-- A label that is no name can look like a property. -/
example :
    let k : Property := ⟨"p0", "k", some (.bool true), none, none⟩
    let n : Node := { var := "n0", label := some "A \x7bk:$p0\x7d" }
    let m : Node := { var := "n0", label := some "A", props := [k] }
    n.pattern.text .parameterized = m.pattern.text .parameterized := by decide

end Path

end CypherRoutes
