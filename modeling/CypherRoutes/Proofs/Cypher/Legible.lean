/-
# Legible phrases

A phrase is legible if a scan of its parameterized text finds the slots again: between the slots
stand no dollar signs and no quotes, every slot is called by a name, and behind a slot the text ends
or goes on with a character that ends the name. Inlining the values of the slots into the
parameterized text of a legible phrase gives its literal text
(`Phrase.Legible.inlineParameters_text`).
-/
import CypherRoutes.Cypher.Inline
import CypherRoutes.Proofs.Cypher.Slots

namespace CypherRoutes

/-! ## Texts that a scan passes over -/

/-- A text without dollar signs and quotes: a scan finds no placeholder and no literal in it. -/
def IsInert (text : String) : Prop := '$' ∉ text.toList ∧ '\'' ∉ text.toList

instance (text : String) : Decidable (IsInert text) := inferInstanceAs (Decidable (_ ∧ _))

theorem isInert_append {a b : String} : IsInert (a ++ b) ↔ IsInert a ∧ IsInert b := by
  unfold IsInert
  simp only [String.toList_append, List.mem_append, not_or]
  tauto

/-- A name that a placeholder can have. -/
def IsName (var : String) : Prop := var.toList ≠ [] ∧ ∀ c ∈ var.toList, isNameChar c = true

theorem isNameChar_of_isAlphanum {c : Char} (h : c.isAlphanum = true) : isNameChar c = true := by
  have hascii : c.toNat < 0x80 := by
    simp only [Char.isAlphanum, Char.isAlpha, Char.isUpper, Char.isLower, Char.isDigit,
      Bool.or_eq_true, Bool.and_eq_true, decide_eq_true_eq, UInt32.le_iff_toNat_le] at h
    change ((65 ≤ c.toNat ∧ c.toNat ≤ 90) ∨ (97 ≤ c.toNat ∧ c.toNat ≤ 122)) ∨
      (48 ≤ c.toNat ∧ c.toNat ≤ 57) at h
    omega
  rw [isNameChar, isAlphanumeric, if_pos hascii, h, Bool.true_or]

/-- Letters and digits make a name. -/
theorem isName_of_isAlphanum {text : String} (hne : text ≠ "")
    (h : text.toList.all Char.isAlphanum = true) : IsName text :=
  ⟨fun hnil => hne (String.toList_eq_nil_iff.mp hnil), fun c hc =>
    isNameChar_of_isAlphanum (List.all_eq_true.mp h c hc)⟩

/-- A name is passed over where it is not behind a dollar sign. -/
theorem IsName.isInert {var : String} (h : IsName var) : IsInert var := by
  constructor
  · intro hdollar
    exact absurd (h.2 _ hdollar) (by decide)
  · intro hquote
    exact absurd (h.2 _ hquote) (by decide)

/-- A text behind which a name ends: it is over, or its first character belongs to no name. -/
def EndsName (text : List Char) : Prop := ∀ c ∈ text.head?, isNameChar c = false

theorem endsName_nil : EndsName [] := by
  intro c hc
  cases hc

theorem endsName_cons {c : Char} (h : isNameChar c = false) (rest : List Char) :
    EndsName (c :: rest) := by
  intro d hd
  obtain rfl := Option.some.inj hd
  exact h

instance (text : List Char) : Decidable (EndsName text) :=
  match text with
  | [] => .isTrue endsName_nil
  | c :: rest =>
    decidable_of_iff (isNameChar c = false) ⟨fun h => endsName_cons h rest, fun h => h c rfl⟩

theorem EndsName.append {a b : List Char} (ha : EndsName a) (hb : EndsName b) :
    EndsName (a ++ b) := by
  cases a with
  | nil => exact hb
  | cons c rest => exact endsName_cons (ha c rfl) _

/-- The beginning decides. -/
theorem EndsName.append_of_ne_nil {a : List Char} (ha : EndsName a) (hne : a ≠ [])
    (b : List Char) : EndsName (a ++ b) := by
  obtain ⟨c, rest, rfl⟩ := List.exists_cons_of_ne_nil hne
  exact endsName_cons (ha c rfl) _

/-! ## Scanning -/

/-- Every character of an inert text is kept. -/
theorem fragments_inert {text : List Char} (hdollar : '$' ∉ text) (hquote : '\'' ∉ text)
    (rest : List Char) :
    fragments .outside none (text ++ rest)
      = text.map (fun c => .kept [c]) ++ fragments .outside none rest := by
  induction text with
  | nil => rfl
  | cons c text ih =>
      rw [List.mem_cons, not_or] at hdollar hquote
      have hc : c ≠ '$' := fun h => hdollar.1 h.symm
      have hc' : c ≠ '\'' := fun h => hquote.1 h.symm
      rw [List.cons_append, fragments, fragments.start, if_neg (by simpa using hc),
        if_neg (by simpa using hc'), ih hdollar.2 hquote.2]
      rfl

/-- Behind a dollar sign the characters of a name are read up to where the name ends. -/
theorem fragments_name {name rest : List Char} (hname : ∀ c ∈ name, isNameChar c = true)
    (hrest : EndsName rest) (read : List Char) :
    fragments .outside (some read) (name ++ rest)
      = fragments.finish (name.reverse ++ read) :: fragments .outside none rest := by
  induction name generalizing read with
  | nil =>
      cases rest with
      | nil => rw [List.nil_append, fragments, fragments, List.reverse_nil, List.nil_append]
      | cons c rest =>
          have hc : isNameChar c = false := hrest c rfl
          rw [List.nil_append, fragments, fragments, if_neg (by simp [hc])]
          rfl
  | cons c name ih =>
      have hc : isNameChar c = true := hname c List.mem_cons_self
      rw [List.cons_append, fragments, if_pos hc,
        ih (fun d hd => hname d (List.mem_cons_of_mem c hd)), List.reverse_cons,
        List.append_assoc]
      rfl

/-- A placeholder is found if the text behind it ends its name. -/
theorem fragments_placeholder {var : String} (h : IsName var) {rest : List Char}
    (hrest : EndsName rest) :
    fragments .outside none ('$' :: (var.toList ++ rest))
      = .placeholder var :: fragments .outside none rest := by
  have hfinish : fragments.finish var.toList.reverse = .placeholder var := by
    have hne : var.toList.reverse.isEmpty = false := by
      simpa using h.1
    rw [fragments.finish, hne, List.reverse_reverse, String.ofList_toList]
    rfl
  rw [fragments, fragments.start, if_pos (by decide), fragments_name h.2 hrest, List.append_nil,
    hfinish]

/-! ## Substituting -/

/-- Kept characters stay in front of what is substituted behind them. -/
theorem substitute_kept (params : Params) (text : List Char) (rest : List Fragment) :
    substitute params (text.map (fun c => .kept [c]) ++ rest)
      = (substitute params rest).map (text ++ ·) := by
  induction text with
  | nil =>
      rw [List.map_nil, List.nil_append]
      cases substitute params rest <;> rfl
  | cons c text ih =>
      rw [List.map_cons, List.cons_append, substitute, ih]
      cases substitute params rest <;> rfl

/-- A placeholder gives way to the literal of its value. -/
theorem substitute_placeholder {params : Params} {var : String} {value : Value}
    (hvalue : params.get? var = some value) {rest : List Fragment} {more : List Char}
    (h : substitute params rest = .ok more) :
    substitute params (.placeholder var :: rest) = .ok (value.literal.toList ++ more) := by
  rw [substitute, Fragment.text, hvalue, h]
  rfl

/-! ## Legible phrases -/

namespace Phrase

/-- A scan of the parameterized text finds the slots. -/
inductive Legible : Phrase → Prop where
  | nil : Legible []
  | verbatim {text : String} {rest : Phrase} : IsInert text → Legible rest →
      Legible (.verbatim text :: rest)
  | slot {var : String} {rest : Phrase} (value : Value) : IsName var →
      EndsName (rest.text .parameterized).toList → Legible rest → Legible (.slot var value :: rest)

theorem text_cons (mode : Mode) (piece : Piece) (rest : Phrase) :
    text mode (piece :: rest) = piece.text mode ++ text mode rest := by
  rw [text, List.map_cons, String.join_cons, text]

theorem text_append (mode : Mode) (a b : Phrase) :
    text mode (a ++ b) = text mode a ++ text mode b := by
  induction a with
  | nil => simp [text]
  | cons piece rest ih => rw [List.cons_append, text_cons, text_cons, ih, String.append_assoc]

/-- A fixed text is the text of its phrase. -/
theorem text_verbatim (mode : Mode) (fixed : String) : text mode [.verbatim fixed] = fixed := by
  rw [text_cons, Piece.text]
  exact String.append_empty

/-- A phrase that begins with a text ends a name if that text does. -/
theorem endsName_verbatim {text : String} (h : EndsName text.toList) (hne : text.toList ≠ [])
    (rest : Phrase) : EndsName (Phrase.text .parameterized (.verbatim text :: rest)).toList := by
  rw [text_cons, String.toList_append, Piece.text]
  exact h.append_of_ne_nil hne _

namespace Legible

/-- A single text. -/
theorem ofText {text : String} (h : IsInert text) : Legible (Phrase.ofText text) :=
  .verbatim h .nil

/-- Legible phrases one after the other, if the second ends a name. -/
theorem append {a b : Phrase} (ha : Legible a) (hb : Legible b)
    (hends : EndsName (b.text .parameterized).toList) : Legible (a ++ b) := by
  induction ha with
  | nil => exact hb
  | verbatim htext _ ih => exact .verbatim htext ih
  | slot value hname hrest _ ih =>
      refine .slot value hname ?_ ih
      show EndsName (Phrase.text .parameterized (_ ++ b)).toList
      rw [text_append, String.toList_append]
      exact hrest.append hends

/-- Legible phrases with a separator between each two, if the separator ends a name. -/
theorem joined {separator : String} (hinert : IsInert separator)
    (hends : EndsName separator.toList) (hne : separator.toList ≠ []) {phrases : List Phrase}
    (h : ∀ p ∈ phrases, Legible p) : Legible (Phrase.joined separator phrases) := by
  rw [Phrase.joined]
  induction phrases with
  | nil => exact .nil
  | cons p rest ih =>
      have hp : Legible p := h p List.mem_cons_self
      cases rest with
      | nil => simpa [List.intercalate] using hp
      | cons q rest =>
          have hrest := ih fun p' hp' => h p' (List.mem_cons_of_mem p hp')
          rw [List.intercalate_cons_cons, List.append_assoc]
          exact hp.append (.verbatim hinert hrest) (endsName_verbatim hends hne _)

/-- What a scan of a legible phrase finds: the characters of its texts, and its slots. -/
theorem fragments_text {phrase : Phrase} (h : phrase.Legible) :
    fragments .outside none (phrase.text .parameterized).toList
      = phrase.flatMap fun
        | .verbatim text => text.toList.map fun c => .kept [c]
        | .slot var _ => [.placeholder var] := by
  induction h with
  | nil => simp [text, fragments]
  | verbatim htext _ ih =>
      rw [text_cons, String.toList_append, Piece.text, fragments_inert htext.1 htext.2, ih]
      rfl
  | slot value hname hrest _ ih =>
      rw [text_cons, String.toList_append, Piece.text, String.toList_append, List.append_assoc]
      exact (fragments_placeholder hname hrest).trans (by rw [ih]; rfl)

/-- Inlining the values of the slots into the parameterized text of a legible phrase gives its
literal text. -/
theorem inlineParameters_text {phrase : Phrase} (h : phrase.Legible) {params : Params}
    (hvalues : ∀ var value, (var, value) ∈ phrase.slots → params.get? var = some value) :
    inlineParameters (phrase.text .parameterized) params = .ok (phrase.text .literal) := by
  have hsubstitute : substitute params (fragments .outside none
      (phrase.text .parameterized).toList) = .ok (phrase.text .literal).toList := by
    rw [h.fragments_text]
    clear h
    induction phrase with
    | nil => rfl
    | cons piece rest ih =>
        rw [List.flatMap_cons, text_cons, String.toList_append]
        cases piece with
        | verbatim text =>
            rw [substitute_kept, ih hvalues]
            rfl
        | slot var value =>
            have hrest := ih fun v x hx => hvalues v x (List.mem_cons_of_mem _ hx)
            exact substitute_placeholder (hvalues var value List.mem_cons_self) hrest
  rw [inlineParameters, hsubstitute]
  exact congrArg Except.ok String.ofList_toList

end Legible

/-! ## Phrases behind a slot -/

/-- A legible phrase that can stand right behind a slot. -/
structure Separate (phrase : Phrase) : Prop where
  legible : phrase.Legible
  ends : EndsName (phrase.text .parameterized).toList

namespace Separate

theorem nil : Separate [] := ⟨.nil, by simp [text, endsName_nil]⟩

/-- A text that ends a name, with anything legible behind it. -/
theorem verbatim {text : String} (hinert : IsInert text) (hends : EndsName text.toList)
    (hne : text.toList ≠ []) {rest : Phrase} (h : rest.Legible) :
    Separate (.verbatim text :: rest) :=
  ⟨.verbatim hinert h, endsName_verbatim hends hne rest⟩

/-- A text that goes on after a beginning that ends a name. -/
theorem verbatim_append {start text : String} (hstart : IsInert start)
    (hends : EndsName start.toList) (hne : start.toList ≠ []) (htext : IsInert text)
    {rest : Phrase} (h : rest.Legible) : Separate (.verbatim (start ++ text) :: rest) := by
  refine .verbatim (isInert_append.mpr ⟨hstart, htext⟩) ?_ ?_ h
  · rw [String.toList_append]
    exact hends.append_of_ne_nil hne _
  · rw [String.toList_append]
    exact List.append_ne_nil_of_left_ne_nil hne _

theorem append {a b : Phrase} (ha : Separate a) (hb : Separate b) : Separate (a ++ b) := by
  refine ⟨ha.legible.append hb.legible hb.ends, ?_⟩
  rw [text_append, String.toList_append]
  exact ha.ends.append hb.ends

theorem flatMap {α : Type} {f : α → Phrase} {l : List α} (h : ∀ a ∈ l, Separate (f a)) :
    Separate (l.flatMap f) := by
  induction l with
  | nil => exact .nil
  | cons a rest ih =>
      have hrest := ih fun b hb => h b (List.mem_cons_of_mem _ hb)
      exact (h a List.mem_cons_self).append hrest

end Separate

end Phrase

end CypherRoutes
