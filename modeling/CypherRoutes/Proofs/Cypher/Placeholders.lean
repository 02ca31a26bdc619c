/-
# The placeholders of a text

A text is cut from left to right into quoted literals, placeholders and other characters. A literal
ends with the first quote that no backslash escapes, or with the text; a placeholder is a dollar
sign with the longest name behind it, and a dollar sign without a name is a character like any
other. There is one way to cut a text (`Cuts.unique`, `exists_cuts`), and inlining gives its parts
back, with a literal of its value for every placeholder, or fails for the first one that has no
value (`inlineParameters_cuts`).
-/
import CypherRoutes.Proofs.Cypher.Legible

namespace CypherRoutes

/-! ## Cutting a text -/

/-- What may stand between two quotes: characters other than quotes and backslashes, and backslashes
each with the character that it escapes. -/
inductive IsQuotable : List Char → Prop where
  | nil : IsQuotable []
  | plain {c : Char} {rest : List Char} : c ≠ '\'' → c ≠ '\\' → IsQuotable rest →
      IsQuotable (c :: rest)
  | escaped (c : Char) {rest : List Char} : IsQuotable rest → IsQuotable ('\\' :: c :: rest)

/-- What may stand behind a quote up to the end of the text, where a backslash has nothing to
escape. -/
def IsUnclosed (inner : List Char) : Prop :=
  IsQuotable inner ∨ ∃ start, IsQuotable start ∧ inner = start ++ ['\\']

/-- A part of a text. -/
inductive TextPart where
  /-- A quoted literal, with its quotes. -/
  | literal (text : List Char)
  /-- A dollar sign with the name of a parameter. -/
  | placeholder (name : String)
  /-- Any other character. -/
  | other (c : Char)

/-- The parts into which a text is cut from left to right. -/
inductive Cuts : List Char → List TextPart → Prop where
  | nil : Cuts [] []
  | closed {inner rest : List Char} {parts : List TextPart} : IsQuotable inner → Cuts rest parts →
      Cuts ('\'' :: (inner ++ '\'' :: rest)) (.literal ('\'' :: (inner ++ ['\''])) :: parts)
  | unclosed {inner : List Char} : IsUnclosed inner →
      Cuts ('\'' :: inner) [.literal ('\'' :: inner)]
  | placeholder {name : String} {rest : List Char} {parts : List TextPart} : IsName name →
      EndsName rest → Cuts rest parts →
      Cuts ('$' :: (name.toList ++ rest)) (.placeholder name :: parts)
  | other {c : Char} {rest : List Char} {parts : List TextPart} : c ≠ '\'' →
      (c = '$' → EndsName rest) → Cuts rest parts → Cuts (c :: rest) (.other c :: parts)

/-! ## There is one way to cut a text -/

/-- A literal ends with its first quote that is not escaped. -/
theorem IsQuotable.append_quote_inj {inner inner' rest rest' : List Char} (h : IsQuotable inner)
    (h' : IsQuotable inner') (heq : inner ++ '\'' :: rest = inner' ++ '\'' :: rest') :
    inner = inner' ∧ rest = rest' := by
  induction h generalizing inner' with
  | nil =>
      cases h' with
      | nil => exact ⟨rfl, (List.cons.inj heq).2⟩
      | plain hquote => exact absurd (List.cons.inj heq).1.symm hquote
      | escaped => exact absurd (List.cons.inj heq).1 (by decide)
  | plain hquote hbackslash _ ih =>
      cases h' with
      | nil => exact absurd (List.cons.inj heq).1 hquote
      | plain _ _ h' =>
          obtain ⟨rfl, hrest⟩ := List.cons.inj heq
          obtain ⟨rfl, rfl⟩ := ih h' hrest
          exact ⟨rfl, rfl⟩
      | escaped => exact absurd (List.cons.inj heq).1 hbackslash
  | escaped c _ ih =>
      cases h' with
      | nil => exact absurd (List.cons.inj heq).1 (by decide)
      | plain _ hbackslash => exact absurd (List.cons.inj heq).1.symm hbackslash
      | escaped d h' =>
          simp only [List.cons_append, List.cons.injEq, true_and] at heq
          obtain ⟨rfl, hrest⟩ := heq
          obtain ⟨rfl, rfl⟩ := ih h' hrest
          exact ⟨rfl, rfl⟩

/-- What stands between quotes does not go on behind the second one. -/
theorem IsQuotable.not_append_quote {inner : List Char} (h : IsQuotable inner)
    (rest : List Char) : ¬ IsQuotable (inner ++ '\'' :: rest) := by
  intro h'
  generalize htext : inner ++ '\'' :: rest = text at h'
  induction h generalizing text with
  | nil =>
      cases h' with
      | nil => cases htext
      | plain hquote => exact hquote (List.cons.inj htext).1.symm
      | escaped => exact absurd (List.cons.inj htext).1 (by decide)
  | plain _ hbackslash _ ih =>
      cases h' with
      | nil => cases htext
      | plain _ _ h' => exact ih _ (List.cons.inj htext).2 h'
      | escaped => exact hbackslash (List.cons.inj htext).1
  | escaped c _ ih =>
      cases h' with
      | nil => cases htext
      | plain _ hbackslash => exact hbackslash (List.cons.inj htext).1.symm
      | escaped _ h' => exact ih _ (List.cons.inj (List.cons.inj htext).2).2 h'

/-- A literal that is closed does not run to the end of the text. -/
theorem IsQuotable.not_isUnclosed {inner : List Char} (h : IsQuotable inner)
    (rest : List Char) : ¬ IsUnclosed (inner ++ '\'' :: rest) := by
  rintro (hquotable | ⟨start, hstart, heq⟩)
  · exact h.not_append_quote rest hquotable
  · -- the backslash at the end stands behind the quote
    rcases List.eq_nil_or_concat rest with rfl | ⟨rest, c, rfl⟩
    · exact absurd (List.append_inj_right' heq rfl) (by decide)
    · have hsplit : (inner ++ '\'' :: rest) ++ [c] = start ++ ['\\'] := by simpa using heq
      have hinner := List.append_inj_left' hsplit rfl
      exact h.not_append_quote rest (hinner ▸ hstart)

/-- Behind an opening quote a text goes on to a closing quote or to its end. -/
theorem exists_quotable : ∀ text : List Char,
    (∃ inner rest, IsQuotable inner ∧ text = inner ++ '\'' :: rest) ∨ IsUnclosed text
  | [] => .inr (.inl .nil)
  | c :: text => by
      by_cases hquote : c = '\''
      · exact .inl ⟨[], text, .nil, by rw [hquote, List.nil_append]⟩
      · by_cases hbackslash : c = '\\'
        · subst hbackslash
          match text with
          | [] => exact .inr (.inr ⟨[], .nil, rfl⟩)
          | d :: text =>
            rcases exists_quotable text with
              ⟨inner, rest, hinner, rfl⟩ | hinner | ⟨start, hstart, rfl⟩
            · exact .inl ⟨'\\' :: d :: inner, rest, .escaped d hinner, rfl⟩
            · exact .inr (.inl (.escaped d hinner))
            · exact .inr (.inr ⟨'\\' :: d :: start, .escaped d hstart, rfl⟩)
        · rcases exists_quotable text with
            ⟨inner, rest, hinner, rfl⟩ | hinner | ⟨start, hstart, rfl⟩
          · exact .inl ⟨c :: inner, rest, .plain hquote hbackslash hinner, rfl⟩
          · exact .inr (.inl (.plain hquote hbackslash hinner))
          · exact .inr (.inr ⟨c :: start, .plain hquote hbackslash hstart, rfl⟩)

/-- A run of characters of one sort ends where a character of another sort follows. -/
theorem takeWhile_run {p : Char → Bool} {run rest : List Char} (h : ∀ c ∈ run, p c = true)
    (hrest : ∀ c ∈ rest.head?, p c = false) : (run ++ rest).takeWhile p = run := by
  rw [List.takeWhile_append_of_pos h]
  cases rest with
  | nil => rw [List.takeWhile_nil, List.append_nil]
  | cons c rest => rw [List.takeWhile_cons_of_neg (by simp [hrest c rfl]), List.append_nil]

/-- The name that a text begins with ends where no character of a name follows. -/
theorem takeWhile_name {name : String} {rest : List Char} (h : IsName name)
    (hrest : EndsName rest) : (name.toList ++ rest).takeWhile isNameChar = name.toList :=
  takeWhile_run h.2 hrest

/-- A text that begins with a name does not end one. -/
theorem IsName.not_endsName {name : String} (h : IsName name) (rest : List Char) :
    ¬ EndsName (name.toList ++ rest) := by
  obtain ⟨c, more, hname⟩ := List.exists_cons_of_ne_nil h.1
  have hc : isNameChar c = true := h.2 c (hname ▸ List.mem_cons_self)
  intro hends
  rw [hname] at hends
  exact absurd (hends c rfl) (by simp [hc])

/-- There is at most one way to cut a text. -/
theorem Cuts.unique {text : List Char} {parts other : List TextPart} (h : Cuts text parts)
    (h' : Cuts text other) : parts = other := by
  -- the first character and the shape of what follows decide which part comes first
  induction h generalizing other with
  | nil =>
      cases h'
      rfl
  | @closed inner rest parts hinner _ ih =>
      generalize htext : '\'' :: (inner ++ '\'' :: rest) = text at h'
      cases h' with
      | nil => cases htext
      | closed hinner' hrest' =>
          obtain ⟨rfl, rfl⟩ := hinner.append_quote_inj hinner' (List.cons.inj htext).2
          rw [ih hrest']
      | unclosed hunclosed =>
          obtain ⟨-, rfl⟩ := List.cons.inj htext
          exact absurd hunclosed (hinner.not_isUnclosed rest)
      | placeholder => exact absurd (List.cons.inj htext).1 (by decide)
      | other hquote => exact absurd (List.cons.inj htext).1.symm hquote
  | @unclosed inner hunclosed =>
      generalize htext : '\'' :: inner = text at h'
      cases h' with
      | nil => cases htext
      | closed hinner' =>
          obtain ⟨-, rfl⟩ := List.cons.inj htext
          exact absurd hunclosed (hinner'.not_isUnclosed _)
      | unclosed =>
          obtain ⟨-, rfl⟩ := List.cons.inj htext
          rfl
      | placeholder => exact absurd (List.cons.inj htext).1 (by decide)
      | other hquote => exact absurd (List.cons.inj htext).1.symm hquote
  | @placeholder name rest parts hname hends _ ih =>
      generalize htext : '$' :: (name.toList ++ rest) = text at h'
      cases h' with
      | nil => cases htext
      | closed => exact absurd (List.cons.inj htext).1 (by decide)
      | unclosed => exact absurd (List.cons.inj htext).1 (by decide)
      | @placeholder name' rest' _ hname' hends' hrest' =>
          have htail : name.toList ++ rest = name'.toList ++ rest' := (List.cons.inj htext).2
          have hnames : name.toList = name'.toList := by
            rw [← takeWhile_name hname hends, htail, takeWhile_name hname' hends']
          obtain rfl := String.toList_inj.mp hnames
          obtain rfl := List.append_cancel_left htail
          rw [ih hrest']
      | other _ hdollar =>
          obtain ⟨rfl, rfl⟩ := List.cons.inj htext
          exact absurd (hdollar rfl) (hname.not_endsName rest)
  | @other c rest parts hquote hdollar _ ih =>
      generalize htext : c :: rest = text at h'
      cases h' with
      | nil => cases htext
      | closed => exact absurd (List.cons.inj htext).1 hquote
      | unclosed => exact absurd (List.cons.inj htext).1 hquote
      | placeholder hname =>
          obtain ⟨rfl, rfl⟩ := List.cons.inj htext
          exact absurd (hdollar rfl) (hname.not_endsName _)
      | other _ _ hrest' =>
          obtain ⟨rfl, rfl⟩ := List.cons.inj htext
          rw [ih hrest']

/-- A text begins with what ends a name, or with a name and then what ends it. -/
theorem endsName_or_exists_name (text : List Char) :
    EndsName text ∨ ∃ name rest, IsName name ∧ EndsName rest ∧ text = name.toList ++ rest := by
  have hends : EndsName (text.dropWhile isNameChar) := by
    intro c hc
    have hhead := List.head?_dropWhile_not isNameChar text
    rwa [Option.mem_def.mp hc] at hhead
  by_cases hname : text.takeWhile isNameChar = []
  · left
    rwa [← List.takeWhile_append_dropWhile (p := isNameChar) (l := text), hname, List.nil_append]
  · refine .inr ⟨String.ofList (text.takeWhile isNameChar), text.dropWhile isNameChar, ⟨?_, ?_⟩,
      hends, ?_⟩
    · rwa [String.toList_ofList]
    · rw [String.toList_ofList]
      exact fun c hc => List.mem_takeWhile_imp hc
    · rw [String.toList_ofList, List.takeWhile_append_dropWhile]

/-- Every text can be cut. -/
theorem exists_cuts (text : List Char) : ∃ parts, Cuts text parts := by
  induction hlength : text.length using Nat.strong_induction_on generalizing text with
  | _ length ih =>
    cases text with
    | nil => exact ⟨[], .nil⟩
    | cons c text =>
        have hcuts : ∀ rest : List Char, rest.length ≤ text.length → ∃ parts, Cuts rest parts :=
          fun rest hrest => ih rest.length (hlength ▸ Nat.lt_succ_of_le hrest) rest rfl
        by_cases hquote : c = '\''
        · subst hquote
          rcases exists_quotable text with ⟨inner, rest, hinner, rfl⟩ | hunclosed
          · obtain ⟨parts, hparts⟩ := hcuts rest (by simp; omega)
            exact ⟨_, .closed hinner hparts⟩
          · exact ⟨_, .unclosed hunclosed⟩
        · by_cases hname : c = '$' ∧ ¬ EndsName text
          · obtain ⟨rfl, hnot⟩ := hname
            obtain ⟨name, rest, hname, hends, rfl⟩ :=
              (endsName_or_exists_name text).resolve_left hnot
            obtain ⟨parts, hparts⟩ := hcuts rest (by simp)
            exact ⟨_, .placeholder hname hends hparts⟩
          · obtain ⟨parts, hparts⟩ := hcuts text le_rfl
            exact ⟨_, .other hquote (not_and_not_right.mp hname) hparts⟩

/-! ## Scanning the parts -/

/-- The fragments that a scan finds in a part. -/
def TextPart.fragments : TextPart → List Fragment
  | literal text => text.map fun c => .kept [c]
  | placeholder name => [.placeholder name]
  | other c => [.kept [c]]

/-- In a literal a scan keeps the next character. -/
theorem fragments_inside_cons (c : Char) (rest : List Char) :
    fragments .inside none (c :: rest)
      = .kept [c] :: fragments (Quoting.inside.next c) none rest := by
  rw [fragments] <;> simp

theorem fragments_escaped_cons (c : Char) (rest : List Char) :
    fragments .escaped none (c :: rest) = .kept [c] :: fragments .inside none rest := by
  rw [fragments] <;> simp [Quoting.next]

/-- A quote begins a literal. -/
theorem fragments_quote (rest : List Char) :
    fragments .outside none ('\'' :: rest) = .kept ['\''] :: fragments .inside none rest := by
  rw [fragments, fragments.start, if_neg (by decide), if_pos (by decide)]

/-- Between quotes a scan keeps every character. -/
theorem fragments_quotable {inner : List Char} (h : IsQuotable inner) (rest : List Char) :
    fragments .inside none (inner ++ rest)
      = inner.map (fun c => .kept [c]) ++ fragments .inside none rest := by
  induction h with
  | nil => rfl
  | @plain c inner hquote hbackslash _ ih =>
      have hnext : Quoting.inside.next c = .inside := by
        unfold Quoting.next
        split <;> simp_all
      rw [List.cons_append, fragments_inside_cons, hnext, ih]
      rfl
  | escaped c _ ih =>
      have hnext : Quoting.inside.next '\\' = .escaped := rfl
      rw [List.cons_append, List.cons_append, fragments_inside_cons, hnext, fragments_escaped_cons,
        ih]
      rfl

/-- A closed literal is kept with its quotes. -/
theorem fragments_literal {inner : List Char} (h : IsQuotable inner) (rest : List Char) :
    fragments .outside none ('\'' :: (inner ++ '\'' :: rest))
      = ('\'' :: (inner ++ ['\''])).map (fun c => .kept [c]) ++ fragments .outside none rest := by
  have hclose : Quoting.inside.next '\'' = .outside := rfl
  rw [fragments_quote, fragments_quotable h, fragments_inside_cons, hclose]
  simp

/-- So are the characters of a literal that is not closed. -/
theorem fragments_unclosed {inner : List Char} (h : IsUnclosed inner) :
    fragments .inside none inner = inner.map fun c => .kept [c] := by
  rcases h with hquotable | ⟨start, hstart, rfl⟩
  · have hscan := fragments_quotable hquotable []
    rwa [List.append_nil, fragments, List.append_nil] at hscan
  · rw [fragments_quotable hstart, fragments_inside_cons, fragments, List.map_append]
    rfl

/-- A scan finds the placeholders of a text and keeps all other characters. -/
theorem Cuts.fragments_eq {text : List Char} {parts : List TextPart} (h : Cuts text parts) :
    fragments .outside none text = parts.flatMap TextPart.fragments := by
  induction h with
  | nil => rw [fragments, List.flatMap_nil]
  | @closed inner rest parts hinner _ ih =>
      rw [fragments_literal hinner, ih]
      rfl
  | unclosed hunclosed =>
      rw [fragments_quote, fragments_unclosed hunclosed]
      simp [TextPart.fragments]
  | placeholder hname hends _ ih =>
      rw [fragments_placeholder hname hends, ih]
      rfl
  | @other c rest parts hquote hdollar _ ih =>
      rw [List.flatMap_cons, ← ih, fragments, fragments.start]
      by_cases hc : c = '$'
      · -- a dollar sign without a name
        subst hc
        rw [if_pos (by decide)]
        exact fragments_name (fun _ hd => absurd hd List.not_mem_nil) (hdollar rfl) []
      · rw [if_neg (by simpa using hc), if_neg (by simpa using hquote)]
        rfl

/-! ## Filling in the values -/

/-- The name of a placeholder that has no value. -/
def TextPart.missing? (params : Params) : TextPart → Option String
  | placeholder name => if (params.get? name).isSome then none else some name
  | _ => none

/-- The text of a part with its value filled in. -/
def TextPart.filled (params : Params) : TextPart → List Char
  | literal text => text
  | placeholder name => (params.get? name).elim [] fun value => value.literal.toList
  | other c => [c]

/-- A part is substituted before what is behind it, and fails first. -/
theorem substitute_part (params : Params) (part : TextPart) (rest : List Fragment) :
    substitute params (part.fragments ++ rest) =
      match part.missing? params with
      | some name => .error ⟨name⟩
      | none => (substitute params rest).map (part.filled params ++ ·) := by
  cases part with
  | literal text => exact substitute_kept params text rest
  | other c => exact substitute_kept params [c] rest
  | placeholder name =>
      rw [TextPart.fragments, List.singleton_append, substitute, Fragment.text, TextPart.missing?]
      cases hvalue : params.get? name with
      | none => rfl
      | some value =>
          have hfilled : (TextPart.placeholder name).filled params = value.literal.toList := by
            rw [TextPart.filled, hvalue, Option.elim_some]
          rw [hfilled]
          cases substitute params rest <;> rfl

/-- All parts are substituted, or the first one without a value is missing. -/
theorem substitute_parts (params : Params) (parts : List TextPart) :
    substitute params (parts.flatMap TextPart.fragments) =
      match parts.findSome? (TextPart.missing? params) with
      | some name => .error ⟨name⟩
      | none => .ok (parts.flatMap (TextPart.filled params)) := by
  induction parts with
  | nil => rfl
  | cons part rest ih =>
      rw [List.flatMap_cons, substitute_part, List.findSome?_cons, List.flatMap_cons]
      cases part.missing? params with
      | some name => rfl
      | none =>
          rw [ih]
          cases rest.findSome? (TextPart.missing? params) <;> rfl

namespace TextPart

variable {params : Params} {parts : List TextPart}

/-- The parts that have no value are placeholders. -/
theorem missing?_eq_some_iff {part : TextPart} {name : String} :
    part.missing? params = some name ↔ part = .placeholder name ∧ params.get? name = none := by
  cases part with
  | literal => simp [missing?]
  | other => simp [missing?]
  | placeholder var =>
      have hmissing : (placeholder var).missing? params = some name ↔
          params.get? var = none ∧ var = name := by
        rw [missing?]
        cases params.get? var <;> simp
      rw [hmissing, placeholder.injEq, and_comm]
      exact and_congr_right fun hvar => by rw [hvar]

/-- All placeholders have values. -/
theorem findSome?_missing?_eq_none_iff :
    parts.findSome? (missing? params) = none ↔
      ∀ name, .placeholder name ∈ parts → params.get? name ≠ none := by
  rw [List.findSome?_eq_none_iff]
  constructor
  · intro h name hmem hnone
    have hmissing := missing?_eq_some_iff.mpr ⟨rfl, hnone⟩
    rw [h _ hmem] at hmissing
    cases hmissing
  · intro h part hmem
    rw [Option.eq_none_iff_forall_ne_some]
    intro name hmissing
    obtain ⟨rfl, hnone⟩ := missing?_eq_some_iff.mp hmissing
    exact h name hmem hnone

/-- A placeholder without a value comes before all others. -/
theorem findSome?_missing?_eq_some_iff {name : String} :
    parts.findSome? (missing? params) = some name ↔
      ∃ before after, parts = before ++ .placeholder name :: after ∧ params.get? name = none ∧
        ∀ other, .placeholder other ∈ before → params.get? other ≠ none := by
  rw [List.findSome?_eq_some_iff]
  constructor
  · rintro ⟨before, part, after, rfl, hmissing, hbefore⟩
    obtain ⟨rfl, hnone⟩ := missing?_eq_some_iff.mp hmissing
    exact ⟨before, after, rfl, hnone,
      findSome?_missing?_eq_none_iff.mp (List.findSome?_eq_none_iff.mpr hbefore)⟩
  · rintro ⟨before, after, rfl, hnone, hbefore⟩
    exact ⟨before, _, after, rfl, missing?_eq_some_iff.mpr ⟨rfl, hnone⟩,
      List.findSome?_eq_none_iff.mp (findSome?_missing?_eq_none_iff.mpr hbefore)⟩

end TextPart

/-! ## Inlining -/

/-- What inlining gives for a text that is cut into parts. -/
theorem Cuts.inlineParameters_eq {text : String} {parts : List TextPart}
    (h : Cuts text.toList parts) (params : Params) :
    inlineParameters text params =
      match parts.findSome? (TextPart.missing? params) with
      | some name => .error ⟨name⟩
      | none => .ok (String.ofList (parts.flatMap (TextPart.filled params))) := by
  rw [inlineParameters, h.fragments_eq, substitute_parts]
  cases parts.findSome? (TextPart.missing? params) <;> rfl

/-- Inlining replaces exactly the placeholders. A text is cut into its parts in one way. Inlining
succeeds if every placeholder has a value, and gives the parts in order, with the literal of its
value for every placeholder and all others as they are; or it fails for the leftmost placeholder
that has no value. -/
theorem inlineParameters_cuts (text : String) (params : Params) :
    ∃ parts, (∀ other, Cuts text.toList other ↔ other = parts) ∧
      (∀ inlined, inlineParameters text params = .ok inlined ↔
        (∀ name, .placeholder name ∈ parts → params.get? name ≠ none) ∧
          inlined = String.ofList (parts.flatMap (TextPart.filled params))) ∧
      ∀ missing, inlineParameters text params = .error missing ↔
        ∃ before after, parts = before ++ .placeholder missing.name :: after ∧
          params.get? missing.name = none ∧
          ∀ name, .placeholder name ∈ before → params.get? name ≠ none := by
  obtain ⟨parts, hparts⟩ := exists_cuts text.toList
  refine ⟨parts, fun other => ⟨fun hother => hother.unique hparts, fun h => h ▸ hparts⟩, ?_, ?_⟩
  · intro inlined
    rw [hparts.inlineParameters_eq, ← TextPart.findSome?_missing?_eq_none_iff]
    cases parts.findSome? (TextPart.missing? params) with
    | none => simp [eq_comm]
    | some name => simp
  · rintro ⟨name⟩
    rw [hparts.inlineParameters_eq, ← TextPart.findSome?_missing?_eq_some_iff]
    cases parts.findSome? (TextPart.missing? params) <;> simp

end CypherRoutes
