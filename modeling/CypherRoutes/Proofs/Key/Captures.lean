/-
# What keys capture

The engine for keys is lawful: the pattern of a key matches the texts in which the segments of the
key match what stands between slashes (`captureAt_partsOf_iff`). The slashes keep segments and
tokens in step: a group takes no slash, and behind it comes one or the end of the text, so that it
cannot stop short of its word.
-/
import CypherRoutes.Proofs.Key.Reading

namespace CypherRoutes

/-! ## Matching from a place on -/

/-- What a pattern captures from the beginning of a text. -/
def captureAt (parts : List KeyPart) (text : List Char) : Option (List (List Char)) :=
  (capturesOfSuffixes parts text).head?.join

/-- A part that does not look at the character before its place. -/
def KeyPart.Borderless : KeyPart → Prop
  | wordStart => False
  | wordEnd => False
  | _ => True

/-- The captures on all suffixes of the empty text are those at its only place. -/
theorem capturesOfSuffixes_nil (parts : List KeyPart) (h : ∀ p ∈ parts, p.Borderless) :
    capturesOfSuffixes parts [] = [captureAt parts []] := by
  suffices hshape : ∃ here, capturesOfSuffixes parts [] = [here] by
    obtain ⟨here, hhere⟩ := hshape
    simp [captureAt, hhere]
  cases parts with
  | nil => exact ⟨_, rfl⟩
  | cons part parts =>
      have hpart := h part List.mem_cons_self
      cases part with
      | char c => exact ⟨none, by simp [capturesOfSuffixes]⟩
      | group => exact ⟨none, by simp [capturesOfSuffixes, runs]⟩
      | finish => exact ⟨_, rfl⟩
      | wordStart => exact hpart.elim
      | wordEnd => exact hpart.elim

/-- The captures on all suffixes of a text are those at its beginning, and then those on the
suffixes of the rest. -/
theorem capturesOfSuffixes_cons (parts : List KeyPart) (h : ∀ p ∈ parts, p.Borderless)
    (c : Char) (text : List Char) :
    capturesOfSuffixes parts (c :: text)
      = captureAt parts (c :: text) :: capturesOfSuffixes parts text := by
  -- the suffixes of the rest are answered the same, since no part looks back
  suffices hshape : ∃ here,
      capturesOfSuffixes parts (c :: text) = here :: capturesOfSuffixes parts text by
    obtain ⟨here, hhere⟩ := hshape
    simp [captureAt, hhere]
  induction parts generalizing c text with
  | nil => exact ⟨_, rfl⟩
  | cons part parts ih =>
      have hparts : ∀ p ∈ parts, p.Borderless := fun p hp => h p (List.mem_cons_of_mem _ hp)
      obtain ⟨here, hhere⟩ := ih hparts c text
      -- there is a place behind the first character
      obtain ⟨behind, later, hlater⟩ : ∃ behind later,
          capturesOfSuffixes parts text = behind :: later := by
        cases text with
        | nil => exact ⟨_, _, capturesOfSuffixes_nil parts hparts⟩
        | cons d rest =>
            obtain ⟨x, hx⟩ := ih hparts d rest
            exact ⟨x, _, hx⟩
      have hpart := h part List.mem_cons_self
      cases part with
      | char d => simp [capturesOfSuffixes, hhere, hlater]
      | group => simp [capturesOfSuffixes, hhere, hlater, runs]
      | finish =>
          refine ⟨none, ?_⟩
          simp [capturesOfSuffixes, hhere, hlater]
      | wordStart => exact hpart.elim
      | wordEnd => exact hpart.elim

/-- The captures on all suffixes of a text begin with those at its beginning. -/
theorem exists_capturesOfSuffixes (parts : List KeyPart) (h : ∀ p ∈ parts, p.Borderless)
    (text : List Char) :
    ∃ later, capturesOfSuffixes parts text = captureAt parts text :: later := by
  cases text with
  | nil => exact ⟨[], capturesOfSuffixes_nil parts h⟩
  | cons c rest => exact ⟨_, capturesOfSuffixes_cons parts h c rest⟩

/-! ## Matching one part -/

/-- A character matches itself. -/
theorem captureAt_char_cons (c d : Char) (parts : List KeyPart)
    (h : ∀ p ∈ parts, p.Borderless) (text : List Char) :
    captureAt (.char c :: parts) (d :: text)
      = if c = d then captureAt parts text else none := by
  obtain ⟨later, hlater⟩ := exists_capturesOfSuffixes parts h text
  rw [captureAt, capturesOfSuffixes, capturesOfSuffixes_cons parts h, List.tail_cons, hlater]
  simp

/-- A character and the rest of a pattern match that character and a match of the rest. -/
theorem captureAt_char_iff {c : Char} {parts : List KeyPart} (h : ∀ p ∈ parts, p.Borderless)
    {text : List Char} {more : List (List Char)} :
    captureAt (.char c :: parts) text = some more
      ↔ ∃ tail, text = c :: tail ∧ captureAt parts tail = some more := by
  cases text with
  | nil => simp [captureAt, capturesOfSuffixes]
  | cons d text =>
      rw [captureAt_char_cons c d parts h]
      by_cases hc : c = d
      · subst hc
        simp
      · simp [hc, Ne.symm hc]

/-- The end of the text, as the last part, matches the empty text only. -/
theorem captureAt_finish_iff {text : List Char} {more : List (List Char)} :
    captureAt [.finish] text = some more ↔ text = [] ∧ more = [] := by
  cases text with
  | nil => simp [captureAt, capturesOfSuffixes, eq_comm]
  | cons c text => simp [captureAt, capturesOfSuffixes]

/-- What a group takes from the beginning of a text, and what the rest of the pattern captures
behind it; the longest run counts. -/
def takeGroup (rest : List Char → Option (List (List Char))) :
    List Char → Option (List Char × List (List Char))
  | [] => none
  | c :: text =>
    if isWordChar c then
      match takeGroup rest text with
      | some (word, more) => some (c :: word, more)
      | none => (rest text).map fun more => ([c], more)
    else none

/-- The runs on all suffixes of a text begin with the one at its beginning. -/
theorem head?_runs (parts : List KeyPart) (h : ∀ p ∈ parts, p.Borderless) (text : List Char) :
    (runs text (capturesOfSuffixes parts text).tail).head?
      = some (takeGroup (captureAt parts) text) := by
  induction text with
  | nil => rfl
  | cons c text ih =>
      obtain ⟨later, hlater⟩ := exists_capturesOfSuffixes parts h text
      rw [hlater, List.tail_cons] at ih
      obtain ⟨others, hothers⟩ := List.head?_eq_some_iff.mp ih
      rw [capturesOfSuffixes_cons parts h, List.tail_cons, hlater, runs, hothers, takeGroup,
        List.head?_cons]
      cases takeGroup (captureAt parts) text <;> rfl

/-- A group takes the longest run behind which the rest of the pattern matches. -/
theorem captureAt_group (parts : List KeyPart) (h : ∀ p ∈ parts, p.Borderless)
    (text : List Char) :
    captureAt (.group :: parts) text
      = (takeGroup (captureAt parts) text).map fun (word, more) => word :: more := by
  rw [captureAt, capturesOfSuffixes, List.head?_map, head?_runs parts h]
  rfl

/-! ## Matching a word -/

/-- The characters of a word make a text that is not empty. -/
theorem isWord_ofList {word : List Char} :
    IsWord (String.ofList word) ↔ word ≠ [] ∧ ∀ c ∈ word, isWordChar c = true := by
  rw [IsWord, String.toList_ofList, ne_eq, ← String.toList_inj, String.toList_ofList]
  rfl

/-- What a group takes is a word, and the rest matches what stands behind it. -/
theorem of_takeGroup {rest : List Char → Option (List (List Char))} {text word : List Char}
    {more : List (List Char)} (h : takeGroup rest text = some (word, more)) :
    word ≠ [] ∧ (∀ c ∈ word, isWordChar c = true) ∧
      ∃ tail, text = word ++ tail ∧ rest tail = some more := by
  induction text generalizing word with
  | nil => cases h
  | cons c text ih =>
      rw [takeGroup] at h
      split_ifs at h with hc
      cases hlonger : takeGroup rest text with
      | some run =>
          obtain ⟨longer, more'⟩ := run
          rw [hlonger] at h
          obtain ⟨rfl, rfl⟩ := Prod.mk.inj (Option.some.inj h)
          obtain ⟨-, hword, tail, rfl, htail⟩ := ih hlonger
          exact ⟨List.cons_ne_nil _ _, List.forall_mem_cons.mpr ⟨hc, hword⟩, tail, rfl, htail⟩
      | none =>
          rw [hlonger] at h
          obtain ⟨more', hmore, hpair⟩ := Option.map_eq_some_iff.mp h
          obtain ⟨rfl, rfl⟩ := Prod.mk.inj hpair
          exact ⟨List.cons_ne_nil _ _, List.forall_mem_singleton.mpr hc, text, rfl, hmore⟩

/-- A group takes no less than a whole word, where the rest of the pattern cannot go on with a
character of a word. -/
theorem takeGroup_append {rest : List Char → Option (List (List Char))}
    (hstops : ∀ c text, isWordChar c = true → rest (c :: text) = none)
    {tail : List Char} {more : List (List Char)} (htail : rest tail = some more)
    {word : List Char} (hne : word ≠ []) (hword : ∀ c ∈ word, isWordChar c = true) :
    takeGroup rest (word ++ tail) = some (word, more) := by
  induction word with
  | nil => exact absurd rfl hne
  | cons c word ih =>
      rw [List.forall_mem_cons] at hword
      rw [List.cons_append, takeGroup, if_pos hword.1]
      cases word with
      | cons d word => rw [ih (List.cons_ne_nil d word) hword.2]
      | nil =>
          -- behind the word comes no character that the group could take
          have hnone : takeGroup rest tail = none := by
            cases tail with
            | nil => rfl
            | cons d tail =>
                rw [takeGroup, if_neg]
                intro hd
                rw [hstops d tail hd] at htail
                cases htail
          rw [List.nil_append, hnone, htail]
          rfl

/-! ## Matching a segment -/

/-- A pattern that goes on behind a segment: with the end of the text or with a slash, and so with
no character of a word. -/
structure GoesOn (parts : List KeyPart) : Prop where
  borderless : ∀ p ∈ parts, p.Borderless
  stops : ∀ c text, isWordChar c = true → captureAt parts (c :: text) = none

/-- The end of a key goes on behind a segment. -/
theorem goesOn_finish : GoesOn [.finish] where
  borderless := by simp [KeyPart.Borderless]
  stops c text _ := by simp [captureAt, capturesOfSuffixes]

/-- A slash and a pattern go on behind a segment. -/
theorem goesOn_slash {parts : List KeyPart} (h : ∀ p ∈ parts, p.Borderless) :
    GoesOn (.char '/' :: parts) where
  borderless := List.forall_mem_cons.mpr ⟨trivial, h⟩
  stops c text hc := by
    rw [captureAt_char_cons _ _ _ h, if_neg]
    rintro rfl
    exact absurd hc (by decide)

/-- The characters of a literal and the rest of a pattern match the literal and a match of the
rest. -/
theorem captureAt_literal_iff {parts : List KeyPart} (h : ∀ p ∈ parts, p.Borderless)
    {literal text : List Char} {more : List (List Char)} :
    captureAt (literal.map .char ++ parts) text = some more
      ↔ ∃ tail, text = literal ++ tail ∧ captureAt parts tail = some more := by
  induction literal generalizing text with
  | nil => simp
  | cons c rest ih =>
      have hborder : ∀ p ∈ rest.map .char ++ parts, p.Borderless := by
        intro p hp
        rcases List.mem_append.mp hp with hp | hp
        · obtain ⟨d, -, rfl⟩ := List.mem_map.mp hp
          trivial
        · exact h p hp
      rw [List.map_cons, List.cons_append, captureAt_char_iff hborder]
      simp only [ih]
      constructor
      · rintro ⟨_, rfl, tail, rfl, htail⟩
        exact ⟨tail, rfl, htail⟩
      · rintro ⟨tail, rfl, htail⟩
        exact ⟨rest ++ tail, rfl, tail, rfl, htail⟩

/-- A group and a pattern that goes on match a word and a match of the rest. -/
theorem captureAt_group_iff {parts : List KeyPart} (h : GoesOn parts) {text : List Char}
    {captured : List (List Char)} :
    captureAt (.group :: parts) text = some captured
      ↔ ∃ word tail more, IsWord word ∧ text = word.toList ++ tail ∧
        captureAt parts tail = some more ∧ captured = word.toList :: more := by
  rw [captureAt_group parts h.borderless, Option.map_eq_some_iff]
  constructor
  · rintro ⟨⟨word, more⟩, htake, rfl⟩
    obtain ⟨hne, hword, tail, rfl, htail⟩ := of_takeGroup htake
    refine ⟨String.ofList word, tail, more, isWord_ofList.mpr ⟨hne, hword⟩, ?_, htail, ?_⟩
    · rw [String.toList_ofList]
    · rw [String.toList_ofList]
  · rintro ⟨word, tail, more, hword, rfl, htail, rfl⟩
    have hchars := isWord_ofList.mp (word.ofList_toList ▸ hword)
    exact ⟨(word.toList, more), takeGroup_append h.stops htail hchars.1 hchars.2, rfl⟩

/-- A segment and a pattern that goes on match a token of the segment and a match of the rest. -/
theorem captureAt_segment_iff {segment : KeySegment} {parts : List KeyPart} (h : GoesOn parts)
    {text : List Char} {captured : List (List Char)} :
    captureAt (segment.parts ++ parts) text = some captured
      ↔ ∃ token words tail more, KeyMatches [segment] [token] words ∧
        text = token.toList ++ tail ∧ captureAt parts tail = some more ∧
        captured = words.map String.toList ++ more := by
  cases segment with
  | literal literal =>
      rw [KeySegment.parts, captureAt_literal_iff h.borderless]
      constructor
      · rintro ⟨tail, rfl, htail⟩
        exact ⟨literal, [], tail, captured, .literal literal .nil, rfl, htail, rfl⟩
      · rintro ⟨token, words, tail, more, hmatches, rfl, htail, rfl⟩
        cases hmatches with
        | literal _ hnil =>
            cases hnil
            exact ⟨tail, rfl, htail⟩
  | param =>
      rw [KeySegment.parts, List.singleton_append, captureAt_group_iff h]
      constructor
      · rintro ⟨word, tail, more, hword, rfl, htail, rfl⟩
        exact ⟨word, [word], tail, more, .param hword .nil, rfl, htail, rfl⟩
      · rintro ⟨token, words, tail, more, hmatches, rfl, htail, rfl⟩
        cases hmatches with
        | param hword hnil =>
            cases hnil
            exact ⟨token, tail, more, hword, rfl, htail, rfl⟩

/-! ## Matching a text -/

/-- A key matches the token of its first segment and the tokens of the others. -/
theorem keyMatches_cons_iff {segment : KeySegment} {segments : List KeySegment}
    {tokens words : List String} :
    KeyMatches (segment :: segments) tokens words
      ↔ ∃ token words' later behind, KeyMatches [segment] [token] words' ∧
        KeyMatches segments later behind ∧ tokens = token :: later ∧
        words = words' ++ behind := by
  constructor
  · intro h
    cases h with
    | literal text h => exact ⟨text, [], _, _, .literal text .nil, h, rfl, rfl⟩
    | param hword h => exact ⟨_, [_], _, _, .param hword .nil, h, rfl, rfl⟩
  · rintro ⟨token, words', later, behind, hhere, h, rfl, rfl⟩
    cases hhere with
    | literal text hnil =>
        cases hnil
        exact .literal _ h
    | param hword hnil =>
        cases hnil
        exact .param hword h

/-- The parts of a segment look at no character before their place. -/
theorem KeySegment.borderless_parts (segment : KeySegment) :
    ∀ p ∈ segment.parts, p.Borderless := by
  intro p hp
  cases segment with
  | literal text =>
      obtain ⟨c, -, rfl⟩ := List.mem_map.mp hp
      trivial
  | param =>
      obtain rfl := List.mem_singleton.mp hp
      trivial

/-- The parts of a key and the end of the text look at no character before their place. -/
theorem borderless_pattern (segments : List KeySegment) :
    ∀ p ∈ partsOf segments ++ [.finish], p.Borderless := by
  induction segments with
  | nil => exact goesOn_finish.borderless
  | cons segment rest ih =>
      cases rest with
      | nil =>
          rw [partsOf_singleton]
          exact List.forall_mem_append.mpr ⟨segment.borderless_parts, goesOn_finish.borderless⟩
      | cons next rest =>
          rw [partsOf_cons_cons, List.append_assoc, List.cons_append]
          exact List.forall_mem_append.mpr
            ⟨segment.borderless_parts, List.forall_mem_cons.mpr ⟨trivial, ih⟩⟩

/-- A token and others behind a slash. -/
theorem intercalate_cons_tokens (token : String) {tokens : List String} (h : tokens ≠ []) :
    ['/'].intercalate ((token :: tokens).map String.toList)
      = token.toList ++ '/' :: ['/'].intercalate (tokens.map String.toList) := by
  obtain ⟨next, rest, rfl⟩ := List.exists_cons_of_ne_nil h
  rw [List.map_cons, List.map_cons, List.intercalate_cons_cons, List.append_assoc]
  rfl

/-- The pattern of a key matches the texts in which the segments match what stands between slashes,
and captures the words of the groups. -/
theorem captureAt_partsOf_iff {segments : List KeySegment} {text : List Char}
    {captured : List (List Char)} :
    captureAt (partsOf segments ++ [.finish]) text = some captured
      ↔ ∃ tokens words, KeyMatches segments tokens words ∧
        text = ['/'].intercalate (tokens.map String.toList) ∧
        captured = words.map String.toList := by
  -- the induction is on the segments: behind each comes the end of the text or a slash
  induction segments generalizing text captured with
  | nil =>
      rw [partsOf_nil, List.nil_append, captureAt_finish_iff]
      constructor
      · rintro ⟨rfl, rfl⟩
        exact ⟨[], [], .nil, rfl, rfl⟩
      · rintro ⟨tokens, words, hmatches, rfl, rfl⟩
        cases hmatches
        exact ⟨rfl, rfl⟩
  | cons segment rest ih =>
      cases rest with
      | nil =>
          rw [partsOf_singleton, captureAt_segment_iff goesOn_finish]
          simp only [captureAt_finish_iff]
          constructor
          · rintro ⟨token, words, tail, more, hmatches, rfl, ⟨rfl, rfl⟩, rfl⟩
            exact ⟨[token], words, hmatches, by simp, by simp⟩
          · rintro ⟨tokens, words, hmatches, rfl, rfl⟩
            obtain ⟨token, words', later, behind, hhere, hnil, rfl, rfl⟩ :=
              keyMatches_cons_iff.mp hmatches
            cases hnil
            exact ⟨token, words', [], [], hhere, by simp, ⟨rfl, rfl⟩, by simp⟩
      | cons next rest =>
          have hborder := borderless_pattern (next :: rest)
          rw [partsOf_cons_cons, List.append_assoc, List.cons_append,
            captureAt_segment_iff (goesOn_slash hborder)]
          simp only [captureAt_char_iff hborder, ih]
          -- there is a token behind the slash, since there is a segment
          have hbehind : ∀ {tokens words}, KeyMatches (next :: rest) tokens words → tokens ≠ [] :=
            fun hmatches => List.ne_nil_of_length_eq_add_one hmatches.length_eq
          constructor
          · rintro ⟨token, words, _, _, hhere, rfl, ⟨_, rfl, later, behind, hrest, rfl, rfl⟩, rfl⟩
            have hmatches := keyMatches_cons_iff.mpr
              ⟨token, words, later, behind, hhere, hrest, rfl, rfl⟩
            refine ⟨token :: later, words ++ behind, hmatches, ?_, ?_⟩
            · rw [intercalate_cons_tokens token (hbehind hrest)]
            · rw [List.map_append]
          · rintro ⟨tokens, words, hmatches, rfl, rfl⟩
            obtain ⟨token, words', later, behind, hhere, hrest, rfl, rfl⟩ :=
              keyMatches_cons_iff.mp hmatches
            refine ⟨token, words', _, _, hhere, intercalate_cons_tokens token (hbehind hrest),
              ⟨_, rfl, later, behind, hrest, rfl, rfl⟩, ?_⟩
            rw [List.map_append]

/-- The engine for keys compiles a key to the parts of its segments and the end of the text. -/
theorem keyPattern?_keyText (segments : List KeySegment) :
    keyPattern? (keyText segments) = some (partsPattern (partsOf segments ++ [.finish])) := by
  show (patternParts? ("^" ++ keyText segments ++ "$")).map partsPattern = _
  rw [patternParts?_keyText, Option.map_some]

/-- The engine for keys reads keys as they are meant. -/
instance lawful_keyEngine : LawfulPatternEngine where
  groups?_eq_some_iff {segments pattern} h text groups := by
    obtain rfl := Option.some.inj ((keyPattern?_keyText segments).symm.trans h)
    show ((captureAt (partsOf segments ++ [.finish]) text.toList).map
      (List.map String.ofList)).map (List.map some) = some groups ↔ _
    have hwords : ∀ words : List String,
        (List.map some ∘ List.map String.ofList) (words.map String.toList) = words.map some := by
      simp [Function.comp_def]
    simp only [Option.map_map, Option.map_eq_some_iff, captureAt_partsOf_iff, eq_intercalate_iff]
    constructor
    · rintro ⟨_, ⟨tokens, words, hmatches, htext, rfl⟩, rfl⟩
      exact ⟨tokens, words, hmatches, htext, hwords words⟩
    · rintro ⟨tokens, words, hmatches, htext, rfl⟩
      exact ⟨_, ⟨tokens, words, hmatches, htext, rfl⟩, hwords words⟩

end CypherRoutes
