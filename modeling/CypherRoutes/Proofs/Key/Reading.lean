/-
# Keys read as patterns

The key of a route is a pattern: reading it back gives the characters of its literal segments and
a group for every parameter (`patternParts?_keyText`). So a key tells the segments that it was made
of, if no literal segment holds a slash (`keyText_injective`). Nor does any token then that it
matches.
-/
import Mathlib
import CypherRoutes.Route.KeyPattern

namespace CypherRoutes

/-! ## The parts of a key -/

/-- The parts that a segment is read as. -/
def KeySegment.parts : KeySegment → List KeyPart
  | literal text => text.toList.map .char
  | param => [.group]

/-- The parts that the segments of a key are read as. -/
def partsOf (segments : List KeySegment) : List KeyPart :=
  [KeyPart.char '/'].intercalate (segments.map KeySegment.parts)

@[simp] theorem partsOf_nil : partsOf [] = [] := rfl

@[simp] theorem partsOf_singleton (segment : KeySegment) : partsOf [segment] = segment.parts := by
  simp [partsOf]

theorem partsOf_cons_cons (segment next : KeySegment) (rest : List KeySegment) :
    partsOf (segment :: next :: rest)
      = segment.parts ++ .char '/' :: partsOf (next :: rest) := by
  rw [partsOf, List.map_cons, List.map_cons, List.intercalate_cons_cons, List.append_assoc,
    List.singleton_append]
  rfl

/-- A text is read as a list of parts when there is fuel for each of its characters. -/
def Reads (text : List Char) (parts : List KeyPart) : Prop :=
  ∀ fuel, text.length ≤ fuel → readParts fuel text = some parts

/-! ## Reading one part -/

/-- What a reading does at the first character. -/
theorem readParts_cons (fuel : Nat) (c : Char) (text : List Char) :
    readParts (fuel + 1) (c :: text)
      = match groupText.toList.isPrefixOf? (c :: text) with
        | some rest => (readParts fuel rest).map (.group :: ·)
        | none =>
          if c == '\\' then
            match text with
            | d :: rest => do
              let part ← escapedPart? d
              let parts ← readParts fuel rest
              return part :: parts
            | [] => none
          else if c == finishChar then (readParts fuel text).map (.finish :: ·)
          else if isLiteralChar c then (readParts fuel text).map (.char c :: ·)
          else none := by
  exact readParts.eq_def (fuel + 1) (c :: text)

/-- Only a text that begins as a group does is cut behind one. -/
theorem isPrefixOf?_groupText_eq_none {c : Char} (rest : List Char) (h : c ≠ '(') :
    groupText.toList.isPrefixOf? (c :: rest) = none := by
  rw [show groupText.toList = '(' :: groupText.toList.tail from rfl]
  unfold List.isPrefixOf?
  rw [if_neg (by simpa using Ne.symm h)]

/-- A group is read as one. -/
theorem Reads.group {text : List Char} {parts : List KeyPart} (h : Reads text parts) :
    Reads (groupText.toList ++ text) (.group :: parts) := by
  intro fuel hfuel
  have hcons : groupText.toList ++ text = '(' :: (groupText.toList.tail ++ text) := by
    rw [← List.cons_append]
    rfl
  cases fuel with
  | zero => simp [hcons] at hfuel
  | succ fuel =>
      have hlen : text.length ≤ fuel := by
        rw [hcons, List.length_cons, List.length_append] at hfuel
        omega
      have hcut : groupText.toList.isPrefixOf? ('(' :: (groupText.toList.tail ++ text))
          = some text := by
        rw [← hcons]
        simp
      rw [hcons, readParts_cons, hcut]
      simp [h fuel hlen]

/-- A character that stands for itself is read as itself. -/
theorem Reads.literal {c : Char} {text : List Char} {parts : List KeyPart}
    (hc : isLiteralChar c = true) (h : Reads text parts) :
    Reads (c :: text) (.char c :: parts) := by
  intro fuel hfuel
  have hopen : c ≠ '(' := by rintro rfl; exact absurd hc (by decide)
  have hback : (c == '\\') = false := by
    rw [beq_eq_false_iff_ne]; rintro rfl; exact absurd hc (by decide)
  have hend : (c == finishChar) = false := by
    rw [beq_eq_false_iff_ne]; rintro rfl; exact absurd hc (by decide)
  cases fuel with
  | zero => simp at hfuel
  | succ fuel =>
      rw [readParts_cons, isPrefixOf?_groupText_eq_none text hopen]
      simp [hback, hend, hc, h fuel (by simpa using hfuel)]

/-- A character with a meaning of its own is read as itself behind a backslash. -/
theorem Reads.escaped {c : Char} {text : List Char} {parts : List KeyPart}
    (hc : metaChars.contains c = true) (h : Reads text parts) :
    Reads ('\\' :: c :: text) (.char c :: parts) := by
  intro fuel hfuel
  have hpart : escapedPart? c = some (.char c) := by
    have hall : metaChars.all (fun d => escapedPart? d = some (.char d)) = true := by decide
    exact of_decide_eq_true (List.all_eq_true.mp hall c (List.contains_iff_mem.mp hc))
  cases fuel with
  | zero => simp at hfuel
  | succ fuel =>
      have hlen : text.length ≤ fuel := by
        simp only [List.length_cons] at hfuel
        omega
      rw [readParts_cons, isPrefixOf?_groupText_eq_none _ (by decide)]
      simp [hpart, h fuel hlen]

/-- The dollar sign behind a key is read as the end of the text. -/
theorem Reads.finish : Reads [finishChar] [.finish] := by
  intro fuel hfuel
  cases fuel with
  | zero => simp at hfuel
  | succ fuel =>
      rw [readParts_cons, isPrefixOf?_groupText_eq_none _ (by decide)]
      simp [finishChar, readParts]

/-! ## Reading segments -/

/-- An escaped text is read as its characters. -/
theorem Reads.escapeText {text : List Char} {parts : List KeyPart} (h : Reads text parts)
    (literal : List Char) :
    Reads (CypherRoutes.escapeText literal ++ text) (literal.map .char ++ parts) := by
  induction literal with
  | nil => exact h
  | cons c rest ih =>
      rw [CypherRoutes.escapeText, List.flatMap_cons, ← CypherRoutes.escapeText, List.map_cons]
      by_cases hc : metaChars.contains c = true
      · rw [if_pos hc]
        exact ih.escaped hc
      · rw [if_neg hc]
        refine ih.literal ?_
        -- all characters that need a backslash have a meaning of their own
        have hsub : (['\\', '.', '+', '*', '?', '(', ')', '|', '[', '{', '^', '$'].all
            metaChars.contains) = true := by decide
        rw [isLiteralChar, Bool.not_eq_true', Bool.eq_false_iff]
        exact fun hd => hc (List.all_eq_true.mp hsub c (List.contains_iff_mem.mp hd))

/-- The text of a segment is read as its parts. -/
theorem Reads.segment {text : List Char} {parts : List KeyPart} (h : Reads text parts)
    (segment : KeySegment) :
    Reads (segment.text.toList ++ text) (segment.parts ++ parts) := by
  cases segment with
  | literal literal =>
      rw [KeySegment.text, String.toList_ofList]
      exact h.escapeText literal.toList
  | param => exact h.group

/-- The texts of segments between slashes are read as their parts between slashes. -/
theorem Reads.segments {text : List Char} {parts : List KeyPart} (h : Reads text parts)
    (segments : List KeySegment) :
    Reads (['/'].intercalate (segments.map (·.text.toList)) ++ text)
      (partsOf segments ++ parts) := by
  induction segments with
  | nil => exact h
  | cons segment rest ih =>
      unfold partsOf at ih ⊢
      cases rest with
      | nil => simpa using h.segment segment
      | cons next rest =>
          rw [List.map_cons, List.map_cons, List.map_cons, List.map_cons] at *
          rw [List.intercalate_cons_cons, List.intercalate_cons_cons]
          simp only [List.append_assoc]
          exact Reads.segment (Reads.literal (by decide) ih) segment

/-- The characters of a key are those of its segments between slashes. -/
theorem toList_keyText (segments : List KeySegment) :
    (keyText segments).toList = ['/'].intercalate (segments.map (·.text.toList)) := by
  rw [keyText, String.toList_intercalate, List.map_map]
  rfl

/-- A key is read as the parts of its segments and the end of the text. -/
theorem patternParts?_keyText (segments : List KeySegment) :
    patternParts? ("^" ++ keyText segments ++ "$") = some (partsOf segments ++ [.finish]) := by
  have h := Reads.segments Reads.finish segments
  have htext : ("^" ++ keyText segments ++ "$").toList
      = '^' :: (['/'].intercalate (segments.map (·.text.toList)) ++ [finishChar]) := by
    rw [String.toList_append, String.toList_append, toList_keyText]
    rfl
  rw [patternParts?, htext]
  exact h _ le_rfl

/-! ## Segments from keys -/

/-- A segment whose text has no slash in it. -/
def KeySegment.Slashless : KeySegment → Prop
  | literal text => '/' ∉ text.toList
  | param => True

/-- The parts of a segment without a slash hold no slash. -/
theorem KeySegment.slash_not_mem_parts {segment : KeySegment} (h : segment.Slashless) :
    KeyPart.char '/' ∉ segment.parts := by
  cases segment with
  | literal text =>
      intro hmem
      obtain ⟨c, hc, hslash⟩ := List.mem_map.mp hmem
      rw [KeyPart.char.injEq] at hslash
      exact h (hslash ▸ hc)
  | param => simp [KeySegment.parts]

/-- A segment is known from its parts. -/
theorem KeySegment.parts_injective : Function.Injective KeySegment.parts := by
  intro s t h
  cases s with
  | literal text =>
      cases t with
      | literal text' =>
          have hinj : Function.Injective KeyPart.char := fun c d hcd => by simpa using hcd
          rw [KeySegment.literal.injEq, ← String.toList_inj]
          exact List.map_injective_iff.mpr hinj h
      | param =>
          rw [KeySegment.parts, KeySegment.parts] at h
          cases ht : text.toList <;> simp [ht] at h
  | param =>
      cases t with
      | literal text =>
          rw [KeySegment.parts, KeySegment.parts] at h
          cases ht : text.toList <;> simp [ht] at h
      | param => rfl

/-- Lists without a separator are known from what they make with the separator between them: to
split it undoes putting them together. -/
theorem eq_of_intercalate_eq {α : Type} [DecidableEq α] {sep : α} {ls ls' : List (List α)}
    (hls : ∀ l ∈ ls, sep ∉ l) (hls' : ∀ l ∈ ls', sep ∉ l) (hne : ls ≠ []) (hne' : ls' ≠ [])
    (h : [sep].intercalate ls = [sep].intercalate ls') : ls = ls' := by
  rw [← List.splitOn_intercalate sep hls hne, h, List.splitOn_intercalate sep hls' hne']

/-- Segments are known from their parts between slashes. -/
theorem partsOf_injective {ss ts : List KeySegment} (hs : ∀ s ∈ ss, s.Slashless)
    (ht : ∀ t ∈ ts, t.Slashless) (hss : ss ≠ []) (hts : ts ≠ [])
    (h : partsOf ss = partsOf ts) : ss = ts := by
  refine List.map_injective_iff.mpr KeySegment.parts_injective ?_
  refine eq_of_intercalate_eq (List.forall_mem_map.mpr fun s hmem => ?_)
    (List.forall_mem_map.mpr fun t hmem => ?_) (by simpa using hss) (by simpa using hts) h
  · exact KeySegment.slash_not_mem_parts (hs s hmem)
  · exact KeySegment.slash_not_mem_parts (ht t hmem)

/-- Two lists of segments with one key are equal. -/
theorem keyText_injective {ss ts : List KeySegment} (hs : ∀ s ∈ ss, s.Slashless)
    (ht : ∀ t ∈ ts, t.Slashless) (hss : ss ≠ []) (hts : ts ≠ [])
    (h : keyText ss = keyText ts) : ss = ts := by
  refine partsOf_injective hs ht hss hts ?_
  have hparts := patternParts?_keyText ss
  rw [h, patternParts?_keyText ts, Option.some.injEq] at hparts
  exact (List.append_cancel_right hparts).symm

/-! ## Tokens that a key matches -/

/-- A text that is made of tokens with slashes between them. -/
theorem eq_intercalate_iff {text : String} {tokens : List String} :
    text = String.intercalate "/" tokens
      ↔ text.toList = ['/'].intercalate (tokens.map String.toList) := by
  rw [← String.toList_inj, String.toList_intercalate]
  rfl

/-- There is a token for each segment. -/
theorem KeyMatches.length_eq {segments : List KeySegment} {tokens words : List String}
    (h : KeyMatches segments tokens words) : tokens.length = segments.length := by
  induction h with
  | nil => rfl
  | literal text _ ih => rw [List.length_cons, List.length_cons, ih]
  | param _ _ ih => rw [List.length_cons, List.length_cons, ih]

/-- The tokens that segments without slashes match hold no slash. -/
theorem KeyMatches.slash_not_mem {segments : List KeySegment} {tokens words : List String}
    (h : KeyMatches segments tokens words) (hsegments : ∀ s ∈ segments, s.Slashless) :
    ∀ token ∈ tokens, '/' ∉ token.toList := by
  induction h with
  | nil => exact fun _ h => absurd h List.not_mem_nil
  | literal text _ ih =>
      rw [List.forall_mem_cons] at hsegments
      exact List.forall_mem_cons.mpr ⟨hsegments.1, ih hsegments.2⟩
  | param hword _ ih =>
      rw [List.forall_mem_cons] at hsegments
      refine List.forall_mem_cons.mpr ⟨fun hslash => ?_, ih hsegments.2⟩
      exact absurd (hword.2 '/' hslash) (by decide)

end CypherRoutes
