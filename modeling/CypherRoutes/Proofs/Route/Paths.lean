/-
# Paths and keys

The tokens of a path hold no slash and stand in the path between slashes. So the key that they
resolve to matches the path, as a pattern of a lawful engine, if the values of the parameters are
words, and takes these (`captures_of_visit`); and two paths with one key lead to the same segments.
-/
import CypherRoutes.Proofs.Key.Reading
import CypherRoutes.Proofs.Route.SameRoute
import CypherRoutes.Route.Compiler

namespace CypherRoutes

/-! ## Tokens of a path -/

theorem splitSlashes_ne_nil (text : List Char) : splitSlashes text ≠ [] := by
  cases text with
  | nil => simp [splitSlashes]
  | cons c rest =>
      rw [splitSlashes]
      split_ifs
      · simp
      · split <;> simp

/-- A character that is no slash lengthens the first token. -/
theorem splitSlashes_cons {c : Char} (hc : c ≠ '/') (text : List Char) :
    ∃ token tokens, splitSlashes text = token :: tokens ∧
      splitSlashes (c :: text) = (c :: token) :: tokens := by
  obtain ⟨token, tokens, hsplit⟩ := List.exists_cons_of_ne_nil (splitSlashes_ne_nil text)
  refine ⟨token, tokens, hsplit, ?_⟩
  rw [splitSlashes, if_neg (by simpa using hc), hsplit]

theorem splitSlashes_slash (text : List Char) :
    splitSlashes ('/' :: text) = [] :: splitSlashes text := by
  rw [splitSlashes, if_pos (beq_self_eq_true _)]

/-- The tokens with slashes between them are the text. -/
theorem intercalate_splitSlashes (text : List Char) :
    ['/'].intercalate (splitSlashes text) = text := by
  induction text with
  | nil => rfl
  | cons c rest ih =>
      by_cases hc : c = '/'
      · obtain ⟨token, tokens, hsplit⟩ := List.exists_cons_of_ne_nil (splitSlashes_ne_nil rest)
        rw [hsplit] at ih
        rw [hc, splitSlashes_slash, hsplit, List.intercalate_cons_cons, ih]
        rfl
      · obtain ⟨token, tokens, hsplit, hcons⟩ := splitSlashes_cons hc rest
        rw [hsplit] at ih
        rw [hcons, ← ih]
        cases tokens with
        | nil => simp [List.intercalate]
        | cons next more => rw [List.intercalate_cons_cons, List.intercalate_cons_cons]; rfl

/-- No token holds a slash. -/
theorem slash_not_mem_splitSlashes (text : List Char) :
    ∀ token ∈ splitSlashes text, '/' ∉ token := by
  induction text with
  | nil => simp [splitSlashes]
  | cons c rest ih =>
      by_cases hc : c = '/'
      · rw [hc, splitSlashes_slash]
        exact List.forall_mem_cons.mpr ⟨List.not_mem_nil, ih⟩
      · obtain ⟨token, tokens, hsplit, hcons⟩ := splitSlashes_cons hc rest
        rw [hsplit, List.forall_mem_cons] at ih
        rw [hcons]
        refine List.forall_mem_cons.mpr ⟨fun hslash => ?_, ih.2⟩
        rcases List.mem_cons.mp hslash with h | h
        · exact hc h.symm
        · exact ih.1 h

/-- A path is its tokens with slashes between them. -/
theorem toList_eq_intercalate (path : String) :
    path.toList = ['/'].intercalate ((tokensOf path).map String.toList) := by
  rw [tokensOf]
  by_cases hempty : path.isEmpty = true
  · rw [if_pos hempty, String.isEmpty_iff.mp hempty]
    rfl
  · rw [if_neg hempty, List.map_map]
    have hid : (String.toList ∘ String.ofList) = id := funext fun l => String.toList_ofList
    rw [hid, List.map_id, intercalate_splitSlashes]

/-- No token of a path holds a slash. -/
theorem slash_not_mem_tokensOf (path : String) : ∀ token ∈ tokensOf path, '/' ∉ token.toList := by
  rw [tokensOf]
  split_ifs
  · simp
  · intro token htoken
    obtain ⟨text, htext, rfl⟩ := List.mem_map.mp htoken
    rw [String.toList_ofList]
    exact slash_not_mem_splitSlashes _ text htext

/-- Tokens without slashes are known from their number and the text between whose slashes they
stand. -/
theorem tokens_eq_of_intercalate_eq {tokens tokens' : List String}
    (hslash : ∀ token ∈ tokens, '/' ∉ token.toList)
    (hslash' : ∀ token ∈ tokens', '/' ∉ token.toList) (hlength : tokens.length = tokens'.length)
    (h : String.intercalate "/" tokens = String.intercalate "/" tokens') : tokens = tokens' := by
  by_cases hnil : tokens = []
  · rw [hnil] at hlength ⊢
    exact (List.length_eq_zero_iff.mp hlength.symm).symm
  · -- one empty token and none at all make the same text, so the number counts
    have hnil' : tokens' ≠ [] := by
      rintro rfl
      exact hnil (List.length_eq_zero_iff.mp hlength)
    have hinj : Function.Injective String.toList := fun _ _ => String.toList_inj.mp
    rw [← String.toList_inj, String.toList_intercalate, String.toList_intercalate] at h
    exact List.map_injective_iff.mpr hinj (eq_of_intercalate_eq (List.forall_mem_map.mpr hslash)
      (List.forall_mem_map.mpr hslash') (by simpa using hnil) (by simpa using hnil') h)

/-- A path does not consist of one empty token: the empty path has no tokens. -/
theorem tokensOf_ne_empty_token (path : String) : tokensOf path ≠ [""] := by
  intro h
  have hpath := toList_eq_intercalate path
  rw [h] at hpath
  have hempty : path = "" := String.toList_inj.mp hpath
  rw [hempty] at h
  cases h

/-! ## Visits and keys -/

/-- The segments of visits match their tokens if the values of the parameters are words, and take
these. -/
theorem keyMatches_segments_iff {visits : List Visit} {words : List String} :
    KeyMatches (visits.map Visit.segment) (visits.map Visit.token) words
      ↔ (∀ token ∈ paramTokens visits, IsWord token) ∧ words = paramTokens visits := by
  induction visits generalizing words with
  | nil =>
      constructor
      · intro h
        cases h
        exact ⟨fun _ h => absurd h List.not_mem_nil, rfl⟩
      · rintro ⟨-, rfl⟩
        exact .nil
  | cons v rest ih =>
      rw [List.map_cons, List.map_cons, Visit.segment]
      cases hparam : v.param with
      | none =>
          have hparams : paramTokens (v :: rest) = paramTokens rest := by simp [paramTokens, hparam]
          rw [Trail.segmentOf, hparams, ← ih]
          exact ⟨fun h => by cases h; assumption, .literal v.token⟩
      | some name =>
          have hparams : paramTokens (v :: rest) = v.token :: paramTokens rest := by
            simp [paramTokens, hparam]
          rw [Trail.segmentOf, hparams, List.forall_mem_cons]
          constructor
          · intro h
            cases h with
            | param hword h =>
                obtain ⟨hwords, rfl⟩ := ih.mp h
                exact ⟨⟨hword, hwords⟩, rfl⟩
          · rintro ⟨⟨hword, hwords⟩, rfl⟩
            exact .param hword (ih.mpr ⟨hwords, rfl⟩)

/-- The segments that tokens without slashes resolve to hold no slash. -/
theorem slashless_of_visit {level : Level} {tokens : List String} {visits : List Visit}
    (h : level.visit tokens = some visits) (hslash : ∀ token ∈ tokens, '/' ∉ token.toList) :
    ∀ segment ∈ visits.map Visit.segment, segment.Slashless := by
  intro segment hsegment
  obtain ⟨v, hv, rfl⟩ := List.mem_map.mp hsegment
  rw [Visit.segment]
  cases v.param with
  | some name => trivial
  | none =>
      refine hslash v.token ?_
      rw [← Level.token_of_visit h]
      exact List.mem_map_of_mem hv

/-- The pattern of a key matches a path that resolves to the key if the values of the parameters are
words, and takes these. -/
theorem captures_of_visit [PatternEngine] [LawfulPatternEngine] {level : Level} {path : String}
    {visits : List Visit} (h : level.visit (tokensOf path) = some visits) {pattern : Pattern}
    (hpattern : keyPattern? (keyText (visits.map Visit.segment)) = some pattern)
    {values : List String} :
    pattern.captures path = some values
      ↔ (∀ token ∈ paramTokens visits, IsWord token) ∧ values = paramTokens visits := by
  have htokens := Level.token_of_visit h
  have hslash := slash_not_mem_tokensOf path
  have hpath : path = String.intercalate "/" (tokensOf path) :=
    eq_intercalate_iff.mpr (toList_eq_intercalate path)
  rw [← keyMatches_segments_iff, htokens, Pattern.captures, Option.map_eq_some_iff]
  constructor
  · rintro ⟨groups, hgroups, rfl⟩
    obtain ⟨tokens, words, hmatches, htext, rfl⟩ :=
      (LawfulPatternEngine.groups?_eq_some_iff hpattern _ _).mp hgroups
    -- the segments hold no slash, so the tokens that they match are those of the path
    have hsame : tokens = tokensOf path := by
      refine tokens_eq_of_intercalate_eq (hmatches.slash_not_mem (slashless_of_visit h hslash))
        hslash ?_ (htext.symm.trans hpath)
      rw [hmatches.length_eq, List.length_map, ← htokens, List.length_map]
    rw [hsame] at hmatches
    simpa using hmatches
  · intro hmatches
    refine ⟨values.map some, ?_, by simp⟩
    exact (LawfulPatternEngine.groups?_eq_some_iff hpattern _ _).mpr
      ⟨_, values, hmatches, hpath, rfl⟩

/-- A path that has tokens has a key that is not empty. -/
theorem visits_eq_nil {level : Level} {path : String} {visits : List Visit}
    (h : level.visit (tokensOf path) = some visits)
    (hkey : keyText (visits.map Visit.segment) = keyText []) : visits = [] := by
  have hparts : partsOf (visits.map Visit.segment) = [] := by
    have hread := patternParts?_keyText (visits.map Visit.segment)
    rw [hkey, patternParts?_keyText, Option.some.injEq] at hread
    exact (List.append_cancel_right hread).symm
  cases visits with
  | nil => rfl
  | cons v rest =>
      cases rest with
      | cons w rest =>
          rw [List.map_cons, List.map_cons, partsOf_cons_cons] at hparts
          simp at hparts
      | nil =>
          -- a lone segment without parts is the empty token, which no path consists of
          have hsegment : v.segment.parts = [] := by simpa [partsOf] using hparts
          have htoken : v.token = "" := by
            rw [Visit.segment] at hsegment
            cases hparam : v.param with
            | some name =>
                rw [hparam] at hsegment
                cases hsegment
            | none =>
                rw [hparam, Trail.segmentOf, KeySegment.parts, List.map_eq_nil_iff] at hsegment
                exact String.toList_inj.mp hsegment
          have htokens := Level.token_of_visit h
          rw [List.map_singleton, htoken] at htokens
          exact absurd htokens.symm (tokensOf_ne_empty_token path)

/-- Two paths with one key lead to the same segments. -/
theorem segments_of_key {level : Level} {path path' : String} {vs ws : List Visit}
    (hvs : level.visit (tokensOf path) = some vs) (hws : level.visit (tokensOf path') = some ws)
    (hkey : keyText (vs.map Visit.segment) = keyText (ws.map Visit.segment)) :
    vs.map Visit.segment = ws.map Visit.segment := by
  by_cases hv : vs = []
  · have hw : ws = [] := visits_eq_nil hws (by rw [← hkey, hv, List.map_nil])
    rw [hv, hw]
  · -- a key of no segments and one of some differ, as no path is a lone empty token
    by_cases hw : ws = []
    · exact absurd (visits_eq_nil hvs (by rw [hkey, hw, List.map_nil])) hv
    · exact keyText_injective (slashless_of_visit hvs (slash_not_mem_tokensOf path))
        (slashless_of_visit hws (slash_not_mem_tokensOf path')) (by simpa using hv)
        (by simpa using hw) hkey

end CypherRoutes
