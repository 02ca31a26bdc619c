/-
# What keys identify

A key tells the route that a request takes, and no more: two requests have one key exactly if their
tokens match the same literal segments and the same parameters, position by position
(`RouteTable.keyFor_eq_iff`). The key of a compiled request is the one that its tokens resolve to,
though it is collected on another way.
-/
import CypherRoutes.Proofs.Route.Paths
import CypherRoutes.Proofs.Route.Rebinding

namespace CypherRoutes

/-! ## Segments -/

/-- Two visits match alike: the same literal segment, which is the token, or the parameter. -/
inductive Visit.MatchAlike (v w : Visit) : Prop where
  | literal : v.param = none → w.param = none → v.token = w.token → MatchAlike v w
  | param : v.param.isSome → w.param.isSome → MatchAlike v w

/-- Visits have one segment exactly if they match alike. -/
theorem Visit.segment_eq_iff {v w : Visit} : v.segment = w.segment ↔ v.MatchAlike w := by
  rw [segment, segment]
  constructor
  · intro h
    cases hv : v.param with
    | none =>
        cases hw : w.param with
        | none =>
            rw [hv, hw, Trail.segmentOf, Trail.segmentOf, KeySegment.literal.injEq] at h
            exact .literal hv hw h
        | some name =>
            rw [hv, hw] at h
            cases h
    | some name =>
        cases hw : w.param with
        | none =>
            rw [hv, hw] at h
            cases h
        | some name' => exact .param (by rw [hv]; rfl) (by rw [hw]; rfl)
  · intro h
    cases h with
    | literal hv hw htoken => rw [hv, hw, htoken]
    | param hv hw =>
        obtain ⟨name, hv⟩ := Option.isSome_iff_exists.mp hv
        obtain ⟨name', hw⟩ := Option.isSome_iff_exists.mp hw
        rw [hv, hw]
        rfl

/-- Lists of visits have the same segments exactly if they match alike throughout. -/
theorem map_segment_eq_iff {vs ws : List Visit} :
    vs.map Visit.segment = ws.map Visit.segment ↔ List.Forall₂ Visit.MatchAlike vs ws := by
  rw [← List.forall₂_eq_eq_eq, List.forall₂_map_left_iff, List.forall₂_map_right_iff]
  simp only [Visit.segment_eq_iff]

/-! ## Keys -/

namespace RouteTable

variable {table : RouteTable} {tokens tokens' : List String} {vs ws : List Visit}

/-- The key of tokens that resolve. -/
theorem keyFor_of_visit (h : table.root.visit tokens = some vs) :
    table.keyFor tokens = some (keyText (vs.map Visit.segment)) :=
  keyFor_eq_some_iff.mpr ⟨vs, h, rfl⟩

/-- Tokens without slashes have one key exactly if they match alike throughout. -/
theorem keyFor_eq_iff (hne : tokens ≠ []) (hne' : tokens' ≠ [])
    (hslash : ∀ token ∈ tokens, '/' ∉ token.toList)
    (hslash' : ∀ token ∈ tokens', '/' ∉ token.toList)
    (hvs : table.root.visit tokens = some vs) (hws : table.root.visit tokens' = some ws) :
    table.keyFor tokens = table.keyFor tokens' ↔ List.Forall₂ Visit.MatchAlike vs ws := by
  have hsegments : vs.map Visit.segment ≠ [] := by
    rw [← Level.token_of_visit hvs] at hne
    simpa using hne
  have hsegments' : ws.map Visit.segment ≠ [] := by
    rw [← Level.token_of_visit hws] at hne'
    simpa using hne'
  rw [keyFor_of_visit hvs, keyFor_of_visit hws, Option.some.injEq, ← map_segment_eq_iff]
  constructor
  · exact keyText_injective (slashless_of_visit hvs hslash) (slashless_of_visit hws hslash')
      hsegments hsegments'
  · exact congrArg keyText

/-- A compiled request has the key that its tokens resolve to. -/
theorem keyFor_of_compile {options : StatementOptions} {compiled : Compiled}
    (h : table.compile options tokens = .ok compiled) :
    table.keyFor tokens = some compiled.key := by
  obtain ⟨visits, hvisits, hof⟩ := compiled_of h
  rw [keyFor_of_visit hvisits, hof.key]

/-- A key identifies a route. Two lists of tokens without slashes that resolve have one key exactly
if they have the same length and match the same literal segment or the parameter at every position;
and a request that compiles has the key that its tokens resolve to. -/
theorem key_identifies_route (table : RouteTable) :
    (∀ tokens tokens' vs ws, tokens ≠ [] → tokens' ≠ [] →
      (∀ token ∈ tokens, '/' ∉ token.toList) → (∀ token ∈ tokens', '/' ∉ token.toList) →
      table.root.visit tokens = some vs → table.root.visit tokens' = some ws →
      (table.keyFor tokens = table.keyFor tokens' ↔ List.Forall₂ Visit.MatchAlike vs ws)) ∧
    ∀ options tokens compiled, table.compile options tokens = .ok compiled →
      table.keyFor tokens = some compiled.key :=
  ⟨fun _ _ _ _ hne hne' hslash hslash' hvs hws => keyFor_eq_iff hne hne' hslash hslash' hvs hws,
    fun _ _ _ h => keyFor_of_compile h⟩

/-- A table with a literal segment that looks like a group, beside a parameter. -/
def lookalike : RouteTable where
  root := ⟨[(groupText, ⟨{ node := some (.label "A"), ret := some .items }, .empty⟩)],
    some ("x", ⟨{}, .empty⟩)⟩

/-- The segment that looks like a group does not have the key of the group, which is the key of
every value of the parameter; and the request for the segment compiles under its key. -/
theorem key_identifies_route_lookalike :
    lookalike.keyFor [groupText] ≠ lookalike.keyFor ["v"] ∧
      lookalike.keyFor ["v"] = lookalike.keyFor ["w"] ∧
      ∃ compiled, lookalike.compile {} [groupText] = .ok compiled ∧
        lookalike.keyFor [groupText] = some compiled.key := by
  obtain ⟨hroutes, hcompiled⟩ := key_identifies_route lookalike
  have hne : ∀ token : String, [token] ≠ [] := fun _ => by simp
  have hslash : ∀ token ∈ [groupText], '/' ∉ token.toList := by decide
  have hslash' : ∀ token ∈ ["v"], '/' ∉ token.toList := by decide
  have hslash'' : ∀ token ∈ ["w"], '/' ∉ token.toList := by decide
  have hliteral : lookalike.root.visit [groupText] = some [⟨groupText, _, none⟩] := rfl
  have hparam : ∀ token, (token == groupText) = false →
      lookalike.root.visit [token] = some [⟨token, ⟨{}, .empty⟩, some "x"⟩] := by
    intro token htoken
    rw [Level.visit, Level.resolve, lookalike, List.lookup_cons, htoken]
    rfl
  refine ⟨fun hsame => ?_, ?_, ?_⟩
  · have halike := (hroutes _ _ _ _ (hne _) (hne _) hslash hslash' hliteral
      (hparam "v" (by decide))).mp hsame
    cases halike with
    | cons hfirst hrest =>
        cases hfirst with
        | literal h h' h'' => cases h'
        | param h h' => cases h
  · exact (hroutes _ _ _ _ (hne _) (hne _) hslash' hslash'' (hparam "v" (by decide))
      (hparam "w" (by decide))).mpr (.cons (.param rfl rfl) .nil)
  · obtain ⟨compiled, hcompile, -⟩ := exists_ok_of_observed (f := fun _ => ()) (b := ())
      (x := lookalike.compile {} [groupText]) (by decide +kernel)
    exact ⟨compiled, hcompile, hcompiled _ _ _ hcompile⟩

end RouteTable

end CypherRoutes
