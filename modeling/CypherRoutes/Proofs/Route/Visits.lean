/-
# The steps that a request visits

The tokens of a request resolve to steps one level after the other, whatever is built on the way.
A request compiles exactly if its tokens resolve, every step can be followed, and the last step
finishes the trail (`compile_eq_ok_iff`). The key of a request depends on its visits alone.
-/
import CypherRoutes.Proofs.Outcome
import CypherRoutes.Route.Compile

namespace CypherRoutes

/-! ## Visits -/

/-- A token with the step that it was resolved to, and the name of the parameter if it is the
value of one. -/
structure Visit where
  token : String
  step : Step
  param : Option String

/-- What tokens resolve to from a level on. -/
def Level.visit (level : Level) : (tokens : List String) → Option (List Visit)
  | [] => some []
  | token :: rest => do
    let (step, param) ← level.resolve token
    let visits ← visit step.next rest
    return ⟨token, step, param⟩ :: visits

/-- The segment of the key that stands for a visit. -/
def Visit.segment (v : Visit) : KeySegment := Trail.segmentOf v.token v.param

/-- The trail after one more visit. -/
def Trail.followVisit (trail : Trail) (v : Visit) : Except RequestFault Trail :=
  trail.follow v.token v.step v.param

/-- The trail after a list of visits. -/
def Trail.followVisits (trail : Trail) : List Visit → Except RequestFault Trail
  | [] => .ok trail
  | v :: rest => do
    let trail ← trail.followVisit v
    followVisits trail rest

/-- Tokens resolve if the first one does and the others do from the next level on. -/
theorem Level.visit_cons_eq_some_iff {level : Level} {token : String} {rest : List String}
    {visits : List Visit} :
    level.visit (token :: rest) = some visits ↔
      ∃ step param following, level.resolve token = some (step, param) ∧
        step.next.visit rest = some following ∧ visits = ⟨token, step, param⟩ :: following := by
  rw [visit, Option.bind_eq_bind, Option.bind_eq_some_iff]
  constructor
  · rintro ⟨⟨step, param⟩, hstep, h⟩
    obtain ⟨following, hrest, hvisits⟩ := Option.bind_eq_some_iff.mp h
    exact ⟨step, param, following, hstep, hrest, (Option.some.inj hvisits).symm⟩
  · rintro ⟨step, param, following, hstep, hrest, rfl⟩
    exact ⟨⟨step, param⟩, hstep, Option.bind_eq_some_iff.mpr ⟨following, hrest, rfl⟩⟩

/-- One token resolves to one visit. -/
theorem Level.visit_singleton_eq_some_iff {level : Level} {token : String}
    {visits : List Visit} :
    level.visit [token] = some visits ↔
      ∃ step param, level.resolve token = some (step, param) ∧ visits = [⟨token, step, param⟩] := by
  rw [visit_cons_eq_some_iff]
  constructor
  · rintro ⟨step, param, following, hresolve, hend, rfl⟩
    obtain rfl := Option.some.inj hend
    exact ⟨step, param, hresolve, rfl⟩
  · rintro ⟨step, param, hresolve, rfl⟩
    exact ⟨step, param, [], hresolve, rfl, rfl⟩

/-- There is a visit for every token. -/
theorem Level.token_of_visit {level : Level} {tokens : List String} {visits : List Visit}
    (h : level.visit tokens = some visits) : visits.map Visit.token = tokens := by
  induction tokens generalizing level visits with
  | nil =>
      rw [visit, Option.some.injEq] at h
      rw [← h, List.map_nil]
  | cons token rest ih =>
      obtain ⟨step, param, following, -, hrest, rfl⟩ := visit_cons_eq_some_iff.mp h
      rw [List.map_cons, ih hrest]

/-- The segments of the key come from the visits. -/
theorem RouteTable.keySegments?_eq (level : Level) (tokens : List String) :
    keySegments? level tokens = (level.visit tokens).map (·.map Visit.segment) := by
  induction tokens generalizing level with
  | nil => rfl
  | cons token rest ih =>
      rw [keySegments?, Level.visit]
      cases level.resolve token with
      | none => rfl
      | some found =>
          obtain ⟨step, param⟩ := found
          simp only [Option.bind_eq_bind, Option.bind_some, ih]
          cases step.next.visit rest <;> rfl

/-- Tokens have a key if they resolve, and it is the text of their segments. -/
theorem RouteTable.keyFor_eq_some_iff {table : RouteTable} {tokens : List String} {key : String} :
    table.keyFor tokens = some key ↔
      ∃ visits, table.root.visit tokens = some visits ∧
        keyText (visits.map Visit.segment) = key := by
  rw [keyFor, keySegments?_eq, Option.map_map]
  exact Option.map_eq_some_iff

/-! ## Following visits -/

/-- One visit is followed by one step. -/
theorem Trail.followVisits_singleton (trail : Trail) (v : Visit) :
    trail.followVisits [v] = trail.followVisit v := by
  rw [followVisits]
  cases trail.followVisit v <;> rfl

/-- The last token is followed if it resolves to a step that is. -/
theorem Trail.followAll_last_eq_ok_iff {trail : Trail} {level : Level} {token : String}
    {trail' : Trail} {step : Step} {last : String} :
    trail.followAll level token [] = .ok (trail', step, last) ↔
      ∃ param, level.resolve token = some (step, param) ∧
        trail.follow token step param = .ok trail' ∧ token = last := by
  rw [followAll]
  cases level.resolve token with
  | none => simp
  | some found =>
      obtain ⟨step', param⟩ := found
      simp only [Option.some.injEq, Prod.mk.injEq]
      constructor
      · intro h
        obtain ⟨next, hfollow, h⟩ := bind_eq_ok_iff.mp h
        obtain ⟨rfl, rfl, rfl⟩ : next = trail' ∧ step' = step ∧ token = last := by
          simpa using Except.ok.inj h
        exact ⟨param, ⟨rfl, rfl⟩, hfollow, rfl⟩
      · rintro ⟨param', ⟨rfl, rfl⟩, hfollow, rfl⟩
        exact bind_eq_ok_iff.mpr ⟨trail', hfollow, rfl⟩

/-- A token that is not the last is followed if it resolves to a step that is, and the others are
followed from there. -/
theorem Trail.followAll_cons_eq_ok_iff {trail : Trail} {level : Level} {token next : String}
    {rest : List String} {result : Trail × Step × String} :
    trail.followAll level token (next :: rest) = .ok result ↔
      ∃ step param middle, level.resolve token = some (step, param) ∧
        trail.follow token step param = .ok middle ∧
        middle.followAll step.next next rest = .ok result := by
  rw [followAll]
  cases level.resolve token with
  | none => simp
  | some found =>
      obtain ⟨step, param⟩ := found
      simp only [Option.some.injEq, Prod.mk.injEq]
      constructor
      · intro h
        obtain ⟨middle, hfollow, h⟩ := bind_eq_ok_iff.mp h
        exact ⟨step, param, middle, ⟨rfl, rfl⟩, hfollow, h⟩
      · rintro ⟨step', param', middle, ⟨rfl, rfl⟩, hfollow, h⟩
        exact bind_eq_ok_iff.mpr ⟨middle, hfollow, h⟩

/-- Tokens are followed to their end exactly if they resolve and their visits are followed. -/
theorem Trail.followAll_eq_ok_iff {trail : Trail} {level : Level} {token : String}
    {rest : List String} {trail' : Trail} {step : Step} {last : String} :
    trail.followAll level token rest = .ok (trail', step, last) ↔
      ∃ visits v, level.visit (token :: rest) = some (visits ++ [v]) ∧
        trail.followVisits (visits ++ [v]) = .ok trail' ∧ v.step = step ∧ v.token = last := by
  induction rest generalizing trail level token with
  | nil =>
      rw [followAll_last_eq_ok_iff]
      constructor
      · rintro ⟨param, hresolve, hfollow, rfl⟩
        refine ⟨[], ⟨token, step, param⟩, ?_, ?_, rfl, rfl⟩
        · exact Level.visit_singleton_eq_some_iff.mpr ⟨step, param, hresolve, rfl⟩
        · exact (followVisits_singleton trail _).trans hfollow
      · rintro ⟨visits, v, hvisits, hfollow, rfl, rfl⟩
        obtain ⟨step, param, hresolve, hone⟩ := Level.visit_singleton_eq_some_iff.mp hvisits
        obtain ⟨rfl, rfl⟩ : visits = [] ∧ v = ⟨token, step, param⟩ := by
          simpa [List.append_eq_singleton_iff] using hone
        exact ⟨param, hresolve, (followVisits_singleton trail _).symm.trans hfollow, rfl⟩
  | cons next rest ih =>
      rw [followAll_cons_eq_ok_iff]
      constructor
      · rintro ⟨step', param, middle, hresolve, hfollow, h⟩
        obtain ⟨visits, v, hvisits, hrest, hstep, hlast⟩ := ih.mp h
        refine ⟨⟨token, step', param⟩ :: visits, v, ?_, ?_, hstep, hlast⟩
        · exact Level.visit_cons_eq_some_iff.mpr ⟨step', param, _, hresolve, hvisits, rfl⟩
        · exact bind_eq_ok_iff.mpr ⟨middle, hfollow, hrest⟩
      · rintro ⟨visits, v, hvisits, hfollow, hstep, hlast⟩
        obtain ⟨step', param, following, hresolve, hrest, heq⟩ :=
          Level.visit_cons_eq_some_iff.mp hvisits
        cases visits with
        | nil =>
            -- one visit cannot stand for two tokens
            rw [List.nil_append, List.cons.injEq] at heq
            have htokens := Level.token_of_visit hrest
            rw [← heq.2] at htokens
            cases htokens
        | cons first visits =>
            rw [List.cons_append, List.cons.injEq] at heq
            obtain ⟨rfl, rfl⟩ := heq
            obtain ⟨middle, hfirst, hmore⟩ := bind_eq_ok_iff.mp hfollow
            exact ⟨step', param, middle, hresolve, hfirst,
              ih.mpr ⟨visits, v, hrest, hmore, hstep, hlast⟩⟩

/-- A request compiles exactly if its tokens resolve, every visit is followed, and the step of the
last one finishes the trail. -/
theorem RouteTable.compile_eq_ok_iff {table : RouteTable} {options : StatementOptions}
    {tokens : List String} {compiled : Compiled} :
    table.compile options tokens = .ok compiled ↔
      ∃ visits v trail, table.root.visit tokens = some (visits ++ [v]) ∧
        Trail.followVisits {} (visits ++ [v]) = .ok trail ∧
        trail.finish v.step v.token options = .ok compiled := by
  cases tokens with
  | nil => simp [compile, Level.visit]
  | cons token rest =>
      rw [compile, bind_eq_ok_iff]
      constructor
      · rintro ⟨⟨trail, step, last⟩, hfollow, hfinish⟩
        obtain ⟨visits, v, hvisits, htrail, rfl, rfl⟩ := Trail.followAll_eq_ok_iff.mp hfollow
        exact ⟨visits, v, trail, hvisits, htrail, hfinish⟩
      · rintro ⟨visits, v, trail, hvisits, htrail, hfinish⟩
        exact ⟨(trail, v.step, v.token),
          Trail.followAll_eq_ok_iff.mpr ⟨visits, v, hvisits, htrail, rfl, rfl⟩, hfinish⟩

end CypherRoutes
