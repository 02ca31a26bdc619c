/-
# Requests to the same steps

Two requests that visit the same steps of a table differ in their values only. Either both are
refused, with faults of one kind and at one place, or both compile, to one text with one key, one
list of bindings and parameters of the same names; and a parameter that no binding names has the
same value in both (`RouteTable.compile_alike`). Both requests may leave the table, and do so
together.
-/
import CypherRoutes.Proofs.Route.Rebinding
import CypherRoutes.Proofs.Route.Refusal

namespace CypherRoutes

/-! ## The same visits -/

/-- Two lists of tokens visit the same steps from a level on: at each place both tokens are the same
literal segment or both are values of the parameter, until both lists end or both leave the
table. -/
inductive Level.SameVisits : Level → List String → List String → Prop where
  | ended (level : Level) : SameVisits level [] []
  | left {level : Level} {token token' : String} (rest rest' : List String) :
      level.resolve token = none → level.resolve token' = none →
        SameVisits level (token :: rest) (token' :: rest')
  | onward {level : Level} {token token' : String} {rest rest' : List String} {step : Step}
      {param : Option String} : level.resolve token = some (step, param) →
        level.resolve token' = some (step, param) → (param = none → token = token') →
        SameVisits step.next rest rest' → SameVisits level (token :: rest) (token' :: rest')

/-- The visits of a list of tokens, until it leaves the table. -/
def Level.visited (level : Level) : (tokens : List String) → List Visit
  | [] => []
  | token :: rest =>
    match level.resolve token with
    | none => []
    | some (step, param) => ⟨token, step, param⟩ :: step.next.visited rest

theorem Level.visited_cons {level : Level} {token : String} {step : Step} {param : Option String}
    (h : level.resolve token = some (step, param)) (rest : List String) :
    level.visited (token :: rest) = ⟨token, step, param⟩ :: step.next.visited rest := by
  rw [visited, h]

/-- Requests to the same steps are of one length, or both leave the table on the way. -/
theorem Level.SameVisits.length_eq_or {level : Level} {tokens tokens' : List String}
    (h : level.SameVisits tokens tokens') :
    tokens.length = tokens'.length ∨
      ((level.visited tokens).length < tokens.length ∧
        (level.visited tokens').length < tokens'.length) := by
  induction h with
  | ended level => exact .inl rfl
  | left rest rest' hleft hleft' =>
      rw [visited, hleft, visited, hleft']
      exact .inr ⟨Nat.succ_pos _, Nat.succ_pos _⟩
  | onward hresolve hresolve' _ _ ih =>
      rw [visited_cons hresolve, visited_cons hresolve']
      simp only [List.length_cons]
      omega

namespace Trail

variable {captures : List String} {trail trail' : Trail} {level : Level}

/-- No more tokens are followed than visited. -/
theorem reach_le (trail : Trail) (level : Level) (tokens : List String) :
    trail.reach level tokens ≤ (level.visited tokens).length := by
  induction tokens generalizing trail level with
  | nil => exact le_rfl
  | cons token rest ih =>
      cases hresolve : level.resolve token with
      | none =>
          rw [reach_of_resolve_none hresolve]
          exact Nat.zero_le _
      | some found =>
          obtain ⟨step, param⟩ := found
          cases hfollow : trail.follow token step param with
          | error fault =>
              rw [reach_of_error hresolve hfollow]
              exact Nat.zero_le _
          | ok next =>
              rw [reach_of_ok hresolve hfollow, Level.visited_cons hresolve, List.length_cons]
              exact Nat.succ_le_succ (ih next step.next)

/-- The next visits of two requests to the same steps. -/
theorem Along.follow {token token' : String} {step : Step} {param : Option String}
    {following : List Visit}
    (h : Along captures (⟨token', step, param⟩ :: following) trail trail')
    (htoken : param = none → token = token') :
    SameOutcome RequestFault.SameKind (Along captures following)
      (trail.follow token step param) (trail'.follow token' step param) := by
  have hsame : Visit.SameStep ⟨token, step, param⟩ ⟨token', step, param⟩ := ⟨rfl, rfl, htoken⟩
  exact h.followVisit hsame

/-- Requests to the same steps are followed equally far. -/
theorem Along.reach_eq {tokens tokens' : List String} (hsame : level.SameVisits tokens tokens')
    (h : Along captures (level.visited tokens') trail trail') :
    trail.reach level tokens = trail'.reach level tokens' := by
  induction hsame generalizing trail trail' with
  | ended level => rfl
  | left rest rest' hleft hleft' =>
      rw [reach_of_resolve_none hleft, reach_of_resolve_none hleft']
  | @onward level token token' rest rest' step param hresolve hresolve' htoken _ ih =>
      rw [Level.visited_cons hresolve'] at h
      have hstep := h.follow htoken
      cases hfollow : trail.follow token step param with
      | error fault =>
          obtain ⟨fault', hfollow', -⟩ := hstep.exists_error hfollow
          rw [reach_of_error hresolve hfollow, reach_of_error hresolve' hfollow']
      | ok next =>
          obtain ⟨next', hfollow', halong⟩ := hstep.exists_ok hfollow
          rw [reach_of_ok hresolve hfollow, reach_of_ok hresolve' hfollow', ih halong]

/-- Requests to the same steps are both refused on the way, with faults of one kind, or both
followed to one step. -/
theorem Along.followAll {token token' : String} {rest rest' : List String}
    (hsame : level.SameVisits (token :: rest) (token' :: rest'))
    (h : Along captures (level.visited (token' :: rest')) trail trail') :
    SameOutcome RequestFault.SameKind
      (fun x y => Rebound captures x.1 y.1 ∧ x.2.1 = y.2.1)
      (trail.followAll level token rest) (trail'.followAll level token' rest') := by
  induction rest generalizing level token token' rest' trail trail' with
  | nil =>
      cases hsame with
      | left _ _ hleft hleft' =>
          rw [followAll_of_resolve_none hleft, followAll_of_resolve_none hleft']
          exact .error rfl
      | onward hresolve hresolve' htoken hrest =>
          cases hrest with
          | ended =>
              rw [Level.visited_cons hresolve'] at h
              rw [followAll_last hresolve, followAll_last hresolve']
              exact (h.follow htoken).bind fun next next' hnext => .ok ⟨hnext.rebound, rfl⟩
  | cons second rest ih =>
      cases hsame with
      | left _ _ hleft hleft' =>
          rw [followAll_of_resolve_none hleft, followAll_of_resolve_none hleft']
          exact .error rfl
      | onward hresolve hresolve' htoken hrest =>
          rw [Level.visited_cons hresolve'] at h
          cases rest' with
          | nil => cases hrest
          | cons second' rest' =>
              rw [followAll_cons hresolve, followAll_cons hresolve']
              exact (h.follow htoken).bind fun next next' hnext => ih hrest hnext

end Trail

/-! ## Answers -/

/-- Two answers that differ in the values of the route's parameters only. -/
structure Compiled.Alike (c c' : Compiled) : Prop where
  text : c.statement.text = c'.statement.text
  key : c.key = c'.key
  bindings : c.bindings = c'.bindings
  pathId : c.pathId = c'.pathId
  names : ∀ v, v ∈ c.statement.params.names ↔ v ∈ c'.statement.params.names
  unbound : ∀ v, (∀ b ∈ c.bindings, b.var ≠ v) →
    c.statement.params.get? v = c'.statement.params.get? v

/-- An answer with new values has the same parameters but for those that its bindings name. -/
theorem Compiled.Rebound.alike {captures : List String} {c c' : Compiled}
    (h : c.Rebound captures c') (huse : c.statement.useParams = true)
    (hc : c.statement.Faithful) (hc' : c'.statement.Faithful) : c.Alike c' := by
  have hnames : ∀ v, v ∈ c.statement.params.names ↔ v ∈ c'.statement.params.names := by
    intro v
    rw [hc.mem_names_iff, hc'.mem_names_iff, h.placeholders]
  refine ⟨(h.text huse).symm, h.key.symm, h.bindings.symm, h.pathId.symm, hnames, fun v hv => ?_⟩
  by_cases hname : v ∈ c.statement.params.names
  · -- the placeholder of the parameter shows one value in both
    rw [hc.mem_names_iff] at hname
    obtain ⟨⟨var, value⟩, hslot, rfl⟩ := List.mem_map.mp hname
    rw [hc.get?_eq var value hslot]
    refine (hc'.get?_eq var value ?_).symm
    rw [h.slots]
    refine List.mem_map.mpr ⟨(var, value), hslot, ?_⟩
    rw [newValue, rebound_eq_none hv, Option.map_none, Option.getD_none]
  · have hname' := hname
    rw [hnames] at hname'
    rw [Params.mem_names_iff, Option.not_isSome_iff_eq_none] at hname hname'
    rw [hname, hname']

/-- The faults of two requests that are refused alike: they are of one kind and at one place, and
each points at the token that its own request has there. -/
structure RouteTable.RefusedAlike (table : RouteTable) (tokens tokens' : List String)
    (fault fault' : RequestFault) : Prop where
  kind : fault.kind = fault'.kind
  place : table.refusedAt tokens = table.refusedAt tokens'
  offender : fault.offender = offenderAt tokens (table.refusedAt tokens)
  offender' : fault'.offender = offenderAt tokens' (table.refusedAt tokens')

namespace RouteTable

variable {table : RouteTable} {tokens tokens' : List String}

/-- Requests to the same steps are refused at one place, if they are. -/
theorem refusedAt_eq (hsame : table.root.SameVisits tokens tokens') :
    table.refusedAt tokens = table.refusedAt tokens' := by
  have hreach := (Trail.along_start (table.root.visited tokens')).reach_eq hsame
  have hle := Trail.reach_le {} table.root tokens
  have hle' := Trail.reach_le {} table.root tokens'
  rw [refusedAt, refusedAt]
  rcases hsame.length_eq_or with hlength | ⟨hleft, hleft'⟩
  · rw [hreach, hlength]
  · -- the token at which both leave the table comes before any that only one of them has
    omega

/-- Requests to the same steps are both refused, with faults of one kind, or compile to answers of
which the second is the first with new values. -/
theorem compile_sameVisits (hsame : table.root.SameVisits tokens tokens')
    (options : StatementOptions) :
    SameOutcome RequestFault.SameKind
      (Compiled.Rebound (paramTokens (table.root.visited tokens')))
      (table.compile options tokens) (table.compile options tokens') := by
  have halong := Trail.along_start (table.root.visited tokens')
  cases tokens with
  | nil =>
      cases hsame
      exact .error rfl
  | cons token rest =>
      cases tokens' with
      | nil => cases hsame
      | cons token' rest' =>
          rw [compile, compile]
          refine (halong.followAll hsame).bind ?_
          rintro ⟨trail, step, last⟩ ⟨trail', step', last'⟩ ⟨hrebound, hstep⟩
          simp only at hrebound hstep
          subst hstep
          exact hrebound.finish step last last' options

/-- Two requests to the same steps of a table, compiled with parameters. Either both are refused,
with faults of one kind at one place; or both compile, with one text, key and path identifier, the
same bindings, and parameters of the same names that differ at most where a binding names them. -/
theorem compile_alike (table : RouteTable) (terminate : Bool) {tokens tokens' : List String}
    (hsame : table.root.SameVisits tokens tokens') :
    SameOutcome (table.RefusedAlike tokens tokens') Compiled.Alike
      (table.compile ⟨true, terminate⟩ tokens) (table.compile ⟨true, terminate⟩ tokens') := by
  have hplace := refusedAt_eq hsame
  have hrun := compile_sameVisits hsame ⟨true, terminate⟩
  cases hcompile : table.compile ⟨true, terminate⟩ tokens with
  | error fault =>
      obtain ⟨fault', hcompile', hkind⟩ := hrun.exists_error hcompile
      rw [hcompile']
      exact .error ⟨hkind, hplace, offender_of_compile hcompile, offender_of_compile hcompile'⟩
  | ok c =>
      obtain ⟨c', hcompile', hrebound⟩ := hrun.exists_ok hcompile
      obtain ⟨visits, -, hof⟩ := compiled_of hcompile
      rw [hcompile']
      exact .ok (hrebound.alike hof.useParams hof.faithful (faithful_of_compile hcompile'))

/-- The table of `/model/$handle`, where the node has a property of a fixed value and one of the
parameter's. -/
def described : RouteTable where
  root := ⟨[("model", ⟨{ node := some (.block "model" (some (.fixed "kind" (.string "x")))) },
    ⟨[], some ("handle", ⟨{ prop := some (.ofToken "handle"), ret := some .items }, .empty⟩)⟩⟩)],
    none⟩

/-- Two handles, one of them the text of the literal segment, give one text; and behind a handle
no token leads on. -/
theorem compile_alike_described :
    (∃ c c', described.compile {} ["model", "u"] = .ok c ∧
      described.compile {} ["model", "model"] = .ok c' ∧ c.Alike c' ∧
      c'.statement.text = "MATCH (n0:model \x7bkind:$p0,handle:$p1\x7d) RETURN n0") ∧
    ∃ fault fault', described.compile {} ["model", "u", "nodes"] = .error fault ∧
      described.compile {} ["model", "w", "x", "y"] = .error fault' ∧
      described.RefusedAlike ["model", "u", "nodes"] ["model", "w", "x", "y"] fault fault' ∧
      described.refusedAt ["model", "w", "x", "y"] = 2 := by
  constructor
  · have hsame : described.root.SameVisits ["model", "u"] ["model", "model"] :=
      .onward rfl rfl (fun _ => rfl) (.onward rfl rfl (fun hnone => nomatch hnone) (.ended _))
    obtain ⟨c, hcompile, -⟩ := exists_ok_of_observed (f := fun _ => ()) (b := ())
      (x := described.compile {} ["model", "u"]) (by decide +kernel)
    obtain ⟨c', hcompile', htext⟩ := exists_ok_of_observed (f := fun c => c.statement.text)
      (b := "MATCH (n0:model \x7bkind:$p0,handle:$p1\x7d) RETURN n0")
      (x := described.compile {} ["model", "model"]) (by decide +kernel)
    obtain ⟨other, hother, halike⟩ := (compile_alike described false hsame).exists_ok hcompile
    obtain rfl := Except.ok.inj (hother.symm.trans hcompile')
    exact ⟨c, other, hcompile, hcompile', halike, htext⟩
  · have hsame : described.root.SameVisits ["model", "u", "nodes"] ["model", "w", "x", "y"] :=
      .onward rfl rfl (fun _ => rfl)
        (.onward rfl rfl (fun hnone => nomatch hnone) (.left _ _ rfl rfl))
    cases hcompile : described.compile {} ["model", "u", "nodes"] with
    | ok c =>
        have hfails : (described.compile {} ["model", "u", "nodes"]).toBool = false := by
          decide +kernel
        rw [hcompile] at hfails
        cases hfails
    | error fault =>
        obtain ⟨fault', hcompile', halike⟩ :=
          (compile_alike described false hsame).exists_error hcompile
        exact ⟨fault, fault', rfl, hcompile', halike, by decide +kernel⟩

end RouteTable

end CypherRoutes
