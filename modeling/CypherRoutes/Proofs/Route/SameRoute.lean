/-
# Two requests on one route

Two requests whose tokens lead to the same steps, and which differ in the values of parameters
only, are followed in step: both are refused with faults of one kind, or the second trail is the
first one with the new values that its bindings take from the second request (`Trail.Rebound`).
The values are found as the cache finds them: by the variable and the group of a binding.
-/
import CypherRoutes.Proofs.Route.Revalue

namespace CypherRoutes

/-! ## Visits of one route -/

/-- Two visits that a key does not tell apart: they lead to one step, and only the value of a
parameter may differ. -/
structure Visit.SameStep (v w : Visit) : Prop where
  step : v.step = w.step
  param : v.param = w.param
  token : v.param = none → v.token = w.token

/-- The tokens that are values of parameters, in order. -/
def paramTokens (visits : List Visit) : List String :=
  visits.filterMap fun v => v.param.map fun _ => v.token

/-- The new values by variable: each binding takes the capture of its group. -/
def rebound (captures : List String) (bindings : List Binding) (var : String) : Option String :=
  (bindings.find? (·.var == var)).bind fun b => captures[b.capture]?

/-- Nothing new for a variable that no binding is about. -/
theorem rebound_eq_none {captures : List String} {bindings : List Binding} {var : String}
    (h : ∀ b ∈ bindings, b.var ≠ var) : rebound captures bindings var = none := by
  rw [rebound, List.find?_eq_none.mpr fun b hb => by simpa using h b hb, Option.bind_none]

/-- Bindings that come later matter for new variables only. -/
theorem rebound_append {captures : List String} {bindings more : List Binding} {var : String}
    (h : ∀ b ∈ more, b.var ≠ var) :
    rebound captures (bindings ++ more) var = rebound captures bindings var := by
  have hmore : more.find? (·.var == var) = none :=
    List.find?_eq_none.mpr fun b hb => by simpa using h b hb
  rw [rebound, rebound, List.find?_append, hmore, Option.or_none]

/-- The new value of the last binding. -/
theorem rebound_last {captures : List String} {bindings : List Binding} {b : Binding}
    (h : ∀ a ∈ bindings, a.var ≠ b.var) :
    rebound captures (bindings ++ [b]) b.var = captures[b.capture]? := by
  have hfirst : bindings.find? (·.var == b.var) = none :=
    List.find?_eq_none.mpr fun a ha => by simpa using h a ha
  rw [rebound, List.find?_append, hfirst, Option.none_or, List.find?_singleton,
    beq_self_eq_true, if_pos rfl, Option.bind_some]

namespace Trail

/-- The second of two trails is the first one with new values. -/
structure Rebound (captures : List String) (trail trail' : Trail) : Prop where
  entity : trail'.entity = trail.entity.map (.revalue (rebound captures trail.bindings))
  key : trail'.key = trail.key
  bindings : trail'.bindings = trail.bindings
  unlabelled : trail'.unlabelled = trail.unlabelled
  numbering : trail'.numbering = trail.numbering

/-- Two trails that nothing was built on. -/
theorem rebound_start (captures : List String) : Rebound captures {} {} :=
  ⟨rfl, rfl, rfl, rfl, rfl⟩

/-! ## One step -/

section Step

variable {trail : Trail} {captures : List String} {step : Step} {param : Option String}
  {token token' : String}

/-- The bindings after a step whose token is `token`. -/
def bindingsAfter (trail : Trail) (token : String) (step : Step) (param : Option String) :
    List Binding :=
  trail.bindings ++
    bindingOf trail.key step param (propOf trail.numbering token step param).1

/-- A variable that was not issued before has no new value from earlier bindings. -/
theorem Sound.rebound_eq_none (h : trail.Sound) (captures : List String) {var : String}
    (hvar : ¬ trail.numbering.Issued var) : rebound captures trail.bindings var = none :=
  CypherRoutes.rebound_eq_none fun b hb hb' => hvar (hb' ▸ h.issued b hb)

/-- What a step adds to the bindings leaves the new values of issued variables as they are. -/
theorem rebound_after (captures : List String) (token : String) (step : Step)
    (param : Option String) {var : String} (hvar : trail.numbering.Issued var) :
    rebound captures (trail.bindingsAfter token step param) var
      = rebound captures trail.bindings var := by
  refine rebound_append fun b hb hb' => ?_
  exact (takes_of_mem_bindingOf hb).1.isNew (hb' ▸ hvar)

/-- A variable that is issued only after the property of the token has no new value. -/
theorem Sound.rebound_after_eq_none (h : trail.Sound) (captures : List String) (token : String)
    (step : Step) (param : Option String) {var : String}
    (hvar : ¬ (propOf trail.numbering token step param).2.Issued var) :
    rebound captures (trail.bindingsAfter token step param) var = none := by
  refine CypherRoutes.rebound_eq_none fun b hb hb' => hvar (hb' ▸ ?_)
  rcases List.mem_append.mp hb with hb | hb
  · exact (h.issued b hb).mono (before_propOf trail.numbering token step param)
  · exact (takes_of_mem_bindingOf hb).1.issued

/-- The property of a token that is the value of a parameter, with the value of the other
request. -/
theorem Sound.revalue_bound (h : trail.Sound) (name : String) {p : Property}
    (hp : ¬ trail.numbering.Issued p.var) (hvalue : p.value?.isSome)
    (hcapture : captures[trail.key.count .param]? = some token') :
    p.revalue (rebound captures
      (trail.bindings ++ [⟨name, p.var, trail.key.count .param⟩])) =
        { p with given := some (.string token') } := by
  have hnew : rebound captures (trail.bindings ++ [⟨name, p.var, trail.key.count .param⟩]) p.var
      = some token' := by
    rw [← hcapture]
    refine rebound_last (b := ⟨name, p.var, trail.key.count .param⟩) fun a ha ha' => hp ?_
    have hvars : a.var = p.var := ha'
    exact hvars ▸ h.issued a ha
  obtain ⟨value, hvalue⟩ := Option.isSome_iff_exists.mp hvalue
  unfold Property.revalue
  rw [hvalue, hnew]

/-- A property that no binding is about is the same in both requests. -/
theorem Sound.revalue_unbound (h : trail.Sound) (captures : List String) {p : Property}
    (hp : ¬ trail.numbering.Issued p.var) :
    p.revalue (rebound captures (trail.bindings ++ [])) = p := by
  rw [List.append_nil]
  exact Property.revalue_eq_self (h.rebound_eq_none captures hp)

/-- The two tokens' properties: the second is the first with its new value. -/
theorem Sound.propOf_rebound (h : trail.Sound) (step : Step)
    (htoken : param = none → token = token')
    (hcapture : param.isSome → captures[trail.key.count .param]? = some token') :
    (propOf trail.numbering token' step param).1
        = (propOf trail.numbering token step param).1.map
          (.revalue (rebound captures (trail.bindingsAfter token step param))) ∧
      (propOf trail.numbering token' step param).2
        = (propOf trail.numbering token step param).2 := by
  unfold bindingsAfter propOf bindingOf
  -- a step binds its property only if it has a name for the token and takes the value from it
  cases hprop : step.prop with
  | none =>
      cases param with
      | none => exact ⟨rfl, rfl⟩
      | some name =>
          have hnew := (trail.numbering.takes_property name (some (.string token))).isNew
          have hbound := h.revalue_bound name hnew rfl (hcapture rfl)
          exact ⟨congrArg some hbound.symm, rfl⟩
  | some spec =>
      have hnew := (spec.takes_build trail.numbering (some (.string token))).isNew
      have hunbound := h.revalue_unbound captures hnew
      cases spec with
      | ofToken handle =>
          cases param with
          | none =>
              rw [← htoken rfl]
              exact ⟨congrArg some hunbound.symm, rfl⟩
          | some name =>
              have hbound := h.revalue_bound name hnew rfl (hcapture rfl)
              exact ⟨congrArg some hbound.symm, rfl⟩
      | fixed handle value =>
          cases param with
          | none => exact ⟨congrArg some hunbound.symm, rfl⟩
          | some name => exact ⟨congrArg some hunbound.symm, rfl⟩

/-- The entity that a step adds has no new values. -/
theorem Sound.introduce_rebound (h : trail.Sound) (captures : List String)
    {built : Option Entity × Numbering}
    (hbuilt : introduce (propOf trail.numbering token step param).2 token step.node = .ok built) :
    built.1.map (Entity.revalue (rebound captures (trail.bindingsAfter token step param)))
      = built.1 := by
  obtain ⟨-, hbetween⟩ := builtBetween_introduce hbuilt
  cases hadded : built.1 with
  | none => rfl
  | some e =>
      refine congrArg some (Entity.revalue_eq_self fun v hv => ?_)
      exact h.rebound_after_eq_none captures token step param ((hbetween e hadded).isNew v hv)

/-- The entity before a step keeps its new values. -/
theorem Sound.entity_rebound (h : trail.Sound) (captures : List String) (token : String)
    (step : Step) (param : Option String) :
    trail.entity.map (Entity.revalue (rebound captures (trail.bindingsAfter token step param)))
      = trail.entity.map (Entity.revalue (rebound captures trail.bindings)) := by
  cases hentity : trail.entity with
  | none => rfl
  | some e =>
      refine congrArg some (Entity.revalue_congr fun v hv => ?_)
      exact rebound_after captures token step param ((h.entity e hentity).issued v hv)

/-- A binding is about the variable of its property, whatever the value. -/
theorem bindingOf_revalue (σ : String → Option String) (key : List KeySegment) (step : Step)
    (param : Option String) (p : Option Property) :
    bindingOf key step param (p.map (.revalue σ)) = bindingOf key step param p := by
  unfold bindingOf
  cases param with
  | none => rfl
  | some name =>
      cases p with
      | none => rfl
      | some p => simp only [Option.map_some, Property.revalue_var]

/-- One step of two requests. -/
theorem Rebound.follow {trail' : Trail} (h : Rebound captures trail trail') (hsound : trail.Sound)
    (htoken : param = none → token = token')
    (hcapture : param.isSome → captures[trail.key.count .param]? = some token') :
    SameOutcome RequestFault.SameKind (Rebound captures)
      (trail.follow token step param) (trail'.follow token' step param) := by
  obtain ⟨hprop, hnumbering⟩ := hsound.propOf_rebound step htoken hcapture
  have hentity := hsound.entity_rebound captures token step param
  have hsegment : segmentOf token' param = segmentOf token param := by
    cases param with
    | none => rw [htoken rfl]
    | some name => rfl
  generalize hσ : rebound captures (trail.bindingsAfter token step param) = σ at hprop hentity
  rw [follow_eq, follow_eq, h.entity, h.numbering, hprop, hnumbering, ← hentity, h.key,
    h.bindings, bindingOf_revalue, hsegment]
  -- the entity with its property, and what is connected to it, differ in values only
  refine (attachGiven_revalue σ trail.entity _ step token token').bind ?_
  rintro entity _ rfl
  -- the entity that the step adds is the same in both requests
  refine (introduce_token _ step.node token token').remember.bind ?_
  rintro built _ ⟨hbuilt, rfl⟩
  have hadded := hsound.introduce_rebound captures hbuilt
  rw [hσ] at hadded
  have hconnect := connect_revalue σ built.2 entity built.1 step token token'
  rw [hadded] at hconnect
  refine hconnect.bind ?_
  rintro connected _ rfl
  refine .ok ⟨?_, rfl, rfl, ?_, rfl⟩
  · rw [← hσ]
    rfl
  · simp only [unlabelledAfter, h.unlabelled]

end Step

/-! ## A whole request -/

/-- The captures that a list of visits takes, behind those that were taken before. -/
theorem drop_captures {captures : List String} {key : List KeySegment} {w : Visit}
    {ws : List Visit} (h : captures.drop (key.count .param) = paramTokens (w :: ws)) :
    (w.param.isSome → captures[key.count .param]? = some w.token) ∧
      captures.drop ((key ++ [w.segment]).count .param) = paramTokens ws := by
  rw [List.count_append]
  cases hparam : w.param with
  | none =>
      have hsegment : w.segment = .literal w.token := by rw [Visit.segment, hparam, segmentOf]
      rw [hsegment]
      refine ⟨fun hw => absurd hw (by simp), ?_⟩
      simpa [paramTokens, hparam] using h
  | some name =>
      have hsegment : w.segment = .param := by rw [Visit.segment, hparam, segmentOf]
      have htokens : paramTokens (w :: ws) = w.token :: paramTokens ws := by
        simp [paramTokens, hparam]
      rw [htokens] at h
      rw [hsegment]
      refine ⟨fun _ => ?_, ?_⟩
      · rw [← List.head?_drop, h, List.head?_cons]
      · rw [List.count_singleton_self, ← List.drop_drop, h, List.drop_succ_cons, List.drop_zero]

/-- Two trails from which the second request goes on to visit `following`: the second is the first
one with new values, and of the captures those of `following` are still to come. -/
structure Along (captures : List String) (following : List Visit) (trail trail' : Trail) :
    Prop where
  rebound : Rebound captures trail trail'
  sound : trail.Sound
  captures_eq : captures.drop (trail.key.count .param) = paramTokens following

/-- Two requests set out. -/
theorem along_start (following : List Visit) : Along (paramTokens following) following {} {} :=
  ⟨rebound_start _, sound_start, rfl⟩

/-- Two visits to one step. -/
theorem Along.followVisit {captures : List String} {trail trail' : Trail} {v w : Visit}
    {following : List Visit} (h : Along captures (w :: following) trail trail')
    (hvw : v.SameStep w) :
    SameOutcome RequestFault.SameKind (Along captures following)
      (trail.followVisit v) (trail'.followVisit w) := by
  obtain ⟨hcapture, hrest⟩ := drop_captures h.captures_eq
  have hstep : SameOutcome RequestFault.SameKind (Rebound captures)
      (trail.followVisit v) (trail'.followVisit w) := by
    rw [Trail.followVisit, Trail.followVisit, ← hvw.step, ← hvw.param]
    rw [← hvw.param] at hcapture
    exact h.rebound.follow h.sound hvw.token hcapture
  -- the first trail is sound after the step as well
  refine hstep.remember.imp ?_
  rintro next next' ⟨hnext, hrebound⟩
  refine ⟨hrebound, (h.sound.follow hnext).1, ?_⟩
  obtain ⟨entity, built, connected, -, -, -, rfl⟩ := follow_eq_ok_iff.mp hnext
  have hsegment : segmentOf v.token v.param = w.segment := by
    rw [Visit.segment, ← hvw.param]
    cases hparam : v.param with
    | none => rw [hvw.token hparam]
    | some name => rfl
  rw [hsegment]
  exact hrest

/-- The visits of two requests on one route. -/
theorem Along.followVisits {captures : List String} {trail trail' : Trail} {vs ws : List Visit}
    (h : Along captures ws trail trail') (hsame : List.Forall₂ Visit.SameStep vs ws) :
    SameOutcome RequestFault.SameKind (Along captures [])
      (trail.followVisits vs) (trail'.followVisits ws) := by
  induction hsame generalizing trail trail' with
  | nil => exact .ok h
  | cons hvw _ ih => exact (h.followVisit hvw).bind fun _ _ => ih

end Trail

/-! ## The answers -/

/-- The second of two answers is the first one with new values. -/
structure Compiled.Rebound (captures : List String) (c c' : Compiled) : Prop where
  key : c'.key = c.key
  bindings : c'.bindings = c.bindings
  pathId : c'.pathId = c.pathId
  phrase : c'.statement.phrase = c.statement.phrase.revalue (rebound captures c.bindings)
  useParams : c'.statement.useParams = c.statement.useParams

namespace Trail

/-- A statement about an entity with new values. -/
theorem phrase_statementOf_revalue (σ : String → Option String) (entity : Entity)
    (terms : List Term) (func : Option FuncSpec) (options : StatementOptions) :
    (statementOf (entity.revalue σ) (terms.map (.revalue σ)) func options).phrase
      = (statementOf entity terms func options).phrase.revalue σ := by
  have hlisting : ∀ (keyword : String) (place : Place) (terms : List Term),
      Clause.listing keyword place ", " (terms.map (.revalue σ))
        = (Clause.listing keyword place ", " terms).revalue σ := by
    intro keyword place terms
    rw [Clause.listing, Clause.listing, ← Term.revalueAll_eq_map, Term.allPhrases_revalue,
      Phrase.revalue_verbatim, Phrase.revalue_joined]
  have hmatch := hlisting "MATCH" .pattern [.entity entity]
  have hreturn := hlisting "RETURN" .item (FuncSpec.wrap func terms)
  rw [Statement.phrase, Statement.phrase, Phrase.revalue_append, Phrase.revalue_joined,
    statementOf, statementOf, FuncSpec.wrap_revalue]
  simp only [List.map_cons, List.map_nil, Clause.phrase, ← hmatch, ← hreturn, Term.revalue]
  refine congrArg _ ?_
  split_ifs <;> rfl

/-- What two trails on one route are finished to. -/
theorem Rebound.finish {captures : List String} {trail trail' : Trail}
    (h : Rebound captures trail trail') (step : Step) (token token' : String)
    (options : StatementOptions) :
    SameOutcome RequestFault.SameKind (Compiled.Rebound captures)
      (trail.finish step token options) (trail'.finish step token' options) := by
  rw [Trail.finish, Trail.finish, h.entity, h.unlabelled, h.key, h.bindings]
  cases step.ret with
  | none => exact .error rfl
  | some ret =>
      cases trail.entity with
      | none => exact .error rfl
      | some entity =>
          refine (ReturnSpec.resolve_revalue _ ret entity trail.unlabelled step.func token
            token').bind ?_
          rintro resolved _ rfl
          exact .ok ⟨rfl, rfl, rfl, phrase_statementOf_revalue _ _ _ _ _, rfl⟩

end Trail

/-- Only the parameter of a level has a name. -/
theorem Level.param_of_resolve {level : Level} {token name : String} {step : Step}
    (h : level.resolve token = some (step, some name)) : level.param = some (name, step) := by
  rw [resolve] at h
  cases hlookup : level.literals.lookup token with
  | some found => simp [hlookup] at h
  | none =>
      simp only [hlookup] at h
      obtain ⟨⟨name', step'⟩, hparam, heq⟩ := Option.map_eq_some_iff.mp h
      obtain ⟨rfl, hname⟩ := Prod.mk.inj heq
      obtain rfl := Option.some.inj hname
      exact hparam

/-- At one level the segment of a token tells the step. -/
theorem Level.sameStep_of_segment {level : Level} {v w : Visit}
    (hv : level.resolve v.token = some (v.step, v.param))
    (hw : level.resolve w.token = some (w.step, w.param)) (h : v.segment = w.segment) :
    v.SameStep w := by
  rw [Visit.segment, Visit.segment] at h
  cases hparam : v.param with
  | none =>
      cases hparam' : w.param with
      | none =>
          rw [hparam, hparam', Trail.segmentOf, Trail.segmentOf, KeySegment.literal.injEq] at h
          rw [h, hw, hparam, hparam', Option.some.injEq, Prod.mk.injEq] at hv
          exact ⟨hv.1.symm, hparam.trans hparam'.symm, fun _ => h⟩
      | some name =>
          rw [hparam, hparam'] at h
          cases h
  | some name =>
      cases hparam' : w.param with
      | none =>
          rw [hparam, hparam'] at h
          cases h
      | some name' =>
          have hlevel := param_of_resolve (hparam ▸ hv)
          rw [param_of_resolve (hparam' ▸ hw), Option.some.injEq, Prod.mk.injEq] at hlevel
          refine ⟨hlevel.2.symm, ?_, fun hnone => ?_⟩
          · rw [hparam, hparam', hlevel.1]
          · rw [hparam] at hnone
            cases hnone

/-- Tokens that resolve to equal segments lead to the same steps. -/
theorem Level.sameStep_of_segments {level : Level} {tokens tokens' : List String}
    {vs ws : List Visit} (hvs : level.visit tokens = some vs) (hws : level.visit tokens' = some ws)
    (hsegments : vs.map Visit.segment = ws.map Visit.segment) :
    List.Forall₂ Visit.SameStep vs ws := by
  induction tokens generalizing level tokens' vs ws with
  | nil =>
      obtain rfl := Option.some.inj hvs
      rw [List.map_nil, eq_comm, List.map_eq_nil_iff] at hsegments
      rw [hsegments]
      exact .nil
  | cons token rest ih =>
      obtain ⟨step, param, following, hresolve, hrest, rfl⟩ := visit_cons_eq_some_iff.mp hvs
      cases tokens' with
      | nil =>
          obtain rfl := Option.some.inj hws
          cases hsegments
      | cons token' rest' =>
          obtain ⟨step', param', following', hresolve', hrest', rfl⟩ :=
            visit_cons_eq_some_iff.mp hws
          rw [List.map_cons, List.map_cons, List.cons.injEq] at hsegments
          obtain ⟨hsegment, hfollowing⟩ := hsegments
          have hsame : Visit.SameStep ⟨token, step, param⟩ ⟨token', step', param'⟩ :=
            sameStep_of_segment hresolve hresolve' hsegment
          have hstep : step = step' := hsame.step
          exact .cons hsame (ih hrest (hstep ▸ hrest') hfollowing)

/-- A request compiles if another on its route does, and then to the same statement with its own
values. -/
theorem RouteTable.compile_rebound {table : RouteTable} {options : StatementOptions}
    {tokens tokens' : List String} {vs ws : List Visit} (hvs : table.root.visit tokens = some vs)
    (hws : table.root.visit tokens' = some ws)
    (hsegments : vs.map Visit.segment = ws.map Visit.segment) {c : Compiled}
    (h : table.compile options tokens = .ok c) :
    ∃ c', table.compile options tokens' = .ok c' ∧ c.Rebound (paramTokens ws) c' := by
  obtain ⟨visits, v, trail, hvisit, hfollow, hfinish⟩ := compile_eq_ok_iff.mp h
  obtain rfl := Option.some.inj (hvs.symm.trans hvisit)
  have hsame := Level.sameStep_of_segments hvs hws hsegments
  obtain ⟨trail', hfollow', halong⟩ := ((Trail.along_start ws).followVisits hsame).exists_ok hfollow
  -- the second request ends at the same step, which finishes its trail too
  obtain ⟨ws', w, rfl⟩ : ∃ ws' w, ws = ws' ++ [w] := by
    rcases List.eq_nil_or_concat' ws with rfl | hws
    · exact absurd hsegments (by simp)
    · exact hws
  have hlast : v.SameStep w := by
    have hreverse := List.forall₂_reverse_iff.mpr hsame
    rw [List.reverse_append, List.reverse_append] at hreverse
    exact (List.forall₂_cons.mp hreverse).1
  obtain ⟨c', hfinish', hanswer⟩ :=
    (halong.rebound.finish v.step v.token w.token options).exists_ok hfinish
  refine ⟨c', ?_, hanswer⟩
  rw [hlast.step] at hfinish'
  exact compile_eq_ok_iff.mpr ⟨ws', w, trail', hws, hfollow', hfinish'⟩

end CypherRoutes
