/-
# Where a request is refused

A request is followed token by token, and the first token at which a step fails is the one that it
is refused at; if all tokens are followed and the trail cannot be finished, it is refused at the
last one. The fault points at this token (`RouteTable.offender_of_compile`), whatever was built
before: every part of a step blames the token at hand.
-/
import CypherRoutes.Proofs.Route.Trail

namespace CypherRoutes

/-! ## Blame -/

/-- Every fault of a computation points at the given token. -/
def Blames {α : Type} (token : String) (x : Except RequestFault α) : Prop :=
  ∀ fault, x = .error fault → fault.offender = .token token

section Blames

variable {α β : Type} {token : String}

/-- A computation that succeeds blames no token, so it blames any. -/
theorem blames_ok (a : α) : Blames token (.ok a) := fun _ h => nomatch h

/-- A fault at a token blames it. -/
theorem blames_error {fault : RequestFault} (h : fault.offender = .token token) :
    Blames token (.error fault : Except RequestFault α) := by
  intro fault' hfault
  obtain rfl := Except.error.inj hfault
  exact h

/-- Computations one after the other blame what each of them does. -/
theorem Blames.bind {x : Except RequestFault α} {f : α → Except RequestFault β}
    (hx : Blames token x) (hf : ∀ a, x = .ok a → Blames token (f a)) : Blames token (x >>= f) := by
  cases x with
  | error fault => exact blames_error (hx fault rfl)
  | ok a => exact hf a rfl

/-- A changed result changes no fault. -/
theorem Blames.map {x : Except RequestFault α} (hx : Blames token x) (f : α → β) :
    Blames token (x.map f) := by
  cases x with
  | error fault => exact blames_error (hx fault rfl)
  | ok a => exact blames_ok (f a)

end Blames

/-- A link that cannot be stitched blames its token. -/
theorem blames_link (s : Numbering) (a b : Entity) (r : Relationship) (token : String) :
    Blames token (link s a r b token) := by
  rcases link_cases s a b r token with ⟨n, m, rfl, rfl⟩ | ⟨hlink, -⟩
  · exact blames_ok _
  · rw [hlink, linkPath]
    cases stitch [a, .relationship r, b] with
    | error error => exact blames_error rfl
    | ok triples => exact blames_ok _

/-- So does a block that cannot be built. -/
theorem NodeSpec.blames_build (spec : NodeSpec) (s : Numbering) (token : String) :
    Blames token (spec.build s token) := by
  induction spec generalizing s with
  | label => exact blames_ok _
  | unlabelled => exact blames_ok _
  | block => exact blames_ok _
  | linked name prop edge target ih =>
      rw [build]
      exact (ih _).bind fun _ _ => blames_link _ _ _ _ token

namespace Trail

/-! ## Steps -/

theorem blames_attachSelected (e : Entity) (p : Property) (step : Step) (token : String) :
    Blames token (attachSelected e p step token) := by
  have hnode : Blames token (gainAtNode step.nodeSelector p token e) := by
    cases step.nodeSelector with
    | none => exact blames_ok e
    | some label =>
        rw [gainAtNode]
        cases e.addPropToNode label p with
        | none => exact blames_error rfl
        | some changed => exact blames_ok changed
  have hedge : ∀ e, Blames token (gainAtEdge step.edgeSelector p token e) := by
    intro e
    cases step.edgeSelector with
    | none => exact blames_ok e
    | some kind =>
        rw [gainAtEdge]
        cases e.addPropToEdge kind p with
        | none => exact blames_error rfl
        | some changed => exact blames_ok changed
  rw [attachSelected]
  split_ifs
  · exact blames_error rfl
  · exact hnode.bind fun e _ => hedge e

/-- A property that cannot be attached. -/
theorem blames_attachGiven (entity : Option Entity) (p : Option Property) (step : Step)
    (token : String) : Blames token (attachGiven entity p step token) := by
  cases p with
  | none => exact blames_ok entity
  | some p =>
      refine Blames.map ?_ some
      cases entity with
      | none => exact blames_error rfl
      | some e =>
          rw [attach_some]
          cases e with
          | node n => exact blames_ok _
          | relationship r => exact blames_ok _
          | property q => exact blames_attachSelected _ p step token
          | triple t => exact blames_attachSelected _ p step token
          | path g => exact blames_attachSelected _ p step token

/-- An entity that cannot be built. -/
theorem blames_introduce (s : Numbering) (node : Option NodeSpec) (token : String) :
    Blames token (introduce s token node) := by
  cases node with
  | none => exact blames_ok _
  | some spec => exact (spec.blames_build s token).map _

/-- Entities that cannot be connected. -/
theorem blames_connect (s : Numbering) (entity added : Option Entity) (step : Step)
    (token : String) : Blames token (connect s entity added step token) := by
  rw [connect]
  cases step.edge with
  | none => exact blames_ok _
  | some spec =>
      cases entity with
      | none => exact blames_error rfl
      | some incoming =>
          cases added with
          | none => exact blames_error rfl
          | some added => exact (blames_link _ _ _ _ token).bind fun _ _ => blames_ok _

/-- A step blames its token. -/
theorem blames_follow (trail : Trail) (token : String) (step : Step) (param : Option String) :
    Blames token (trail.follow token step param) := by
  rw [follow_eq]
  refine (blames_attachGiven _ _ step token).bind fun entity _ => ?_
  refine (blames_introduce _ step.node token).bind fun built _ => ?_
  exact (blames_connect built.2 entity built.1 step token).bind fun _ _ => blames_ok _

/-- A trail that cannot be finished blames the last token. -/
theorem blames_finish (trail : Trail) (step : Step) (token : String)
    (options : StatementOptions) : Blames token (trail.finish step token options) := by
  rw [Trail.finish]
  cases step.ret with
  | none => exact blames_error rfl
  | some ret =>
      cases trail.entity with
      | none => exact blames_error rfl
      | some entity =>
          refine Blames.bind ?_ fun _ _ => blames_ok _
          cases ret with
          | items => exact blames_ok _
          | named name =>
              rw [ReturnSpec.resolve]
              cases ReturnSpec.namedOf entity name with
              | nil => exact blames_error rfl
              | cons t rest => exact blames_ok _
          | select nodes edges own pathId =>
              simp only [ReturnSpec.resolve]
              cases ReturnSpec.selectedOf entity nodes edges trail.unlabelled
                  (own.or step.func).isNone with
              | nil => exact blames_error rfl
              | cons t rest => exact blames_ok _

/-! ## Places -/

/-- How many of the tokens are followed before one is not. -/
def reach (trail : Trail) (level : Level) : (tokens : List String) → ℕ
  | [] => 0
  | token :: rest =>
    match level.resolve token with
    | none => 0
    | some (step, param) =>
      match trail.follow token step param with
      | .error _ => 0
      | .ok next => next.reach step.next rest + 1

variable {trail : Trail} {level : Level} {token next : String} {rest : List String} {step : Step}
  {param : Option String}

/-- A token that leads nowhere is not followed. -/
theorem reach_of_resolve_none (h : level.resolve token = none) (rest : List String) :
    trail.reach level (token :: rest) = 0 := by
  rw [reach, h]

/-- Nor is a token whose step fails. -/
theorem reach_of_error (h : level.resolve token = some (step, param)) {fault : RequestFault}
    (hfollow : trail.follow token step param = .error fault) (rest : List String) :
    trail.reach level (token :: rest) = 0 := by
  simp only [reach, h, hfollow]

/-- Behind a token that is followed, the others are followed from the next level on. -/
theorem reach_of_ok (h : level.resolve token = some (step, param)) {middle : Trail}
    (hfollow : trail.follow token step param = .ok middle) (rest : List String) :
    trail.reach level (token :: rest) = middle.reach step.next rest + 1 := by
  rw [reach]
  simp only [h, hfollow]

theorem followAll_of_resolve_none (h : level.resolve token = none) (rest : List String) :
    trail.followAll level token rest = .error (.notOnPath token) := by
  cases rest with
  | nil => rw [followAll, h]
  | cons next rest => rw [followAll, h]

theorem followAll_last (h : level.resolve token = some (step, param)) :
    trail.followAll level token []
      = (trail.follow token step param >>= fun trail => .ok (trail, step, token)) := by
  rw [followAll, h]
  rfl

theorem followAll_cons (h : level.resolve token = some (step, param)) :
    trail.followAll level token (next :: rest)
      = (trail.follow token step param >>= fun trail => trail.followAll step.next next rest) := by
  rw [followAll, h]

/-- Tokens are refused at the first one, or this is followed and they are refused later. -/
theorem followAll_error_cases {fault : RequestFault}
    (h : trail.followAll level token rest = .error fault) :
    (trail.reach level (token :: rest) = 0 ∧ fault.offender = .token token) ∨
      ∃ (step : Step) (middle : Trail) (next : String) (more : List String),
        rest = next :: more ∧ middle.followAll step.next next more = .error fault ∧
        trail.reach level (token :: rest) = middle.reach step.next rest + 1 := by
  cases hresolve : level.resolve token with
  | none =>
      rw [followAll_of_resolve_none hresolve] at h
      obtain rfl := Except.error.inj h
      exact .inl ⟨reach_of_resolve_none hresolve rest, rfl⟩
  | some found =>
      obtain ⟨step, param⟩ := found
      cases hfollow : trail.follow token step param with
      | error fault' =>
          have hfault : fault' = fault := by
            cases rest with
            | nil =>
                rw [followAll_last hresolve, hfollow] at h
                exact Except.error.inj h
            | cons next more =>
                rw [followAll_cons hresolve, hfollow] at h
                exact Except.error.inj h
          exact .inl ⟨reach_of_error hresolve hfollow rest,
            hfault ▸ trail.blames_follow token step param fault' hfollow⟩
      | ok middle =>
          cases rest with
          | nil =>
              rw [followAll_last hresolve, hfollow] at h
              cases h
          | cons next more =>
              rw [followAll_cons hresolve, hfollow] at h
              exact .inr ⟨step, middle, next, more, rfl, h, reach_of_ok hresolve hfollow _⟩

/-- Tokens that are not followed to their end are refused at the first one that is not followed. -/
theorem blames_of_followAll {fault : RequestFault}
    (h : trail.followAll level token rest = .error fault) :
    ∃ t, (token :: rest)[trail.reach level (token :: rest)]? = some t ∧
      fault.offender = .token t := by
  induction rest generalizing trail level token with
  | nil =>
      rcases followAll_error_cases h with ⟨hreach, hblames⟩ | ⟨step, middle, next, more, hrest, -⟩
      · exact ⟨token, by rw [hreach]; rfl, hblames⟩
      · cases hrest
  | cons second rest ih =>
      rcases followAll_error_cases h with
        ⟨hreach, hblames⟩ | ⟨step, middle, next, more, hrest, hlater, hreach⟩
      · exact ⟨token, by rw [hreach]; rfl, hblames⟩
      · obtain ⟨rfl, rfl⟩ := List.cons.inj hrest
        obtain ⟨t, ht, hblames⟩ := ih hlater
        exact ⟨t, by rw [hreach, List.getElem?_cons_succ, ht], hblames⟩

/-- Tokens that are followed to their end are all followed. -/
theorem reach_of_followAll {trail' : Trail} {last : String}
    (h : trail.followAll level token rest = .ok (trail', step, last)) :
    trail.reach level (token :: rest) = (token :: rest).length ∧
      (token :: rest).getLast? = some last := by
  induction rest generalizing trail level token with
  | nil =>
      obtain ⟨param, hresolve, hfollow, rfl⟩ := followAll_last_eq_ok_iff.mp h
      exact ⟨reach_of_ok hresolve hfollow [], rfl⟩
  | cons second rest ih =>
      obtain ⟨step', param, middle, hresolve, hfollow, h⟩ := followAll_cons_eq_ok_iff.mp h
      obtain ⟨hreach, hlast⟩ := ih h
      rw [reach_of_ok hresolve hfollow, hreach, List.getLast?_cons_cons]
      exact ⟨rfl, hlast⟩

end Trail

namespace RouteTable

/-- The place of the token at which a request is refused, if it is: the first one that is not
followed, or else the last one. -/
def refusedAt (table : RouteTable) (tokens : List String) : ℕ :=
  min (Trail.reach {} table.root tokens) (tokens.length - 1)

/-- The token at a place, as what a fault points at. -/
def offenderAt (tokens : List String) (place : ℕ) : Offender :=
  match tokens[place]? with
  | some token => .token token
  | none => .nothing

/-- A fault points at the token at which the request is refused; only a request without tokens has
none. -/
theorem offender_of_compile {table : RouteTable} {options : StatementOptions}
    {tokens : List String} {fault : RequestFault}
    (h : table.compile options tokens = .error fault) :
    fault.offender = offenderAt tokens (table.refusedAt tokens) := by
  cases tokens with
  | nil =>
      obtain rfl := Except.error.inj h
      rfl
  | cons token rest =>
      rw [offenderAt, refusedAt]
      rw [compile] at h
      cases hfollow : Trail.followAll {} table.root token rest with
      | error fault' =>
          rw [hfollow] at h
          obtain rfl := Except.error.inj h
          obtain ⟨t, ht, hblames⟩ := Trail.blames_of_followAll hfollow
          have hlt := (List.getElem?_eq_some_iff.mp ht).1
          rw [min_eq_left (by omega), ht, hblames]
      | ok result =>
          obtain ⟨trail, step, last⟩ := result
          obtain ⟨hreach, hlast⟩ := Trail.reach_of_followAll hfollow
          rw [hfollow] at h
          rw [List.getLast?_eq_getElem?] at hlast
          rw [hreach, min_eq_right (by omega), hlast]
          exact trail.blames_finish step last options fault h

end RouteTable

end CypherRoutes
