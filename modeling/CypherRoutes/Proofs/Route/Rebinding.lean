/-
# Rebinding

A query from the cache has the parameters of the cached statement, with new values for the
variables of its bindings. With the values of another request on the same route these are, at
every placeholder, the values that a compile of that request gives (`Query.rebind_answers`).
-/
import CypherRoutes.Proofs.Route.RoundTrip
import CypherRoutes.Proofs.Route.SameRoute
import CypherRoutes.Route.Compiler

namespace CypherRoutes

/-! ## Rebound parameters -/

/-- The first binding of a variable tells its new value. -/
theorem rebound_cons (captures : List String) (b : Binding) (rest : List Binding)
    (var : String) :
    rebound captures (b :: rest) var
      = if b.var = var then captures[b.capture]? else rebound captures rest var := by
  by_cases h : b.var = var
  · rw [rebound, List.find?_cons_of_pos (by simpa using h), if_pos h, Option.bind_some]
  · rw [rebound, List.find?_cons_of_neg (by simpa using h), if_neg h, rebound]

/-- The parameters after rebinding. -/
theorem Query.get?_rebindParams (captures : List String) {bindings : List Binding}
    (hnodup : (bindings.map Binding.var).Nodup) (params : Params) (var : String) :
    (rebindParams params captures bindings).get? var
      = ((rebound captures bindings var).map .string).or (params.get? var) := by
  induction bindings generalizing params with
  | nil => rfl
  | cons b rest ih =>
      rw [List.map_cons, List.nodup_cons] at hnodup
      have hstep : rebindParams params captures (b :: rest)
          = rebindParams (captures[b.capture]?.elim params
              fun value => params.insert b.var (.string value)) captures rest := by
        rw [rebindParams, List.foldl_cons]
        cases captures[b.capture]? <;> rfl
      rw [hstep, ih hnodup.2, rebound_cons]
      by_cases hvar : b.var = var
      · -- no later binding is about this variable
        have hlater : rebound captures rest var = none :=
          rebound_eq_none fun a ha ha' => hnodup.1 (by
            rw [hvar, ← ha']
            exact List.mem_map_of_mem ha)
        rw [hlater, if_pos hvar]
        cases captures[b.capture]? with
        | none => rfl
        | some value => simp [Params.get?_insert, hvar]
      · rw [if_neg hvar]
        cases captures[b.capture]? with
        | none => rfl
        | some value => rw [Option.elim_some, Params.get?_insert, if_neg (Ne.symm hvar)]

/-! ## What a compile leaves behind -/

/-- The key after a list of visits. -/
theorem Trail.key_followVisits {trail trail' : Trail} {visits : List Visit}
    (h : trail.followVisits visits = .ok trail') :
    trail'.key = trail.key ++ visits.map Visit.segment := by
  induction visits generalizing trail with
  | nil =>
      obtain rfl := Except.ok.inj h
      rw [List.map_nil, List.append_nil]
  | cons v rest ih =>
      obtain ⟨middle, hmiddle, hrest⟩ := bind_eq_ok_iff.mp h
      obtain ⟨entity, built, connected, -, -, -, rfl⟩ := follow_eq_ok_iff.mp hmiddle
      rw [ih hrest, List.map_cons, List.append_assoc]
      rfl

/-- There is a value for every group. -/
theorem length_paramTokens (visits : List Visit) :
    (paramTokens visits).length = (visits.map Visit.segment).count .param := by
  induction visits with
  | nil => rfl
  | cons v rest ih =>
      rw [List.map_cons, List.count_cons, ← ih, Visit.segment]
      cases hparam : v.param with
      | none => simp [paramTokens, hparam, Trail.segmentOf]
      | some name => simp [paramTokens, hparam, Trail.segmentOf]

/-- What is known of a compiled request whose tokens resolve to `visits`. -/
structure Compiled.Of (options : StatementOptions) (visits : List Visit) (c : Compiled) : Prop where
  key : c.key = keyText (visits.map Visit.segment)
  nodup : (c.bindings.map Binding.var).Nodup
  capture : ∀ b ∈ c.bindings, b.capture < (paramTokens visits).length
  useParams : c.statement.useParams = options.useParams
  faithful : c.statement.Faithful

/-- A request that compiles has resolved. -/
theorem RouteTable.compiled_of {table : RouteTable} {options : StatementOptions}
    {tokens : List String} {c : Compiled} (h : table.compile options tokens = .ok c) :
    ∃ visits, table.root.visit tokens = some visits ∧ c.Of options visits := by
  obtain ⟨visits, v, trail, hvisit, hfollow, hfinish⟩ := compile_eq_ok_iff.mp h
  have hsound := Trail.sound_start.followVisits hfollow
  have hkey : trail.key = (visits ++ [v]).map Visit.segment := Trail.key_followVisits hfollow
  have hfaithful := hsound.faithful hfinish
  obtain ⟨ret, entity, terms, func, pathId, -, -, -, rfl⟩ := Trail.finish_eq_ok_iff.mp hfinish
  refine ⟨visits ++ [v], hvisit, congrArg keyText hkey, hsound.nodup, ?_, rfl, hfaithful⟩
  intro b hb
  rw [length_paramTokens, ← hkey]
  exact hsound.capture b hb

/-! ## Answers -/

/-- A query says what a compile of its request says: it has the same text, key and path, and the
same value at every placeholder. -/
structure Query.Answers (q : Query) (fresh : Compiled) : Prop where
  text : q.statement.text = fresh.statement.text
  key : q.build.compiled.key = fresh.key
  pathId : q.build.compiled.pathId = fresh.pathId
  params : ∀ v ∈ fresh.statement.phrase.placeholders,
    ∃ value, q.params.get? v = some value ∧ fresh.statement.params.get? v = some value

/-- A fresh query says what its own compile says. -/
theorem Query.fresh_answers {table : RouteTable} {options : StatementOptions}
    {tokens : List String} {c : Compiled} (h : table.compile options tokens = .ok c)
    (serial : Nat) : (Query.fresh ⟨serial, c⟩).Answers c := by
  refine ⟨rfl, rfl, rfl, fun v hv => ?_⟩
  obtain ⟨⟨var, value⟩, hslot, rfl⟩ := List.mem_map.mp hv
  have hvalue := (RouteTable.faithful_of_compile h).get?_eq var value hslot
  exact ⟨value, hvalue, hvalue⟩

/-- The slots of an answer on the same route. -/
theorem Compiled.Rebound.slots {captures : List String} {c c' : Compiled}
    (h : c.Rebound captures c') :
    c'.statement.phrase.slots
      = c.statement.phrase.slots.map
        fun x => (x.1, newValue (rebound captures c.bindings) x.1 x.2) := by
  rw [h.phrase, Phrase.slots_revalue]

/-- Both answers show the same placeholders. -/
theorem Compiled.Rebound.placeholders {captures : List String} {c c' : Compiled}
    (h : c.Rebound captures c') :
    c'.statement.phrase.placeholders = c.statement.phrase.placeholders := by
  rw [Phrase.placeholders, Phrase.placeholders, h.slots, List.map_map]
  rfl

/-- The text of an answer with parameters is that of any other on the same route. -/
theorem Compiled.Rebound.text {captures : List String} {c c' : Compiled}
    (h : c.Rebound captures c') (huse : c.statement.useParams = true) :
    c'.statement.text = c.statement.text := by
  rw [Statement.text, Statement.text, Statement.textIn, Statement.textIn, Statement.mode,
    Statement.mode, h.useParams, huse, h.phrase]
  exact Phrase.text_revalue _ _

/-- A query that takes a statement from the cache says what a compile of its own request says. -/
theorem Query.rebind_answers {captures : List String} {options : StatementOptions}
    {vs ws : List Visit} {c c' : Compiled} (hc : c.Of options vs) (hc' : c'.Of options ws)
    (huse : options.useParams = true) (h : c.Rebound captures c') (serial : Nat) :
    (Query.rebind ⟨serial, c⟩ captures).Answers c' := by
  constructor
  · exact (h.text (hc.useParams.trans huse)).symm
  · exact h.key.symm
  · exact h.pathId.symm
  · intro v hv
    rw [h.placeholders] at hv
    obtain ⟨⟨var, value⟩, hslot, rfl⟩ := List.mem_map.mp hv
    refine ⟨newValue (rebound captures c.bindings) var value, ?_, ?_⟩
    · show (rebindParams c.statement.params captures c.bindings).get? var = _
      rw [get?_rebindParams captures hc.nodup, hc.faithful.get?_eq var value hslot, newValue]
      cases rebound captures c.bindings var <;> rfl
    · refine hc'.faithful.get?_eq var _ ?_
      rw [h.slots]
      exact List.mem_map.mpr ⟨(var, value), hslot, rfl⟩

end CypherRoutes
