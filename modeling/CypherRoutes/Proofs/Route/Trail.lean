/-
# Trails

What one step does to a trail, and what every trail keeps: its entity is coherent and has issued
variables only, and its bindings name different issued variables, each with the number of
parameters before it (`Trail.Sound`).
-/
import CypherRoutes.Proofs.Route.Building
import CypherRoutes.Proofs.Route.Visits

namespace CypherRoutes

/-! ## Gaining a property -/

/-- An entity before and after a property is attached to the copies of a node, of a relationship
or of both. -/
inductive Entity.Gains (p : Property) : Entity → Entity → Prop where
  | node (e : Entity) (var : String) : Gains p e (e.attachToNode var p)
  | edge (e : Entity) (var : String) : Gains p e (e.attachToEdge var p)
  | both (e : Entity) (var var' : String) :
      Gains p e ((e.attachToNode var p).attachToEdge var' p)

namespace Entity.Gains

variable {p : Property} {e e' : Entity}

/-- An entity gains no variable but the property's. -/
theorem mem_vars (h : Gains p e e') {v : String} (hv : v ∈ e'.vars) : v ∈ e.vars ∨ v = p.var := by
  cases h with
  | node var => exact mem_vars_attachToNode hv
  | edge var => exact mem_vars_attachToEdge hv
  | both var var' =>
      rcases mem_vars_attachToEdge hv with hv | hv
      · exact mem_vars_attachToNode hv
      · exact .inr hv

/-- A coherent entity that gains a property of a new variable stays coherent. -/
theorem coherent (h : Gains p e e') (he : e.Coherent) (hp : p.var ∉ e.vars) : e'.Coherent := by
  have hnew : ∀ q ∈ e.props, q.var = p.var → q.given = p.given :=
    fun q hq hqp => absurd (var_mem_vars_of_prop hq) (hqp ▸ hp)
  cases h with
  | node var => exact he.attachToNode hnew
  | edge var => exact he.attachToEdge hnew
  | both var var' =>
      refine (he.attachToNode hnew).attachToEdge fun q hq hqp => ?_
      rcases mem_props_attachToNode hq with hq | ⟨_, rfl⟩
      · exact hnew q hq hqp
      · rfl

/-- What is built between two numberings, with a property that is named next. -/
theorem builtBetween {s t u : Numbering} (h : Gains p e e') (he : e.BuiltBetween s t)
    (hp : t.Takes u p.var) : e'.BuiltBetween s u where
  before := he.before.trans hp.before
  coherent := h.coherent he.coherent fun hv => hp.isNew (he.issued _ hv)
  issued v hv := by
    rcases h.mem_vars hv with hv | rfl
    · exact (he.issued v hv).mono hp.before
    · exact hp.issued
  isNew v hv hi := by
    rcases h.mem_vars hv with hv | rfl
    · exact he.isNew v hv hi
    · exact hp.isNew (hi.mono he.before)

end Entity.Gains

namespace Trail

/-! ## The parts of a step -/

/-- The entity with a property attached to its node of a label, if a label is given. -/
def gainAtNode (label : Option String) (p : Property) (token : String) (e : Entity) :
    Except RequestFault Entity :=
  match label with
  | none => .ok e
  | some label =>
    match e.addPropToNode label p with
    | some changed => .ok changed
    | none => .error (.nodeNotPresent token)

/-- The entity with a property attached to its relationship of a type, if a type is given. -/
def gainAtEdge (kind : Option String) (p : Property) (token : String) (e : Entity) :
    Except RequestFault Entity :=
  match kind with
  | none => .ok e
  | some kind =>
    match e.addPropToEdge kind p with
    | some changed => .ok changed
    | none => .error (.edgeNotPresent token)

/-- The entity with a property attached to the members that a step selects. -/
def attachSelected (e : Entity) (p : Property) (step : Step) (token : String) :
    Except RequestFault Entity :=
  if step.nodeSelector.isNone && step.edgeSelector.isNone then .error (.ambiguousProp token)
  else do
    let e ← gainAtNode step.nodeSelector p token e
    gainAtEdge step.edgeSelector p token e

/-- An entity that is no node and no relationship gains a property where the step selects it. -/
theorem attach_composite {e : Entity} (hnode : ∀ n, e ≠ .node n)
    (hrelationship : ∀ r, e ≠ .relationship r) (p : Property) (step : Step) (token : String) :
    attach (some e) p step token = attachSelected e p step token := by
  unfold attach attachSelected
  split
  · next h => cases h
  · next n h => exact absurd (Option.some.inj h) (hnode n)
  · next r h => exact absurd (Option.some.inj h) (hrelationship r)
  · next composite h =>
      obtain rfl := Option.some.inj h
      cases step.nodeSelector with
      | none => cases step.edgeSelector <;> rfl
      | some label =>
          simp only [gainAtNode]
          cases e.addPropToNode label p <;> cases step.edgeSelector <;> rfl

/-- A node or a relationship takes a property itself; in any other entity the step selects the
members that do. -/
theorem attach_some (e : Entity) (p : Property) (step : Step) (token : String) :
    attach (some e) p step token =
      match e with
      | .node n => .ok (.node (n.attach p))
      | .relationship r => .ok (.relationship (r.attach p))
      | e => attachSelected e p step token := by
  cases e with
  | node n => rfl
  | relationship r => rfl
  | property => exact attach_composite (by simp) (by simp) p step token
  | triple => exact attach_composite (by simp) (by simp) p step token
  | path => exact attach_composite (by simp) (by simp) p step token

/-- The entity with the property of a token, if the token contributes one. -/
def attachGiven (entity : Option Entity) (p : Option Property) (step : Step) (token : String) :
    Except RequestFault (Option Entity) :=
  match p with
  | none => .ok entity
  | some p => (attach entity p step token).map some

/-- The entity that a step adds, if it adds one. -/
def introduce (s : Numbering) (token : String) (node : Option NodeSpec) :
    Except RequestFault (Option Entity × Numbering) :=
  match node with
  | none => .ok (none, s)
  | some spec => (spec.build s token).map fun (e, s) => (some e, s)

/-- The variable of the latest unlabelled node after a step. -/
def unlabelledAfter (trail : Trail) (step : Step) (added : Option Entity) : Option String :=
  if step.node.any NodeSpec.isUnlabelled then
    (added.bind fun e => e.nodes.head?).map Node.var
  else trail.unlabelled

/-- A step attaches the token's property, builds its entity and connects the two. -/
theorem follow_eq (trail : Trail) (token : String) (step : Step) (param : Option String) :
    trail.follow token step param = (do
      let entity ←
        attachGiven trail.entity (propOf trail.numbering token step param).1 step token
      let built ← introduce (propOf trail.numbering token step param).2 token step.node
      let connected ← connect built.2 entity built.1 step token
      return {
        entity := connected.1
        key := trail.key ++ [segmentOf token param]
        bindings := trail.bindings ++
          bindingOf trail.key step param (propOf trail.numbering token step param).1
        unlabelled := trail.unlabelledAfter step built.1
        numbering := connected.2 }) := by
  rw [follow]
  generalize propOf trail.numbering token step param = given
  obtain ⟨p, s⟩ := given
  cases p with
  | none =>
      simp only [attachGiven, unlabelledAfter]
      cases step.node with
      | none => rfl
      | some spec =>
          simp only [introduce]
          cases spec.build s token <;> rfl
  | some p =>
      simp only [attachGiven, unlabelledAfter]
      cases attach trail.entity p step token with
      | error fault => rfl
      | ok entity =>
          cases step.node with
          | none => rfl
          | some spec =>
              simp only [introduce]
              cases spec.build s token <;> rfl

/-- A step is followed if its property can be attached, its entity built, and the two entities
connected. -/
theorem follow_eq_ok_iff {trail trail' : Trail} {token : String} {step : Step}
    {param : Option String} :
    trail.follow token step param = .ok trail' ↔
      ∃ entity built connected,
        attachGiven trail.entity (propOf trail.numbering token step param).1 step token
          = .ok entity ∧
        introduce (propOf trail.numbering token step param).2 token step.node = .ok built ∧
        connect built.2 entity built.1 step token = .ok connected ∧
        trail' =
          { entity := connected.1
            key := trail.key ++ [segmentOf token param]
            bindings := trail.bindings ++
              bindingOf trail.key step param (propOf trail.numbering token step param).1
            unlabelled := trail.unlabelledAfter step built.1
            numbering := connected.2 } := by
  rw [follow_eq]
  constructor
  · intro h
    obtain ⟨entity, hentity, h⟩ := bind_eq_ok_iff.mp h
    obtain ⟨built, hbuilt, h⟩ := bind_eq_ok_iff.mp h
    obtain ⟨connected, hconnected, h⟩ := bind_eq_ok_iff.mp h
    exact ⟨entity, built, connected, hentity, hbuilt, hconnected, (Except.ok.inj h).symm⟩
  · rintro ⟨entity, built, connected, hentity, hbuilt, hconnected, rfl⟩
    refine bind_eq_ok_iff.mpr ⟨entity, hentity, ?_⟩
    refine bind_eq_ok_iff.mpr ⟨built, hbuilt, ?_⟩
    exact bind_eq_ok_iff.mpr ⟨connected, hconnected, rfl⟩

/-- Without an edge the new entity takes the place of the one before it, if there is one; an edge
needs both. -/
theorem connect_eq_ok {s : Numbering} {entity added : Option Entity} {step : Step}
    {token : String} {connected : Option Entity × Numbering}
    (h : connect s entity added step token = .ok connected) :
    (step.edge = none ∧ connected = (added.or entity, s)) ∨
      ∃ spec incoming new e s', step.edge = some spec ∧ entity = some incoming ∧
        added = some new ∧
        link (spec.build s).2 incoming (spec.build s).1 new token = .ok (e, s') ∧
        connected = (some e, s') := by
  rw [connect] at h
  cases hedge : step.edge with
  | none =>
      simp only [hedge, Except.ok.injEq] at h
      exact .inl ⟨rfl, h.symm⟩
  | some spec =>
      cases entity with
      | none => simp [hedge] at h
      | some incoming =>
          cases added with
          | none => simp [hedge] at h
          | some new =>
              simp only [hedge] at h
              obtain ⟨⟨e, s'⟩, hlink, h⟩ := bind_eq_ok_iff.mp h
              exact .inr ⟨spec, incoming, new, e, s', rfl, rfl, rfl, hlink,
                (Except.ok.inj h).symm⟩

/-! ## What attaching does -/

/-- The entity gains the property at the members that the step selects. -/
theorem gains_attachSelected {e e' : Entity} {p : Property} {step : Step} {token : String}
    (h : attachSelected e p step token = .ok e') : e.Gains p e' := by
  rw [attachSelected] at h
  split_ifs at h with hnone
  obtain ⟨middle, hnode, hedge⟩ := bind_eq_ok_iff.mp h
  have hedge : (step.edgeSelector = none ∧ middle = e') ∨
      ∃ var, e' = middle.attachToEdge var p := by
    cases hkind : step.edgeSelector with
    | none =>
        rw [hkind] at hedge
        exact .inl ⟨rfl, Except.ok.inj hedge⟩
    | some kind =>
        rw [hkind, gainAtEdge, Entity.addPropToEdge] at hedge
        cases hfind : middle.edges.find? (·.hasKind kind) with
        | none => simp [hfind] at hedge
        | some r =>
            simp only [hfind, Option.map_some, Except.ok.injEq] at hedge
            exact .inr ⟨r.var, hedge.symm⟩
  cases hlabel : step.nodeSelector with
  | none =>
      rw [hlabel] at hnode
      obtain rfl := Except.ok.inj hnode
      rcases hedge with ⟨hkind, -⟩ | ⟨var, rfl⟩
      · exact absurd (by rw [hlabel, hkind]; rfl) hnone
      · exact .edge e var
  | some label =>
      rw [hlabel, gainAtNode, Entity.addPropToNode] at hnode
      cases hfind : e.nodes.find? (·.hasLabel label) with
      | none => simp [hfind] at hnode
      | some n =>
          simp only [hfind, Option.map_some, Except.ok.injEq] at hnode
          subst hnode
          rcases hedge with ⟨-, rfl⟩ | ⟨var, rfl⟩
          · exact .node e n.var
          · exact .both e n.var var

/-- Attaching needs an entity, which gains the property. -/
theorem attach_eq_ok {entity : Option Entity} {p : Property} {step : Step} {token : String}
    {e' : Entity} (h : attach entity p step token = .ok e') :
    ∃ e, entity = some e ∧ e.Gains p e' := by
  cases entity with
  | none => cases h
  | some e =>
      refine ⟨e, rfl, ?_⟩
      rw [attach_some] at h
      cases e with
      | node n =>
          obtain rfl := Except.ok.inj h
          have hself : Entity.node (n.attach p) = (Entity.node n).attachToNode n.var p := by
            rw [Entity.attachToNode, if_pos (beq_self_eq_true _)]
          exact hself ▸ .node _ n.var
      | relationship r =>
          obtain rfl := Except.ok.inj h
          have hself : Entity.relationship (r.attach p)
              = (Entity.relationship r).attachToEdge r.var p := by
            rw [Entity.attachToEdge, if_pos (beq_self_eq_true _)]
          exact hself ▸ .edge _ r.var
      | property => exact gains_attachSelected h
      | triple => exact gains_attachSelected h
      | path => exact gains_attachSelected h

/-! ## Sound trails -/

/-- What every trail keeps. -/
structure Sound (trail : Trail) : Prop where
  entity : ∀ e, trail.entity = some e → e.BuiltBetween .start trail.numbering
  issued : ∀ b ∈ trail.bindings, trail.numbering.Issued b.var
  nodup : (trail.bindings.map Binding.var).Nodup
  capture : ∀ b ∈ trail.bindings, b.capture < trail.key.count .param

/-- Nothing was named before the first number. -/
theorem before_start (s : Numbering) : Numbering.start.Before s :=
  ⟨Nat.zero_le _, Nat.zero_le _, Nat.zero_le _⟩

/-- The trail that nothing was built on is sound. -/
theorem sound_start : Sound {} where
  entity _ h := nomatch h
  issued _ hb := absurd hb List.not_mem_nil
  nodup := List.nodup_nil
  capture _ hb := absurd hb List.not_mem_nil

/-- The property of a token takes a new variable. -/
theorem takes_propOf {s s' : Numbering} {token : String} {step : Step} {param : Option String}
    {p : Property} (h : propOf s token step param = (some p, s')) : s.Takes s' p.var := by
  unfold propOf at h
  cases hprop : step.prop with
  | some spec =>
      have hspec := spec.takes_build s (some (.string token))
      simp only [hprop, Prod.mk.injEq, Option.some.injEq] at h
      rwa [h.1, h.2] at hspec
  | none =>
      cases param with
      | none => simp [hprop] at h
      | some name =>
          have hname := s.takes_property name (some (.string token))
          simp only [hprop, Prod.mk.injEq, Option.some.injEq] at h
          rwa [h.1, h.2] at hname

/-- Without a property nothing is named. -/
theorem numbering_propOf {s s' : Numbering} {token : String} {step : Step}
    {param : Option String} (h : propOf s token step param = (none, s')) : s' = s := by
  unfold propOf at h
  cases hprop : step.prop with
  | some spec => simp [hprop] at h
  | none =>
      cases param with
      | none =>
          simp only [hprop, Prod.mk.injEq, true_and] at h
          exact h.symm
      | some name => simp [hprop] at h

/-- The numbering after the property of a token is a later one. -/
theorem before_propOf (s : Numbering) (token : String) (step : Step) (param : Option String) :
    s.Before (propOf s token step param).2 := by
  cases hp : propOf s token step param with
  | mk p s' =>
      cases p with
      | none => exact numbering_propOf hp ▸ .refl s
      | some p => exact (takes_propOf hp).before

/-- The entity with the property of a token. -/
theorem builtBetween_attachGiven {s : Numbering} {entity entity' : Option Entity}
    {token : String} {step : Step} {param : Option String}
    (hentity : ∀ e, entity = some e → e.BuiltBetween .start s)
    (h : attachGiven entity (propOf s token step param).1 step token = .ok entity') :
    ∀ e, entity' = some e → e.BuiltBetween .start (propOf s token step param).2 := by
  intro e' he'
  cases hp : propOf s token step param with
  | mk p s' =>
      rw [hp] at h
      cases p with
      | none =>
          obtain rfl := Except.ok.inj h
          exact numbering_propOf hp ▸ hentity e' he'
      | some p =>
          obtain ⟨e, hattach, rfl⟩ := map_eq_ok_iff.mp h
          obtain ⟨e₀, rfl, hgains⟩ := attach_eq_ok hattach
          obtain rfl := Option.some.inj he'
          exact hgains.builtBetween (hentity e₀ rfl) (takes_propOf hp)

/-- The entity that a step adds. -/
theorem builtBetween_introduce {s : Numbering} {token : String} {node : Option NodeSpec}
    {built : Option Entity × Numbering} (h : introduce s token node = .ok built) :
    s.Before built.2 ∧ ∀ e, built.1 = some e → e.BuiltBetween s built.2 := by
  cases node with
  | none =>
      obtain rfl := Except.ok.inj h
      exact ⟨.refl s, fun e he => nomatch he⟩
  | some spec =>
      obtain ⟨⟨e, s'⟩, hbuild, rfl⟩ := map_eq_ok_iff.mp h
      have hbetween := NodeSpec.builtBetween_build hbuild
      refine ⟨hbetween.before, fun e' he => ?_⟩
      obtain rfl := Option.some.inj he
      exact hbetween

/-- The entity after a step. -/
theorem builtBetween_connect {s s' : Numbering} {entity added : Option Entity} {step : Step}
    {token : String} {connected : Option Entity × Numbering}
    (hentity : ∀ e, entity = some e → e.BuiltBetween .start s) (hbefore : s.Before s')
    (hadded : ∀ e, added = some e → e.BuiltBetween s s')
    (h : connect s' entity added step token = .ok connected) :
    s'.Before connected.2 ∧ ∀ e, connected.1 = some e → e.BuiltBetween .start connected.2 := by
  rcases connect_eq_ok h with ⟨-, rfl⟩ | ⟨spec, incoming, new, e, s'', -, rfl, rfl, hlink, rfl⟩
  · refine ⟨.refl _, fun e he => ?_⟩
    rcases Option.or_eq_some_iff.mp he with he | ⟨-, he⟩
    · exact (hadded e he).mono (before_start _) (.refl _)
    · exact (hentity e he).mono (.refl _) hbefore
  · have hlinked := link_builtBetween (hentity incoming rfl) (hadded new rfl)
      (spec.takes_build s') (spec.props_build s') hlink
    have hlater : (spec.build s').2.Before s'' := (numbering_of_link hlink).1
    refine ⟨(spec.takes_build s').before.trans hlater, fun e' he => ?_⟩
    obtain rfl := Option.some.inj he
    exact hlinked

/-- The binding of a step is of the token's property and of the group of the token. -/
theorem mem_bindingOf {key : List KeySegment} {step : Step} {param : Option String}
    {p : Option Property} {b : Binding} (h : b ∈ bindingOf key step param p) :
    ∃ name q, param = some name ∧ p = some q ∧
      bindingOf key step param p = [⟨name, q.var, key.count .param⟩] := by
  unfold bindingOf at h ⊢
  cases param with
  | none => exact absurd h List.not_mem_nil
  | some name =>
      cases p with
      | none => exact absurd h List.not_mem_nil
      | some q =>
          refine ⟨name, q, rfl, rfl, ?_⟩
          simp only at h ⊢
          split_ifs at h ⊢
          · exact absurd h List.not_mem_nil
          · rfl

/-- What a step binds is the variable that the token's property takes. -/
theorem takes_of_mem_bindingOf {s : Numbering} {key : List KeySegment} {token : String}
    {step : Step} {param : Option String} {b : Binding}
    (h : b ∈ bindingOf key step param (propOf s token step param).1) :
    s.Takes (propOf s token step param).2 b.var ∧ b.capture = key.count .param ∧
      param.isSome := by
  obtain ⟨name, q, rfl, hq, hone⟩ := mem_bindingOf h
  rw [hone, List.mem_singleton] at h
  subst h
  exact ⟨takes_propOf (Prod.ext hq rfl), rfl, rfl⟩

/-- A step binds one property at most. -/
theorem nodup_bindingOf (key : List KeySegment) (step : Step) (param : Option String)
    (p : Option Property) : ((bindingOf key step param p).map Binding.var).Nodup := by
  cases hbs : bindingOf key step param p with
  | nil => exact List.nodup_nil
  | cons b bs =>
      have hb : b ∈ bindingOf key step param p := hbs ▸ List.mem_cons_self
      obtain ⟨name, q, -, -, hone⟩ := mem_bindingOf hb
      rw [← hbs, hone]
      exact List.nodup_singleton _

/-- A step keeps a trail sound. -/
theorem Sound.follow {trail trail' : Trail} (h : trail.Sound) {token : String} {step : Step}
    {param : Option String} (hfollow : trail.follow token step param = .ok trail') :
    trail'.Sound ∧ trail.numbering.Before trail'.numbering := by
  obtain ⟨entity, built, connected, hattach, hbuilt, hconnect, rfl⟩ :=
    follow_eq_ok_iff.mp hfollow
  have hprop := before_propOf trail.numbering token step param
  obtain ⟨hbefore, hadded⟩ := builtBetween_introduce hbuilt
  obtain ⟨hafter, hentity⟩ := builtBetween_connect (builtBetween_attachGiven h.entity hattach)
    hbefore hadded hconnect
  have hlater := hbefore.trans hafter
  refine ⟨⟨hentity, ?_, ?_, ?_⟩, hprop.trans hlater⟩
  · intro b hb
    rcases List.mem_append.mp hb with hb | hb
    · exact (h.issued b hb).mono (hprop.trans hlater)
    · exact (takes_of_mem_bindingOf hb).1.issued.mono hlater
  · rw [List.map_append, List.nodup_append]
    refine ⟨h.nodup, nodup_bindingOf trail.key step param _, ?_⟩
    -- the variable of a new binding was not issued before, and those of the others were
    intro v hv w hw hvw
    obtain ⟨b, hb, rfl⟩ := List.mem_map.mp hv
    obtain ⟨b', hb', rfl⟩ := List.mem_map.mp hw
    exact (takes_of_mem_bindingOf hb').1.isNew (hvw ▸ h.issued b hb)
  · intro b hb
    simp only [List.count_append]
    rcases List.mem_append.mp hb with hb | hb
    · exact (h.capture b hb).trans_le (Nat.le_add_right _ _)
    · obtain ⟨-, hcapture, hparam⟩ := takes_of_mem_bindingOf hb
      obtain ⟨name, rfl⟩ := Option.isSome_iff_exists.mp hparam
      rw [hcapture]
      exact Nat.lt_succ_self _

/-- A list of visits keeps a trail sound. -/
theorem Sound.followVisits {trail trail' : Trail} (h : trail.Sound) {visits : List Visit}
    (hfollow : trail.followVisits visits = .ok trail') : trail'.Sound := by
  induction visits generalizing trail with
  | nil => exact Except.ok.inj hfollow ▸ h
  | cons v rest ih =>
      obtain ⟨middle, hmiddle, hrest⟩ := bind_eq_ok_iff.mp hfollow
      exact ih (h.follow hmiddle).1 hrest

end Trail

end CypherRoutes
