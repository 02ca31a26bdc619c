/-
# What becomes of parameters

A compiled request has a binding for every parameter whose step fixes no value, in the order of the
route. The variable of a binding is that of the property that the parameter's token was given to.
The statement carries the token under this variable exactly if no step drops the property
(`RouteTable.bound_of_compile`). No step does if none starts anew, and none that follows has a
property of the same handle (`RouteTable.constrains_of_handles`).
-/
import CypherRoutes.Proofs.Route.CachedParams
import CypherRoutes.Proofs.Route.Dropping

namespace CypherRoutes

/-! ## Bindings -/

/-- The name of a binding, with the number of parameters before it. -/
def Binding.group (b : Binding) : String × Nat := (b.name, b.capture)

/-- The name of the parameter that a visit binds: it has a name, and its step fixes no value. -/
def Visit.bound? (v : Visit) : Option String :=
  if v.step.prop.any PropSpec.isFixed then none else v.param

/-- The parameters that visits bind behind the visits `before`, each with the number of parameters
before it. -/
def boundLevels (before : List Visit) : List Visit → List (String × Nat)
  | [] => []
  | v :: rest =>
    (v.bound?.map fun name => (name, (paramTokens before).length)).toList ++
      boundLevels (before ++ [v]) rest

namespace Trail

/-- A visit that binds a parameter gives its token to the property. -/
theorem propOf_of_bound (s : Numbering) {v : Visit} {name : String} (h : v.bound? = some name) :
    ∃ p, (propOf s v.token v.step v.param).1 = some p ∧ p.given = some (.string v.token) ∧
      ∀ key, bindingOf key v.step v.param (some p) = [⟨name, p.var, key.count .param⟩] := by
  unfold Visit.bound? at h
  split_ifs at h with hfixed
  unfold propOf bindingOf
  cases hprop : v.step.prop with
  | none =>
      simp only [h]
      exact ⟨_, rfl, rfl, fun key => rfl⟩
  | some spec =>
      cases spec with
      | ofToken handle =>
          simp only [h]
          exact ⟨_, rfl, rfl, fun key => rfl⟩
      | fixed handle value => simp [hprop, PropSpec.isFixed] at hfixed

/-- A visit that binds no parameter has no binding. -/
theorem bindingOf_of_not_bound {key : List KeySegment} {v : Visit} (h : v.bound? = none)
    (p : Option Property) : bindingOf key v.step v.param p = [] := by
  unfold Visit.bound? at h
  unfold bindingOf
  cases hparam : v.param with
  | none => rfl
  | some name =>
      cases p with
      | none => rfl
      | some p =>
          split_ifs at h with hfixed
          · simp [hfixed]
          · rw [hparam] at h
            cases h

section Run

variable {trail trail' : Trail} {before : List Visit}

/-- A step adds its own binding. -/
theorem bindings_followVisit {v : Visit} (hfollow : trail.followVisit v = .ok trail') :
    trail'.bindings = trail.bindings ++ bindingOf trail.key v.step v.param
      (propOf trail.numbering v.token v.step v.param).1 := by
  obtain ⟨entity, built, connected, -, -, -, rfl⟩ := follow_eq_ok_iff.mp hfollow
  rfl

/-- It is of the parameter that the visit binds. -/
theorem groups_followVisit {v : Visit} (hfollow : trail.followVisit v = .ok trail')
    (hkey : trail.key = before.map Visit.segment) :
    trail'.bindings.map Binding.group = trail.bindings.map Binding.group ++
      (v.bound?.map fun name => (name, (paramTokens before).length)).toList := by
  rw [bindings_followVisit hfollow, List.map_append]
  refine congrArg (trail.bindings.map Binding.group ++ ·) ?_
  cases hbound : v.bound? with
  | none =>
      rw [bindingOf_of_not_bound hbound]
      rfl
  | some name =>
      obtain ⟨p, hp, -, hbinding⟩ := propOf_of_bound trail.numbering hbound
      rw [hp, hbinding, hkey, ← length_paramTokens]
      rfl

/-- A list of visits adds the bindings of its parameters. -/
theorem groups_followVisits {visits : List Visit} (hfollow : trail.followVisits visits = .ok trail')
    (hkey : trail.key = before.map Visit.segment) :
    trail'.bindings.map Binding.group =
      trail.bindings.map Binding.group ++ boundLevels before visits := by
  induction visits generalizing trail before with
  | nil =>
      obtain rfl := Except.ok.inj hfollow
      exact (List.append_nil _).symm
  | cons v rest ih =>
      obtain ⟨middle, hmiddle, hrest⟩ := bind_eq_ok_iff.mp hfollow
      have hkey' : middle.key = (before ++ [v]).map Visit.segment := by
        obtain ⟨entity, built, connected, -, -, -, rfl⟩ := follow_eq_ok_iff.mp hmiddle
        rw [List.map_append, ← hkey]
        rfl
      rw [ih hrest hkey', groups_followVisit hmiddle hkey, List.append_assoc]
      rfl

/-- No binding is lost. -/
theorem mem_bindings_followVisits {visits : List Visit}
    (hfollow : trail.followVisits visits = .ok trail') {b : Binding} (hb : b ∈ trail.bindings) :
    b ∈ trail'.bindings := by
  induction visits generalizing trail with
  | nil => exact Except.ok.inj hfollow ▸ hb
  | cons v rest ih =>
      obtain ⟨middle, hmiddle, hrest⟩ := bind_eq_ok_iff.mp hfollow
      exact ih hrest (bindings_followVisit hmiddle ▸ List.mem_append_left _ hb)

end Run

end Trail

/-! ## Compiled requests -/

/-- A statement carries a token under a variable: as a parameter, and in its pattern. -/
structure Statement.Constrains (s : Statement) (var token : String) : Prop where
  param : s.params.get? var = some (.string token)
  slot : ∃ entity returned, s.clauses = [.matching [.entity entity], .returning returned] ∧
    (var, .string token) ∈ (Clause.matching [.entity entity]).phrase.slots

/-- On the route of `before`, `v` and `after`, the property that `v` attaches under a variable is
dropped: `v` starts anew, or a later visit drops it. -/
def Visit.IsDropped (before : List Visit) (v : Visit) (after : List Visit) (var : String) : Prop :=
  v.StartsAnew ∨
    ∃ trail, Trail.followVisits {} (before ++ [v]) = .ok trail ∧ trail.Loses var after

/-- There is one trail behind `v`. -/
theorem Visit.isDropped_iff {before after : List Visit} {v : Visit} {trail : Trail}
    (h : Trail.followVisits {} (before ++ [v]) = .ok trail) {var : String} :
    v.IsDropped before after var ↔ v.StartsAnew ∨ trail.Loses var after := by
  refine or_congr_right ⟨?_, fun hloses => ⟨trail, h, hloses⟩⟩
  rintro ⟨other, hother, hloses⟩
  exact Except.ok.inj (h.symm.trans hother) ▸ hloses

namespace Trail

/-- What a finished trail says of a property with a token. -/
theorem Formed.constrains_of_finish {trail : Trail} (h : trail.Formed) {step : Step}
    {token : String} {options : StatementOptions} {c : Compiled}
    (hfinish : trail.finish step token options = .ok c) {p : Property} (hcopies : trail.Copies p)
    {value : String} (hgiven : p.given = some (.string value)) :
    (¬ trail.Carries p.var → p.var ∉ c.statement.params.names) ∧
      (trail.Carries p.var → c.statement.Constrains p.var value) := by
  have hfaithful := h.sound.faithful hfinish
  obtain ⟨ret, entity, terms, func, pathId, -, hentity, hresolve, rfl⟩ :=
    finish_eq_ok_iff.mp hfinish
  constructor
  · intro hnot hvar
    obtain ⟨other, hother⟩ :=
      (mem_names_statementOf_iff (ReturnSpec.returns_resolve hresolve) func options).mp hvar
    obtain ⟨q, hq, hqother⟩ := Entity.mem_params_iff.mp hother
    exact hnot ⟨entity, hentity, q, hq, (Property.mem_params_iff.mp hqother).1⟩
  · rintro ⟨e, he, q, hq, hqvar⟩
    obtain rfl := Option.some.inj (hentity.symm.trans he)
    obtain ⟨owner, rfl⟩ := hcopies entity hentity q hq hqvar
    have hvalue : (p.ownedBy owner).value? = some (.string value) := by
      rw [Property.value?, Property.ownedBy, hgiven]
      rfl
    have hmem : (p.var, .string value) ∈ entity.params :=
      Entity.mem_params_iff.mpr ⟨_, hq, Property.mem_params_iff.mpr ⟨rfl, hvalue⟩⟩
    have hslot := (Entity.mem_slots_patterns_iff (h.sound.entity entity hentity).coherent).mpr hmem
    refine ⟨hfaithful.get?_eq p.var _ ?_, entity, _, rfl, ?_⟩
    · rw [slots_statementOf]
      exact List.mem_append_left _ hslot
    · rw [slots_matching]
      exact hslot

/-- The property and the binding of a visit in the middle of a run. -/
theorem bound_of_followVisits {before after : List Visit} {v : Visit} {trail : Trail}
    (hfollow : Trail.followVisits {} (before ++ v :: after) = .ok trail) {name : String}
    (hname : v.bound? = some name) :
    ∃ p : Property, p.given = some (.string v.token) ∧
      ⟨name, p.var, (paramTokens before).length⟩ ∈ trail.bindings ∧ trail.Copies p ∧
      (trail.Carries p.var ↔ ¬ v.IsDropped before after p.var) ∧
      (v.IsDropped before after p.var →
        v.StartsAnew ∨ ∃ w ∈ after, w.StartsAnew ∨ w.handle? = v.handle?) := by
  obtain ⟨first, hfirst, hrest⟩ := followVisits_append_eq_ok_iff.mp hfollow
  obtain ⟨second, hsecond, hafter⟩ := bind_eq_ok_iff.mp hrest
  have hformed := formed_start.followVisits hfirst
  have hformed' := hformed.followVisit hsecond
  have htrail : Trail.followVisits {} (before ++ [v]) = .ok second :=
    followVisits_append_eq_ok_iff.mpr ⟨first, hfirst, bind_eq_ok_iff.mpr ⟨second, hsecond, rfl⟩⟩
  obtain ⟨p, hp, hgiven, hbinding⟩ := propOf_of_bound first.numbering hname
  -- the binding that the visit adds
  have hb : (⟨name, p.var, (paramTokens before).length⟩ : Binding) ∈ second.bindings := by
    have hkey : first.key = before.map Visit.segment := key_followVisits hfirst
    rw [bindings_followVisit hsecond, hp, hbinding, hkey, ← length_paramTokens]
    exact List.mem_append_right _ (List.mem_singleton_self _)
  have hissued : second.numbering.Issued p.var := hformed'.sound.issued _ hb
  have hcopies := hformed.copies_own hsecond hp
  have hdropped : v.IsDropped before after p.var ↔ v.StartsAnew ∨ second.Loses p.var after :=
    Visit.isDropped_iff htrail
  refine ⟨p, hgiven, mem_bindings_followVisits hafter hb,
    hformed'.copies_followVisits hafter hissued hcopies, ?_, fun hdrop => ?_⟩
  · rw [hformed'.carries_followVisits_iff hafter hissued, hformed.carries_own_iff hsecond hp,
      hdropped, not_or]
  · by_cases hanew : v.StartsAnew
    · exact .inl hanew
    · have hhandle : v.handle? = some p.handle := by
        rw [← handle_propOf first.numbering v, hp]
        rfl
      rw [hhandle]
      exact .inr (hformed'.cause_of_loses hissued hcopies
        ((hformed.carries_own_iff hsecond hp).mpr hanew) ((hdropped.mp hdrop).resolve_left hanew))

end Trail

namespace RouteTable

variable {table : RouteTable} {options : StatementOptions} {tokens : List String} {c : Compiled}

/-- The binding of a visit of a compiled request. -/
theorem binding_of_visit (h : table.compile options tokens = .ok c) {before after : List Visit}
    {v : Visit} (hvisit : table.root.visit tokens = some (before ++ v :: after)) {name : String}
    (hname : v.bound? = some name) :
    ∃ b ∈ c.bindings, b.group = (name, (paramTokens before).length) ∧
      (v.IsDropped before after b.var → b.var ∉ c.statement.params.names) ∧
      (¬ v.IsDropped before after b.var → c.statement.Constrains b.var v.token) ∧
      (v.IsDropped before after b.var →
        v.StartsAnew ∨ ∃ w ∈ after, w.StartsAnew ∨ w.handle? = v.handle?) := by
  obtain ⟨visits, last, trail, hvisit', hfollow, hfinish⟩ := compile_eq_ok_iff.mp h
  rw [Option.some.inj (hvisit'.symm.trans hvisit)] at hfollow
  obtain ⟨p, hgiven, hb, hcopies, hcarries, hcause⟩ := Trail.bound_of_followVisits hfollow hname
  obtain ⟨hdropped, hkept⟩ :=
    (Trail.formed_start.followVisits hfollow).constrains_of_finish hfinish hcopies hgiven
  rw [hcarries] at hdropped hkept
  refine ⟨⟨name, p.var, (paramTokens before).length⟩, ?_, rfl,
    fun hdrop => hdropped (not_not_intro hdrop), hkept, hcause⟩
  obtain ⟨ret, entity, terms, func, pathId, -, -, -, rfl⟩ := Trail.finish_eq_ok_iff.mp hfinish
  exact hb

/-- If neither the step of a parameter nor a later one starts anew, and no later one has a property
of the same handle, the statement carries the parameter's token. -/
theorem constrains_of_handles (h : table.compile options tokens = .ok c)
    {before after : List Visit} {v : Visit}
    (hvisit : table.root.visit tokens = some (before ++ v :: after)) {name : String}
    (hname : v.bound? = some name) (hown : ¬ v.StartsAnew)
    (hafter : ∀ w ∈ after, ¬ w.StartsAnew ∧ w.handle? ≠ v.handle?) :
    ∃ b ∈ c.bindings, b.group = (name, (paramTokens before).length) ∧
      c.statement.Constrains b.var v.token := by
  obtain ⟨b, hb, hgroup, -, hkept, hcause⟩ := binding_of_visit h hvisit hname
  refine ⟨b, hb, hgroup, hkept fun hdrop => ?_⟩
  rcases hcause hdrop with hanew | ⟨w, hw, hanew | hhandle⟩
  · exact hown hanew
  · exact (hafter w hw).1 hanew
  · exact (hafter w hw).2 hhandle

/-- A compiled request has one binding for each parameter whose step fixes no value, in the order of
the route, with the number of parameters before it, and the bindings have different variables. If no
step drops the property of the binding, the statement carries the token under its variable. If one
does, the statement has no parameter of that name. -/
theorem bound_of_compile (h : table.compile options tokens = .ok c) :
    ∃ visits, table.root.visit tokens = some visits ∧
      c.bindings.map Binding.group = boundLevels [] visits ∧
      (c.bindings.map Binding.var).Nodup ∧
      ∀ before v after name, visits = before ++ v :: after → v.bound? = some name →
        ∃ b ∈ c.bindings, b.group = (name, (paramTokens before).length) ∧
          (v.IsDropped before after b.var → b.var ∉ c.statement.params.names) ∧
          (¬ v.IsDropped before after b.var → c.statement.Constrains b.var v.token) := by
  obtain ⟨visits, hvisit, hof⟩ := compiled_of h
  refine ⟨visits, hvisit, ?_, hof.nodup, ?_⟩
  · obtain ⟨visits', last, trail, hvisit', hfollow, hfinish⟩ := compile_eq_ok_iff.mp h
    obtain rfl := Option.some.inj (hvisit'.symm.trans hvisit)
    obtain ⟨ret, entity, terms, func, pathId, -, -, -, rfl⟩ := Trail.finish_eq_ok_iff.mp hfinish
    exact Trail.groups_followVisits hfollow rfl
  · rintro before v after name rfl hname
    obtain ⟨b, hb, hgroup, hdropped, hkept, -⟩ := binding_of_visit h hvisit hname
    exact ⟨b, hb, hgroup, hdropped, hkept⟩

/-- Where two parameters set one property, the statement has the second one's token only. The
request has a binding for the first one still, and its variable is none of the parameters. -/
theorem dropped_twiceSet :
    ∃ c, Compiler.twiceSet.compile {} ["model", "x", "y"] = .ok c ∧
      c.statement.text = "MATCH (n0:model \x7bhandle:$p1\x7d) RETURN n0" ∧
      c.bindings = [⟨"a", "p0", 0⟩, ⟨"b", "p1", 1⟩] ∧
      ¬ ∀ b ∈ c.bindings, b.var ∈ c.statement.params.names := by
  obtain ⟨c, hc, hseen⟩ := exists_ok_of_observed
    (f := fun c : Compiled => (c.statement.text, c.bindings, c.statement.params.names))
    (b := ("MATCH (n0:model \x7bhandle:$p1\x7d) RETURN n0",
      [⟨"a", "p0", 0⟩, ⟨"b", "p1", 1⟩], ["p1"]))
    (x := Compiler.twiceSet.compile {} ["model", "x", "y"]) (by decide +kernel)
  obtain ⟨htext, hbindings, hnames⟩ := Prod.mk.inj hseen |>.imp_right Prod.mk.inj
  refine ⟨c, hc, htext, hbindings, fun hall => ?_⟩
  have hmem := hall ⟨"a", "p0", 0⟩ (hbindings ▸ List.mem_cons_self)
  rw [hnames] at hmem
  exact absurd hmem (by decide)

/-- Of the two parameters of that request the first is dropped, and the second constrains the
pattern. -/
theorem bound_of_compile_twiceSet :
    ∃ c visits, Compiler.twiceSet.compile {} ["model", "x", "y"] = .ok c ∧
      Compiler.twiceSet.root.visit ["model", "x", "y"] = some visits ∧
      c.bindings.map Binding.group = boundLevels [] visits ∧
      (∃ before v after, visits = before ++ v :: after ∧ v.token = "x" ∧
        v.IsDropped before after "p0") ∧
      c.statement.Constrains "p1" "y" := by
  obtain ⟨c, hc, hseen⟩ := exists_ok_of_observed
    (f := fun c : Compiled => (c.bindings, c.statement.params.names))
    (b := ([⟨"a", "p0", 0⟩, ⟨"b", "p1", 1⟩], ["p1"]))
    (x := Compiler.twiceSet.compile {} ["model", "x", "y"]) (by decide +kernel)
  obtain ⟨hbindings, hnames⟩ := Prod.mk.inj hseen
  have hpair : ∀ b ∈ c.bindings, b = ⟨"a", "p0", 0⟩ ∨ b = ⟨"b", "p1", 1⟩ := fun b hb =>
    List.mem_pair.mp (hbindings ▸ hb)
  obtain ⟨visits, hvisit, hgroups, -, hbound⟩ := bound_of_compile hc
  obtain ⟨model, first, second, rfl, hfirst, hsecond, hends⟩ :
      ∃ model first second : Visit, visits = [model, first, second] ∧
        (first.token = "x" ∧ first.bound? = some "a") ∧
        (second.token = "y" ∧ second.bound? = some "b") ∧ ¬ second.StartsAnew :=
    ⟨_, _, _, (Option.some.inj hvisit).symm, ⟨rfl, rfl⟩, ⟨rfl, rfl⟩, fun hanew => nomatch hanew.1⟩
  refine ⟨c, _, hc, hvisit, hgroups, ⟨[model], first, [second], rfl, hfirst.1, ?_⟩, ?_⟩
  · obtain ⟨b, hb, hgroup, -, hkept⟩ := hbound [model] first [second] "a" rfl hfirst.2
    obtain rfl := (hpair b hb).resolve_right fun hb => by
      rw [hb] at hgroup
      exact absurd (congrArg Prod.fst hgroup) (show "b" ≠ "a" by decide)
    -- it is dropped, for the statement has no parameter of its name
    by_contra hnot
    have hname := (Params.mem_names_iff _ _).mpr (Option.isSome_of_eq_some (hkept hnot).param)
    exact absurd (hnames ▸ hname) (by decide)
  · obtain ⟨b, hb, hgroup, -, hkept⟩ := hbound [model, first] second [] "b" rfl hsecond.2
    obtain rfl := (hpair b hb).resolve_left fun hb => by
      rw [hb] at hgroup
      exact absurd (congrArg Prod.fst hgroup) (show "a" ≠ "b" by decide)
    rw [← hsecond.1]
    exact hkept fun hdropped => hdropped.elim hends fun ⟨_, _, hloses⟩ => nomatch hloses

end RouteTable

end CypherRoutes
