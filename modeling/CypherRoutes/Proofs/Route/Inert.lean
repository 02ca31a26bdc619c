/-
# Inert tables

The texts that a route table puts into statements: labels, types, handles, names of parameters and
names of returned items. If they are inert, so is everything that a request builds on the way down
and everything that it returns, whatever its tokens are, since these are values. So the statement
of a request is legible (`RouteTable.legible_of_compile`).
-/
import CypherRoutes.Proofs.Cypher.Parameters
import CypherRoutes.Proofs.Route.Finish
import CypherRoutes.Proofs.Route.Trail

namespace CypherRoutes

/-! ## The texts of a table -/

/-- The labels, types and handles of what a step builds. -/
def NodeSpec.texts : NodeSpec → List String
  | label name => [name]
  | unlabelled => []
  | block name prop => name :: (prop.map PropSpec.handle).toList
  | linked name prop edge target =>
    name :: ((prop.map PropSpec.handle).toList ++ edge.kind :: target.texts)

/-- The names under which a return block returns items. -/
def ReturnSpec.texts : ReturnSpec → List String
  | items => []
  | named _ => []
  | select nodes edges own _ =>
    (nodes ++ edges).filterMap ItemSelector.asName ++ (own.bind FuncSpec.asName).toList

/-- The texts of the directives of a step. -/
def Directives.texts (d : Directives) : List String :=
  d.node.toList.flatMap NodeSpec.texts ++ (d.edge.map EdgeSpec.kind).toList ++
    (d.prop.map PropSpec.handle).toList ++ d.ret.toList.flatMap ReturnSpec.texts ++
    (d.func.bind FuncSpec.asName).toList

namespace Level

mutual

/-- The texts of all steps from a level on, and the names of the parameters. -/
def texts (level : Level) : List String :=
  match level with
  | ⟨literals, none⟩ => textsOf literals
  | ⟨literals, some (name, ⟨directives, next⟩)⟩ =>
    textsOf literals ++ name :: (directives.texts ++ texts next)
termination_by structural level

/-- The texts behind a list of literal segments. -/
def textsOf (literals : List (String × Step)) : List String :=
  match literals with
  | [] => []
  | (_, ⟨directives, next⟩) :: rest => directives.texts ++ texts next ++ textsOf rest
termination_by structural literals

end

end Level

/-- The texts that a table puts into statements. -/
def RouteTable.texts (table : RouteTable) : List String := table.root.texts

/-- Directives with inert texts, each by itself. -/
structure Directives.Inert (d : Directives) : Prop where
  node : ∀ spec, d.node = some spec → ∀ text ∈ spec.texts, IsInert text
  edge : ∀ spec, d.edge = some spec → IsInert spec.kind
  prop : ∀ spec, d.prop = some spec → IsInert spec.handle
  ret : ∀ spec, d.ret = some spec → ∀ text ∈ spec.texts, IsInert text
  func : ∀ name ∈ d.func.bind FuncSpec.asName, IsInert name

theorem Directives.inert_of_texts {d : Directives} (h : ∀ text ∈ d.texts, IsInert text) :
    d.Inert := by
  simp only [texts, List.forall_mem_append, List.mem_flatMap, Option.mem_toList,
    Option.map_eq_some_iff, forall_exists_index, and_imp] at h
  obtain ⟨⟨⟨⟨hnode, hedge⟩, hprop⟩, hret⟩, hfunc⟩ := h
  exact ⟨fun spec hspec text ht => hnode text spec hspec ht,
    fun spec hspec => hedge _ spec hspec rfl, fun spec hspec => hprop _ spec hspec rfl,
    fun spec hspec text ht => hret text spec hspec ht, hfunc⟩

/-- A visit of a step with inert directives, and of a parameter with an inert name. -/
structure Visit.Inert (v : Visit) : Prop where
  step : v.step.toDirectives.Inert
  param : ∀ name ∈ v.param, IsInert name

namespace Level

theorem mem_textsOf {literals : List (String × Step)} {segment : String} {step : Step}
    (h : (segment, step) ∈ literals) :
    ∀ text ∈ step.toDirectives.texts ++ step.next.texts, text ∈ textsOf literals := by
  induction literals with
  | nil => exact absurd h List.not_mem_nil
  | cons entry rest ih =>
      obtain ⟨segment', ⟨directives, next⟩⟩ := entry
      intro text htext
      rw [textsOf, List.mem_append]
      rcases List.mem_cons.mp h with heq | h
      · obtain ⟨-, rfl⟩ := Prod.mk.inj heq
        exact .inl htext
      · exact .inr (ih h text htext)

/-- The texts of the step that a token resolves to, and of what follows it, are texts of the
level. -/
theorem mem_texts_of_resolve {level : Level} {token : String} {step : Step}
    {param : Option String} (h : level.resolve token = some (step, param)) :
    ∀ text ∈ param.toList ++ (step.toDirectives.texts ++ step.next.texts), text ∈ level.texts := by
  obtain ⟨literals, entry⟩ := level
  have hliterals : ∀ text ∈ textsOf literals, text ∈ texts ⟨literals, entry⟩ := by
    intro text htext
    cases entry with
    | none => exact htext
    | some found =>
        obtain ⟨name, directives, next⟩ := found
        exact List.mem_append_left _ htext
  rw [resolve] at h
  cases hlookup : literals.lookup token with
  | some found =>
      simp only [hlookup, Option.some.injEq, Prod.mk.injEq] at h
      obtain ⟨rfl, rfl⟩ := h
      have hmem : (token, found) ∈ literals := by
        obtain ⟨before, after, rfl, -⟩ := List.lookup_eq_some_iff.mp hlookup
        exact List.mem_append_right _ List.mem_cons_self
      exact fun text htext => hliterals text (mem_textsOf hmem text htext)
  | none =>
      simp only [hlookup] at h
      obtain ⟨⟨name, directives, next⟩, rfl, heq⟩ := Option.map_eq_some_iff.mp h
      obtain ⟨rfl, rfl⟩ := Prod.mk.inj heq
      intro text htext
      exact List.mem_append_right _ htext

/-- In an inert table all visits are inert. -/
theorem inert_of_visit {level : Level} (hlevel : ∀ text ∈ level.texts, IsInert text)
    {tokens : List String} {visits : List Visit} (h : level.visit tokens = some visits) :
    ∀ v ∈ visits, v.Inert := by
  induction tokens generalizing level visits with
  | nil =>
      obtain rfl := Option.some.inj h
      exact fun v hv => absurd hv List.not_mem_nil
  | cons token rest ih =>
      obtain ⟨step, param, following, hresolve, hrest, rfl⟩ := visit_cons_eq_some_iff.mp h
      have htexts : ∀ text ∈ param.toList ++ (step.toDirectives.texts ++ step.next.texts),
          IsInert text := fun text ht => hlevel text (mem_texts_of_resolve hresolve text ht)
      rw [List.forall_mem_append, List.forall_mem_append] at htexts
      have hparam : ∀ name ∈ param, IsInert name := fun name hname =>
        htexts.1 name (Option.mem_toList.mpr hname)
      have hvisit : Visit.Inert ⟨token, step, param⟩ :=
        ⟨Directives.inert_of_texts htexts.2.1, hparam⟩
      exact List.forall_mem_cons.mpr ⟨hvisit, ih htexts.2.2 hrest⟩

end Level

/-! ## Building -/

/-- A property that a numbering names. -/
theorem Numbering.inert_property (s : Numbering) {handle : String} (h : IsInert handle)
    (given : Option Value) : (s.property handle given).1.Inert where
  var := isName_varName (by decide) s.properties
  texts := by
    intro text ht
    exact List.mem_singleton.mp ht ▸ h

/-- A node that a numbering names. -/
theorem Numbering.inert_node (s : Numbering) {label : Option String}
    (h : ∀ text ∈ label.toList, IsInert text) : (s.node label).1.Inert where
  var := isName_varName (by decide) s.nodes
  texts := by
    intro text ht
    rw [node, Node.texts] at ht
    simp only [Option.toList_none, List.append_nil] at ht
    exact h text ht
  props _ hp := absurd hp List.not_mem_nil

/-- The property of a step. -/
theorem PropSpec.inert_build (s : Numbering) (given : Option Value) {spec : PropSpec}
    (h : IsInert spec.handle) : (spec.build s given).1.Inert := by
  cases spec with
  | ofToken handle => exact s.inert_property h given
  | fixed handle value => exact s.inert_property h (some value)

/-- The relationship of a step. -/
theorem EdgeSpec.inert_build (s : Numbering) {spec : EdgeSpec} (h : IsInert spec.kind) :
    (spec.build s).1.Inert where
  var := Numbering.isName_varName (by decide) s.relationships
  texts := by
    intro text ht
    exact List.mem_singleton.mp ht ▸ h
  props _ hp := absurd hp List.not_mem_nil

/-- A property stays inert with an owner whose variable is a name. -/
theorem Property.Inert.ownedBy {p : Property} (h : p.Inert) {owner : String}
    (howner : IsName owner) : (p.ownedBy owner).Inert where
  var := h.var
  texts := by
    intro text ht
    rw [Property.texts, List.mem_cons, List.mem_append] at ht
    rcases ht with rfl | ht | ht
    · exact h.handle
    · exact h.texts text (List.mem_cons_of_mem _ (List.mem_append_left _ ht))
    · exact List.mem_singleton.mp ht ▸ howner.isInert

theorem Node.Inert.attach {n : Node} (h : n.Inert) {p : Property} (hp : p.Inert) :
    (n.attach p).Inert where
  var := h.var
  texts := h.texts
  props q hq := by
    rcases Property.mem_attach hq with hq | rfl
    · exact h.props q hq
    · exact hp.ownedBy h.var

theorem Relationship.Inert.attach {r : Relationship} (h : r.Inert) {p : Property} (hp : p.Inert) :
    (r.attach p).Inert where
  var := h.var
  texts := h.texts
  props q hq := by
    rcases Property.mem_attach hq with hq | rfl
    · exact h.props q hq
    · exact hp.ownedBy h.var

/-- An inert entity stays so when it gains an inert property. -/
theorem Entity.Gains.inert {e e' : Entity} {p : Property} (h : Gains p e e') (he : e.Inert)
    (hp : p.Inert) : e'.Inert := by
  have hnode : ∀ n : Node, n.Inert → (n.attach p).Inert := fun _ hn => hn.attach hp
  have hedge : ∀ r : Relationship, r.Inert → (r.attach p).Inert := fun _ hr => hr.attach hp
  cases h with
  | node var => exact he.attachToNode var hnode
  | edge var => exact he.attachToEdge var hedge
  | both var var' => exact All.attachToEdge (he.attachToNode var hnode) var' hedge

namespace NodeSpec

/-- The node of a block. -/
theorem inert_buildNode (s : Numbering) {name : String} (hname : IsInert name)
    {prop : Option PropSpec} (hprop : ∀ text ∈ (prop.map PropSpec.handle).toList, IsInert text) :
    (buildNode s name prop).1.Inert := by
  have hnode : (s.node (some name)).1.Inert :=
    s.inert_node fun text ht => List.mem_singleton.mp ht ▸ hname
  cases prop with
  | none => exact hnode
  | some spec =>
      have hhandle : IsInert spec.handle := hprop _ (List.mem_singleton_self _)
      exact hnode.attach (PropSpec.inert_build _ none hhandle)

/-- What a step builds. -/
theorem inert_build {spec : NodeSpec} (hspec : ∀ text ∈ spec.texts, IsInert text)
    {s s' : Numbering} {token : String} {e : Entity} (h : spec.build s token = .ok (e, s')) :
    e.Inert := by
  induction spec generalizing s s' e with
  | label name =>
      obtain ⟨rfl, rfl⟩ := Prod.mk.inj (Except.ok.inj h)
      exact Entity.all_node (s.inert_node hspec)
  | unlabelled =>
      obtain ⟨rfl, rfl⟩ := Prod.mk.inj (Except.ok.inj h)
      exact Entity.all_node (s.inert_node hspec)
  | block name prop =>
      obtain ⟨rfl, rfl⟩ := Prod.mk.inj (Except.ok.inj h)
      obtain ⟨hname, hprop⟩ := List.forall_mem_cons.mp hspec
      exact Entity.all_node (inert_buildNode s hname hprop)
  | linked name prop edge target ih =>
      rw [texts, List.forall_mem_cons, List.forall_mem_append, List.forall_mem_cons] at hspec
      obtain ⟨hname, hprop, hedge, htarget⟩ := hspec
      rw [build] at h
      obtain ⟨⟨m, s₂⟩, hbuild, h⟩ := bind_eq_ok_iff.mp h
      have hnode : (Entity.node (buildNode s name prop).1).Inert :=
        Entity.all_node (inert_buildNode s hname hprop)
      exact .of_madeOf (madeOf_of_link h) hnode (ih htarget hbuild) (edge.inert_build s₂ hedge)

end NodeSpec

/-! ## Following -/

namespace Trail

/-- The property of a token has its handle from the table, also where the parameter names it. -/
theorem inert_propOf {s : Numbering} {v : Visit} (h : v.Inert) {p : Property}
    (hp : (propOf s v.token v.step v.param).1 = some p) : p.Inert := by
  unfold propOf at hp
  cases hprop : v.step.prop with
  | some spec =>
      simp only [hprop] at hp
      obtain rfl := Option.some.inj hp
      exact PropSpec.inert_build s _ (h.step.prop spec hprop)
  | none =>
      cases hparam : v.param with
      | none => simp [hprop, hparam] at hp
      | some name =>
          simp only [hprop, hparam] at hp
          obtain rfl := Option.some.inj hp
          exact s.inert_property (h.param name (by rw [hparam]; rfl)) _

/-- An inert visit keeps the entity of a trail inert. -/
theorem inert_followVisit {trail trail' : Trail} (h : ∀ e, trail.entity = some e → e.Inert)
    {v : Visit} (hv : v.Inert) (hfollow : trail.followVisit v = .ok trail') :
    ∀ e, trail'.entity = some e → e.Inert := by
  obtain ⟨entity, built, connected, hattach, hbuilt, hconnect, rfl⟩ :=
    follow_eq_ok_iff.mp hfollow
  have hentity : ∀ e, entity = some e → e.Inert := by
    intro e he
    cases hp : (propOf trail.numbering v.token v.step v.param).1 with
    | none =>
        rw [hp] at hattach
        obtain rfl := Except.ok.inj hattach
        exact h e he
    | some p =>
        rw [hp] at hattach
        obtain ⟨gained, hgained, rfl⟩ := map_eq_ok_iff.mp hattach
        obtain ⟨before, hbefore, hgains⟩ := attach_eq_ok hgained
        obtain rfl := Option.some.inj he
        exact hgains.inert (h before hbefore) (inert_propOf hv hp)
  have hadded : ∀ e, built.1 = some e → e.Inert := by
    intro e he
    cases hnode : v.step.node with
    | none =>
        rw [hnode] at hbuilt
        obtain rfl := Except.ok.inj hbuilt
        cases he
    | some spec =>
        rw [hnode] at hbuilt
        obtain ⟨⟨new, s⟩, hbuild, rfl⟩ := map_eq_ok_iff.mp hbuilt
        obtain rfl := Option.some.inj he
        exact NodeSpec.inert_build (hv.step.node spec hnode) hbuild
  intro e he
  rcases connect_eq_ok hconnect with ⟨-, rfl⟩ | ⟨spec, incoming, new, e', s, hedge, rfl, hnew,
    hlink, rfl⟩
  · rcases Option.or_eq_some_iff.mp he with he | ⟨-, he⟩
    · exact hadded e he
    · exact hentity e he
  · obtain rfl := Option.some.inj he
    exact .of_madeOf (madeOf_of_link hlink) (hentity incoming rfl) (hadded new hnew)
      (spec.inert_build built.2 (hv.step.edge spec hedge))

/-- So do any number of inert visits. -/
theorem inert_followVisits {trail trail' : Trail} (h : ∀ e, trail.entity = some e → e.Inert)
    {visits : List Visit} (hvisits : ∀ v ∈ visits, v.Inert)
    (hfollow : trail.followVisits visits = .ok trail') :
    ∀ e, trail'.entity = some e → e.Inert := by
  induction visits generalizing trail with
  | nil =>
      obtain rfl := Except.ok.inj hfollow
      exact h
  | cons v rest ih =>
      obtain ⟨hv, hrest⟩ := List.forall_mem_cons.mp hvisits
      obtain ⟨middle, hmiddle, hmore⟩ := bind_eq_ok_iff.mp hfollow
      exact ih (inert_followVisit h hv hmiddle) hrest hmore

end Trail

/-! ## Returning -/

/-- The entities and the texts of a term are inert. -/
structure Term.Inert (t : Term) : Prop where
  entities : ∀ e ∈ t.entities, e.Inert
  texts : ∀ text ∈ t.bareTexts, IsInert text

namespace Term

theorem inert_entity {e : Entity} (h : e.Inert) : (entity e).Inert where
  entities _ he := List.mem_singleton.mp he ▸ h
  texts _ ht := absurd ht List.not_mem_nil

/-- The parts of inert terms. -/
theorem inert_all {ts : List Term} (h : ∀ t ∈ ts, t.Inert) :
    (∀ e ∈ allEntities ts, e.Inert) ∧ ∀ text ∈ allBareTexts ts, IsInert text := by
  induction ts with
  | nil =>
      exact ⟨fun e he => absurd he List.not_mem_nil, fun text ht => absurd ht List.not_mem_nil⟩
  | cons t rest ih =>
      obtain ⟨ht, hrest⟩ := List.forall_mem_cons.mp h
      rw [allEntities, allBareTexts, List.forall_mem_append, List.forall_mem_append]
      exact ⟨⟨ht.entities, (ih hrest).1⟩, ht.texts, (ih hrest).2⟩

/-- A function around each of several inert terms. -/
theorem inert_wrap {func : Option FuncSpec} (hfunc : ∀ name ∈ func.bind FuncSpec.asName,
    IsInert name) {terms : List Term} (h : ∀ t ∈ terms, t.Inert) :
    ∀ t ∈ FuncSpec.wrap func terms, t.Inert := by
  cases func with
  | none => exact h
  | some spec =>
      intro t ht
      obtain ⟨u, hu, rfl⟩ := List.mem_map.mp ht
      constructor
      · intro e he
        refine (h u hu).entities e ?_
        rwa [entities, allEntities, allEntities, List.append_nil] at he
      · intro text htext
        rw [bareTexts, allBareTexts, allBareTexts, List.append_nil, List.mem_append] at htext
        rcases htext with htext | htext
        · exact (h u hu).texts text htext
        · exact hfunc text (Option.mem_toList.mp htext)

end Term

namespace ReturnSpec

variable {entity : Entity}

theorem inert_member (h : entity.Inert) {m : Entity} (hm : m ∈ entity.members) : m.Inert := by
  rcases List.mem_append.mp hm with hm | hm
  · obtain ⟨n, hn, rfl⟩ := List.mem_map.mp hm
    exact Entity.all_node (h.nodes n (Entity.mem_nodeCopies_of_mem_nodes hn))
  · obtain ⟨r, hr, rfl⟩ := List.mem_map.mp hm
    exact Entity.all_relationship (h.edges r (Entity.mem_edgeCopies_of_mem_edges hr))

/-- An inert entity under an inert name. -/
theorem inert_named {m : Entity} (h : m.Inert) {name : String} (hname : IsInert name) :
    (m.named name).Inert := by
  cases m with
  | node n =>
      refine Entity.all_node ⟨h.node.var, fun text ht => ?_, h.node.props⟩
      rcases List.mem_append.mp ht with ht | ht
      · exact h.node.texts text (List.mem_append_left _ ht)
      · exact List.mem_singleton.mp ht ▸ hname
  | relationship r =>
      refine Entity.all_relationship ⟨h.relationship.var, fun text ht => ?_, h.relationship.props⟩
      rcases List.mem_append.mp ht with ht | ht
      · exact h.relationship.texts text (List.mem_append_left _ ht)
      · exact List.mem_singleton.mp ht ▸ hname
  | property p =>
      refine Entity.all_property ⟨h.property.var, fun text ht => ?_⟩
      rw [Property.texts, List.mem_cons, List.mem_append] at ht
      rcases ht with rfl | ht | ht
      · exact h.property.handle
      · exact List.mem_singleton.mp ht ▸ hname
      · exact h.property.texts text (List.mem_cons_of_mem _ (List.mem_append_right _ ht))
  | triple t => exact h
  | path g => exact h

/-- Whatever is returned of an inert entity under inert names. -/
theorem inert_of_returnsUnder (h : entity.Inert) {names : List String}
    (hnames : ∀ name ∈ names, IsInert name) {t : Term} (ht : entity.ReturnsUnder names t) :
    t.Inert := by
  cases ht with
  | member hm => exact Term.inert_entity (inert_member h hm)
  | renamed hm hname =>
      exact Term.inert_entity (inert_named (inert_member h hm) (hnames _ hname))
  | everything =>
      refine ⟨fun e he => absurd he List.not_mem_nil, fun text htext => ?_⟩
      rw [List.mem_singleton.mp htext]
      decide

theorem mem_texts_of_mem_names {ret : ReturnSpec} {name : String} (h : name ∈ ret.names) :
    name ∈ ret.texts := by
  cases ret with
  | items => exact h
  | named => exact h
  | select nodes edges own pathId => exact List.mem_append_left _ h

/-- What a return block makes of an inert entity, and the name that it gives to its function. -/
theorem inert_resolve (h : entity.Inert) {ret : ReturnSpec}
    (hret : ∀ text ∈ ret.texts, IsInert text) {func : Option FuncSpec}
    (hfunc : ∀ name ∈ func.bind FuncSpec.asName, IsInert name) {unlabelled : Option String}
    {token : String} {terms : List Term} {func' : Option FuncSpec} {pathId : Option String}
    (hresolve : ret.resolve entity unlabelled func token = .ok (terms, func', pathId)) :
    (∀ t ∈ terms, t.Inert) ∧ ∀ name ∈ func'.bind FuncSpec.asName, IsInert name := by
  have hnames : ∀ name ∈ ret.names, IsInert name := fun name hname =>
    hret name (mem_texts_of_mem_names hname)
  refine ⟨fun t ht => inert_of_returnsUnder h hnames (returnsUnder_resolve hresolve t ht), ?_⟩
  rcases func_of_resolve hresolve with rfl | ⟨nodes, edges, pathId', rfl⟩
  · exact hfunc
  · intro name hname
    exact hret name (List.mem_append_right _ (Option.mem_toList.mpr hname))

end ReturnSpec

/-! ## Compiled statements -/

/-- In an inert table every request that compiles has a legible statement. -/
theorem RouteTable.legible_of_compile {table : RouteTable}
    (htable : ∀ text ∈ table.texts, IsInert text) {options : StatementOptions}
    {tokens : List String} {compiled : Compiled}
    (h : table.compile options tokens = .ok compiled) : compiled.statement.phrase.Legible := by
  obtain ⟨visits, v, trail, hvisit, hfollow, hfinish⟩ := compile_eq_ok_iff.mp h
  have hvisits := Level.inert_of_visit htable hvisit
  have hv : v.Inert := hvisits v (List.mem_append_right _ (List.mem_singleton_self v))
  obtain ⟨ret, entity, terms, func, pathId, hret, hentity, hresolve, rfl⟩ :=
    Trail.finish_eq_ok_iff.mp hfinish
  have hstart : ∀ e, ({} : Trail).entity = some e → e.Inert := fun _ he => nomatch he
  have hinert : entity.Inert := Trail.inert_followVisits hstart hvisits hfollow entity hentity
  obtain ⟨hterms, hname⟩ :=
    ReturnSpec.inert_resolve hinert (hv.step.ret ret hret) hv.step.func hresolve
  have hreturned := Term.inert_all (Term.inert_wrap hname hterms)
  refine Statement.legible_phrase ?_ ?_
  · intro e he
    obtain ⟨c, hc, he⟩ := List.mem_flatMap.mp he
    rcases List.mem_cons.mp hc with rfl | hc
    · rw [Clause.terms, Term.allEntities, Term.allEntities, List.append_nil] at he
      exact List.mem_singleton.mp he ▸ hinert
    · obtain rfl := List.mem_singleton.mp hc
      exact hreturned.1 e he
  · intro text ht
    obtain ⟨c, hc, ht⟩ := List.mem_flatMap.mp ht
    rcases List.mem_cons.mp hc with rfl | hc
    · exact absurd ht List.not_mem_nil
    · obtain rfl := List.mem_singleton.mp hc
      exact hreturned.2 text ((List.mem_append.mp ht).resolve_right List.not_mem_nil)

end CypherRoutes
