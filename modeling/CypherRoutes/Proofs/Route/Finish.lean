/-
# Finished trails

A finished trail matches its entity and returns everything, or nodes and relationships of the
entity, some under names of the return block; a function may stand around each.
-/
import CypherRoutes.Proofs.Cypher.Slots
import CypherRoutes.Proofs.Outcome
import CypherRoutes.Route.Compile

namespace CypherRoutes

/-! ## Members -/

namespace Entity

/-- The nodes and relationships of an entity, each as an entity of its own. -/
def members (e : Entity) : List Entity := e.nodes.map node ++ e.edges.map relationship

/-- The values of a member are values of the entity. -/
theorem mem_params_of_members {e m : Entity} (hm : m ∈ e.members) {x : String × Value}
    (hx : x ∈ m.params) : x ∈ e.params := by
  rw [mem_params_iff_copies]
  rcases List.mem_append.mp hm with hm | hm
  · obtain ⟨n, hn, rfl⟩ := List.mem_map.mp hm
    exact .inl ⟨n, mem_nodeCopies_of_mem_nodes hn, hx⟩
  · obtain ⟨r, hr, rfl⟩ := List.mem_map.mp hm
    exact .inr (.inl ⟨r, mem_edgeCopies_of_mem_edges hr, hx⟩)

/-- Another name changes no value. -/
theorem params_named (name : String) (e : Entity) : (e.named name).params = e.params := by
  cases e <;> rfl

end Entity

/-! ## Returned terms -/

/-- What a route may return of an entity. -/
inductive Entity.Returns (e : Entity) : Term → Prop where
  | member {m : Entity} : m ∈ e.members → Returns e (.entity m)
  | renamed {m : Entity} (name : String) : m ∈ e.members → Returns e (.entity (m.named name))
  | raw (text : String) : Returns e (.raw text)

/-- What a route may return of an entity where its return block knows some names. -/
inductive Entity.ReturnsUnder (names : List String) (e : Entity) : Term → Prop where
  | member {m : Entity} : m ∈ e.members → ReturnsUnder names e (.entity m)
  | renamed {m : Entity} {name : String} : m ∈ e.members → name ∈ names →
      ReturnsUnder names e (.entity (m.named name))
  | everything : ReturnsUnder names e (.raw "*")

theorem Entity.ReturnsUnder.returns {names : List String} {e : Entity} {t : Term}
    (h : e.ReturnsUnder names t) : e.Returns t := by
  cases h with
  | member hm => exact .member hm
  | renamed hm hname => exact .renamed _ hm
  | everything => exact .raw "*"

namespace ReturnSpec

/-- The names that the selectors of a return block give. -/
def names : ReturnSpec → List String
  | items => []
  | named _ => []
  | select nodes edges _ _ => (nodes ++ edges).filterMap ItemSelector.asName

variable {entity : Entity} {names : List String}

theorem node_mem_members {n : Node} (h : n ∈ entity.nodes) : .node n ∈ entity.members :=
  List.mem_append_left _ (List.mem_map_of_mem h)

theorem relationship_mem_members {r : Relationship} (h : r ∈ entity.edges) :
    .relationship r ∈ entity.members :=
  List.mem_append_right _ (List.mem_map_of_mem h)

/-- Returning the whole entity, or every node of a composite. -/
theorem returnsUnder_allOf {t : Term} (h : t ∈ allOf entity) : entity.ReturnsUnder names t := by
  have hnodes : t ∈ entity.nodes.map (fun n => Term.entity (.node n)) →
      entity.ReturnsUnder names t := by
    intro h
    obtain ⟨n, hn, rfl⟩ := List.mem_map.mp h
    exact .member (node_mem_members hn)
  cases entity with
  | node n =>
      exact List.mem_singleton.mp h ▸ .member (node_mem_members (List.mem_singleton_self n))
  | relationship r =>
      exact List.mem_singleton.mp h ▸ .member (relationship_mem_members (List.mem_singleton_self r))
  | property => exact hnodes h
  | triple => exact hnodes h
  | path => exact hnodes h

/-- Returning what has a label or a type. -/
theorem returnsUnder_namedOf {name : String} {t : Term} (h : t ∈ namedOf entity name) :
    entity.ReturnsUnder names t := by
  unfold namedOf at h
  rcases List.mem_append.mp h with h | h
  · obtain ⟨n, hn, rfl⟩ := List.mem_map.mp h
    exact .member (node_mem_members (List.mem_of_mem_filter hn))
  · cases entity with
    | relationship r =>
        simp only at h
        split_ifs at h
        · exact List.mem_singleton.mp h ▸
            .member (relationship_mem_members (List.mem_singleton_self r))
        · exact absurd h List.not_mem_nil
    | node => exact absurd h List.not_mem_nil
    | property => exact absurd h List.not_mem_nil
    | triple => exact absurd h List.not_mem_nil
    | path => exact absurd h List.not_mem_nil

/-- A member, under the selector's name or not. -/
theorem returnsUnder_selected {m : Entity} (hm : m ∈ entity.members) (keepNames : Bool)
    {selector : ItemSelector} (hname : ∀ name ∈ selector.asName, name ∈ names) :
    entity.ReturnsUnder names (selected keepNames m selector) := by
  rw [selected]
  cases hsome : selector.asName with
  | none => exact .member hm
  | some name =>
      cases keepNames with
      | true => exact .renamed hm (hname name hsome)
      | false => exact .member hm

/-- Returning what two lists of selectors take. -/
theorem returnsUnder_selectedOf {nodes edges : List ItemSelector} {unlabelled : Option String}
    {keepNames : Bool} {t : Term} (h : t ∈ selectedOf entity nodes edges unlabelled keepNames) :
    entity.ReturnsUnder ((nodes ++ edges).filterMap ItemSelector.asName) t := by
  have hnames : ∀ selector ∈ nodes ++ edges, ∀ name ∈ selector.asName,
      name ∈ (nodes ++ edges).filterMap ItemSelector.asName := fun selector hselector name hname =>
    List.mem_filterMap.mpr ⟨selector, hselector, hname⟩
  rw [List.forall_mem_append] at hnames
  rw [selectedOf] at h
  rcases List.mem_append.mp h with h | h
  · split_ifs at h
    · exact List.mem_singleton.mp h ▸ .everything
    · obtain ⟨n, hn, ht⟩ := List.mem_flatMap.mp h
      obtain ⟨selector, hselector, rfl⟩ := List.mem_map.mp ht
      have hmem : selector ∈ nodes := by
        rcases List.mem_append.mp hselector with hfound | hfound
        · exact List.mem_of_find?_eq_some (Option.mem_toList.mp hfound)
        · split_ifs at hfound
          · exact List.mem_of_find?_eq_some (Option.mem_toList.mp hfound)
          · exact absurd hfound List.not_mem_nil
      exact returnsUnder_selected (node_mem_members (List.mem_of_mem_filter hn)) _
        (hnames.1 selector hmem)
  · obtain ⟨r, hr, ht⟩ := List.mem_flatMap.mp h
    obtain ⟨selector, hfound, rfl⟩ := Option.map_eq_some_iff.mp (Option.mem_toList.mp ht)
    exact returnsUnder_selected (relationship_mem_members (List.mem_of_mem_filter hr)) _
      (hnames.2 selector (List.mem_of_find?_eq_some hfound))

variable {ret : ReturnSpec} {unlabelled : Option String} {func func' : Option FuncSpec}
  {token : String} {terms : List Term} {pathId : Option String}

/-- What a return block resolves to. Names and selectors have to find something. -/
theorem resolve_eq_ok
    (h : ret.resolve entity unlabelled func token = .ok (terms, func', pathId)) :
    (ret = .items ∧ terms = allOf entity ∧ func' = func) ∨
      (∃ name, ret = .named name ∧ terms = namedOf entity name ∧ terms ≠ [] ∧ func' = func) ∨
      ∃ nodes edges own, ret = .select nodes edges own pathId ∧
        terms = selectedOf entity nodes edges unlabelled (own.or func).isNone ∧ terms ≠ [] ∧
        func' = own.or func := by
  cases ret with
  | items =>
      obtain ⟨rfl, hrest⟩ := Prod.mk.inj (Except.ok.inj h)
      exact .inl ⟨rfl, rfl, (Prod.mk.inj hrest).1.symm⟩
  | named name =>
      rw [resolve] at h
      split at h
      · cases h
      · next hne =>
        obtain ⟨rfl, hrest⟩ := Prod.mk.inj (Except.ok.inj h)
        exact .inr (.inl ⟨name, rfl, rfl, hne, (Prod.mk.inj hrest).1.symm⟩)
  | select nodes edges own pathId' =>
      simp only [resolve] at h
      split at h
      · cases h
      · next hne =>
        obtain ⟨rfl, hrest⟩ := Prod.mk.inj (Except.ok.inj h)
        obtain ⟨rfl, rfl⟩ := Prod.mk.inj hrest
        exact .inr (.inr ⟨nodes, edges, own, rfl, rfl, hne, rfl⟩)

/-- Whatever a return block says, the terms are about the entity, under names of the block. -/
theorem returnsUnder_resolve
    (h : ret.resolve entity unlabelled func token = .ok (terms, func', pathId)) :
    ∀ t ∈ terms, entity.ReturnsUnder ret.names t := by
  rcases resolve_eq_ok h with
    ⟨rfl, rfl, -⟩ | ⟨name, rfl, rfl, -, -⟩ | ⟨nodes, edges, own, rfl, rfl, -, -⟩
  · exact fun t => returnsUnder_allOf
  · exact fun t => returnsUnder_namedOf
  · exact fun t => returnsUnder_selectedOf

/-- The terms of a return block are about the entity. -/
theorem returns_resolve
    (h : ret.resolve entity unlabelled func token = .ok (terms, func', pathId)) :
    ∀ t ∈ terms, entity.Returns t :=
  fun t ht => (returnsUnder_resolve h t ht).returns

/-- The function around the terms is the one of the step or the block's own. -/
theorem func_of_resolve
    (h : ret.resolve entity unlabelled func token = .ok (terms, func', pathId)) :
    func' = func ∨ ∃ nodes edges pathId', ret = .select nodes edges func' pathId' := by
  rcases resolve_eq_ok h with
    ⟨-, -, hfunc⟩ | ⟨name, -, -, -, hfunc⟩ | ⟨nodes, edges, own, rfl, -, -, hfunc⟩
  · exact .inl hfunc
  · exact .inl hfunc
  · cases own with
    | none => exact .inl hfunc
    | some spec => exact .inr ⟨nodes, edges, pathId, hfunc ▸ rfl⟩

end ReturnSpec

/-- A function around each term adds no entity. -/
theorem FuncSpec.allEntities_wrap (func : Option FuncSpec) (terms : List Term) :
    Term.allEntities (wrap func terms) = Term.allEntities terms := by
  cases func with
  | none => rfl
  | some spec =>
      induction terms with
      | nil => rfl
      | cons t rest ih =>
          have hone : Term.entities (.apply spec.kind [t] spec.asName) = t.entities := by
            rw [Term.entities, Term.allEntities, Term.allEntities, List.append_nil]
          rw [Term.allEntities, ← ih, ← hone]
          rfl

/-- The values of the entities in returned terms are values of the entity. -/
theorem Entity.mem_params_of_returns {e : Entity} {terms : List Term}
    (h : ∀ t ∈ terms, e.Returns t) {a : Entity} (ha : a ∈ Term.allEntities terms)
    {x : String × Value} (hx : x ∈ a.params) : x ∈ e.params := by
  induction terms with
  | nil => exact absurd ha List.not_mem_nil
  | cons t rest ih =>
      rw [Term.allEntities, List.mem_append] at ha
      rcases ha with ha | ha
      · cases h t List.mem_cons_self with
        | member hm => exact mem_params_of_members hm (List.mem_singleton.mp ha ▸ hx)
        | renamed name hm =>
            rw [List.mem_singleton.mp ha, params_named] at hx
            exact mem_params_of_members hm hx
        | raw text => exact absurd ha List.not_mem_nil
      · exact ih (fun t ht => h t (List.mem_cons_of_mem _ ht)) ha

/-! ## The statement -/

namespace Trail

/-- The statement of a trail whose terms were resolved. -/
def statementOf (entity : Entity) (terms : List Term) (func : Option FuncSpec)
    (options : StatementOptions) : Statement where
  clauses := [.matching [.entity entity], .returning (FuncSpec.wrap func terms)]
  terminate := options.terminate
  useParams := options.useParams

/-- A trail finishes if the step returns something and there is an entity to return. -/
theorem finish_eq_ok_iff {trail : Trail} {step : Step} {token : String}
    {options : StatementOptions} {compiled : Compiled} :
    trail.finish step token options = .ok compiled ↔
      ∃ ret entity terms func pathId, step.ret = some ret ∧ trail.entity = some entity ∧
        ret.resolve entity trail.unlabelled step.func token = .ok (terms, func, pathId) ∧
        compiled =
          { statement := statementOf entity terms func options
            key := keyText trail.key
            bindings := trail.bindings
            pathId := pathId } := by
  rw [finish]
  constructor
  · intro h
    cases hret : step.ret with
    | none => simp [hret] at h
    | some ret =>
        cases hentity : trail.entity with
        | none => simp [hret, hentity] at h
        | some entity =>
            simp only [hret, hentity] at h
            obtain ⟨⟨terms, func, pathId⟩, hresolve, h⟩ := bind_eq_ok_iff.mp h
            exact ⟨ret, entity, terms, func, pathId, rfl, rfl, hresolve,
              (Except.ok.inj h).symm⟩
  · rintro ⟨ret, entity, terms, func, pathId, hret, hentity, hresolve, rfl⟩
    simp only [hret, hentity]
    exact bind_eq_ok_iff.mpr ⟨(terms, func, pathId), hresolve, rfl⟩

end Trail

end CypherRoutes
