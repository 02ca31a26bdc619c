/-
# Steps with other values

Each part of a step does the same to an entity with new values as to the entity, whatever the
token is called; when it is refused, the fault is of the same kind. So is what a step returns.
-/
import CypherRoutes.Proofs.Cypher.Revalue
import CypherRoutes.Proofs.Route.Finish
import CypherRoutes.Proofs.Route.Trail

namespace CypherRoutes

variable (σ : String → Option String)

/-! ## Building -/

/-- The token matters to a link only when it is refused. -/
theorem link_token (s : Numbering) (a b : Entity) (r : Relationship) (token token' : String) :
    SameOutcome RequestFault.SameKind Eq (link s a r b token) (link s a r b token') := by
  rcases link_cases s a b r token with ⟨n, m, rfl, rfl⟩ | ⟨hlink, hnodes⟩
  · exact .ok rfl
  · rcases link_cases s a b r token' with ⟨n, m, ha, hb⟩ | ⟨hlink', -⟩
    · exact absurd ⟨ha, hb⟩ (hnodes n m)
    · rw [hlink, hlink', linkPath, linkPath]
      cases stitch [a, .relationship r, b] with
      | error => exact .error rfl
      | ok triples => exact .ok rfl

/-- So it does to what a step builds. -/
theorem NodeSpec.build_token (spec : NodeSpec) (s : Numbering) (token token' : String) :
    SameOutcome RequestFault.SameKind Eq (spec.build s token) (spec.build s token') := by
  induction spec generalizing s with
  | label => exact .ok rfl
  | unlabelled => exact .ok rfl
  | block => exact .ok rfl
  | linked name prop edge target ih =>
      rw [build, build]
      refine (ih _).bind ?_
      rintro ⟨m, s'⟩ _ rfl
      exact link_token _ _ _ _ token token'

namespace Trail

theorem introduce_token (s : Numbering) (node : Option NodeSpec) (token token' : String) :
    SameOutcome RequestFault.SameKind Eq (introduce s token node) (introduce s token' node) := by
  cases node with
  | none => exact .ok rfl
  | some spec =>
      refine (spec.build_token s token token').map ?_
      rintro a _ rfl
      rfl

/-! ## Attaching -/

theorem gainAtNode_revalue (label : Option String) (p : Property) (e : Entity)
    (token token' : String) :
    SameOutcome RequestFault.SameKind (fun e e' => e' = e.revalue σ)
      (gainAtNode label p token e) (gainAtNode label (p.revalue σ) token' (e.revalue σ)) := by
  cases label with
  | none => exact .ok rfl
  | some label =>
      rw [gainAtNode, gainAtNode, Entity.revalue_addPropToNode]
      cases e.addPropToNode label p with
      | none => exact .error rfl
      | some changed => exact .ok rfl

theorem gainAtEdge_revalue (kind : Option String) (p : Property) (e : Entity)
    (token token' : String) :
    SameOutcome RequestFault.SameKind (fun e e' => e' = e.revalue σ)
      (gainAtEdge kind p token e) (gainAtEdge kind (p.revalue σ) token' (e.revalue σ)) := by
  cases kind with
  | none => exact .ok rfl
  | some kind =>
      rw [gainAtEdge, gainAtEdge, Entity.revalue_addPropToEdge]
      cases e.addPropToEdge kind p with
      | none => exact .error rfl
      | some changed => exact .ok rfl

theorem attachSelected_revalue (e : Entity) (p : Property) (step : Step)
    (token token' : String) :
    SameOutcome RequestFault.SameKind (fun e e' => e' = e.revalue σ)
      (attachSelected e p step token) (attachSelected (e.revalue σ) (p.revalue σ) step token') := by
  rw [attachSelected, attachSelected]
  split_ifs
  · exact .error rfl
  · refine (gainAtNode_revalue σ step.nodeSelector p e token token').bind ?_
    rintro middle _ rfl
    exact gainAtEdge_revalue σ step.edgeSelector p middle token token'

/-- A property with a new value is attached where the property is. -/
theorem attach_revalue (entity : Option Entity) (p : Property) (step : Step)
    (token token' : String) :
    SameOutcome RequestFault.SameKind (fun e e' => e' = e.revalue σ)
      (attach entity p step token)
      (attach (entity.map (.revalue σ)) (p.revalue σ) step token') := by
  cases entity with
  | none => exact .error rfl
  | some e =>
      rw [Option.map_some, attach_some, attach_some]
      cases e with
      | node n => exact .ok (congrArg Entity.node (n.revalue_attach σ p))
      | relationship r => exact .ok (congrArg Entity.relationship (r.revalue_attach σ p))
      | property q => exact attachSelected_revalue σ (.property q) p step token token'
      | triple t => exact attachSelected_revalue σ (.triple t) p step token token'
      | path g => exact attachSelected_revalue σ (.path g) p step token token'

theorem attachGiven_revalue (entity : Option Entity) (p : Option Property) (step : Step)
    (token token' : String) :
    SameOutcome RequestFault.SameKind (fun e e' => e' = e.map (.revalue σ))
      (attachGiven entity p step token)
      (attachGiven (entity.map (.revalue σ)) (p.map (.revalue σ)) step token') := by
  cases p with
  | none => exact .ok rfl
  | some p =>
      refine (attach_revalue σ entity p step token token').map ?_
      rintro e _ rfl
      rfl

/-! ## Connecting -/

/-- Entities with new values are connected as the entities are. -/
theorem connect_revalue (s : Numbering) (entity added : Option Entity) (step : Step)
    (token token' : String) :
    SameOutcome RequestFault.SameKind (fun x y => y = (x.1.map (.revalue σ), x.2))
      (connect s entity added step token)
      (connect s (entity.map (.revalue σ)) (added.map (.revalue σ)) step token') := by
  rw [connect, connect]
  cases step.edge with
  | none =>
      refine .ok ?_
      cases added <;> rfl
  | some spec =>
      cases entity with
      | none => exact .error rfl
      | some incoming =>
          cases added with
          | none => exact .error rfl
          | some added =>
              have hbare : (spec.build s).1.revalue σ = (spec.build s).1 := by
                rw [Relationship.revalue, spec.props_build s, List.map_nil,
                  ← spec.props_build s]
              have hlink := link_revalue σ (spec.build s).2 incoming added (spec.build s).1
                token token'
              rw [hbare] at hlink
              refine hlink.bind ?_
              rintro x _ rfl
              exact .ok rfl

end Trail

/-! ## Returning -/

namespace ReturnSpec

theorem allOf_revalue (e : Entity) : allOf (e.revalue σ) = (allOf e).map (.revalue σ) := by
  have hnodes : (e.revalue σ).nodes.map (fun n => Term.entity (.node n))
      = (e.nodes.map fun n => Term.entity (.node n)).map (.revalue σ) := by
    rw [Entity.nodes_revalue, List.map_map, List.map_map]
    rfl
  cases e with
  | node => rfl
  | relationship => rfl
  | property => exact hnodes
  | triple => exact hnodes
  | path => exact hnodes

theorem namedOf_revalue (e : Entity) (name : String) :
    namedOf (e.revalue σ) name = (namedOf e name).map (.revalue σ) := by
  have hnodes : ((e.revalue σ).nodes.filter fun n => !n.anonymous && n.hasLabel name).map
        (Term.entity ∘ Entity.node)
      = ((e.nodes.filter fun n => !n.anonymous && n.hasLabel name).map
        (Term.entity ∘ Entity.node)).map (.revalue σ) := by
    rw [Entity.nodes_revalue, List.filter_map, List.map_map, List.map_map]
    rfl
  unfold namedOf
  rw [List.map_append, hnodes]
  refine congrArg _ ?_
  cases e with
  | relationship r =>
      show (if !r.anonymous && r.hasKind name then [Term.entity (.relationship (r.revalue σ))]
        else []) = List.map (Term.revalue σ)
          (if !r.anonymous && r.hasKind name then [Term.entity (.relationship r)] else [])
      split_ifs <;> rfl
  | node => rfl
  | property => rfl
  | triple => rfl
  | path => rfl

theorem selected_revalue (keepNames : Bool) (e : Entity) (selector : ItemSelector) :
    selected keepNames (e.revalue σ) selector = (selected keepNames e selector).revalue σ := by
  rw [selected, selected]
  cases selector.asName with
  | none => rfl
  | some name =>
      cases keepNames with
      | true => exact congrArg Term.entity (e.revalue_named σ name).symm
      | false => rfl

theorem selectedOf_revalue (e : Entity) (nodes edges : List ItemSelector)
    (unlabelled : Option String) (keepNames : Bool) :
    selectedOf (e.revalue σ) nodes edges unlabelled keepNames
      = (selectedOf e nodes edges unlabelled keepNames).map (.revalue σ) := by
  have hnode : ∀ n : Node, selectNode keepNames unlabelled nodes (n.revalue σ)
      = (selectNode keepNames unlabelled nodes n).map (.revalue σ) := by
    intro n
    rw [selectNode, selectNode, List.map_map]
    exact List.map_congr_left fun selector _ => selected_revalue σ keepNames (.node n) selector
  have hedge : ∀ r : Relationship,
      ((edges.find? fun s => (r.revalue σ).hasKind s.name).map
          (selected keepNames (.relationship (r.revalue σ)))).toList
        = ((edges.find? fun s => r.hasKind s.name).map
          (selected keepNames (.relationship r))).toList.map (.revalue σ) := by
    intro r
    simp only [Relationship.hasKind_revalue]
    cases edges.find? fun s => r.hasKind s.name with
    | none => rfl
    | some selector =>
        exact congrArg (fun t => [t]) (selected_revalue σ keepNames (.relationship r) selector)
  rw [selectedOf, selectedOf, List.map_append, Entity.nodes_revalue, Entity.edges_revalue,
    List.filter_map, List.filter_map, List.flatMap_map, List.flatMap_map, List.map_flatMap]
  simp only [hnode, hedge]
  congr 1
  split_ifs
  · rfl
  · rw [List.map_flatMap]
    rfl

/-- What is returned of an entity with new values. -/
theorem resolve_revalue (ret : ReturnSpec) (e : Entity) (unlabelled : Option String)
    (func : Option FuncSpec) (token token' : String) :
    SameOutcome RequestFault.SameKind (fun x y => y = (x.1.map (.revalue σ), x.2))
      (ret.resolve e unlabelled func token)
      (ret.resolve (e.revalue σ) unlabelled func token') := by
  cases ret with
  | items =>
      refine .ok ?_
      rw [allOf_revalue]
  | named name =>
      rw [resolve, resolve, namedOf_revalue]
      cases namedOf e name with
      | nil => exact .error rfl
      | cons t rest => exact .ok rfl
  | select nodes edges own pathId =>
      simp only [resolve, selectedOf_revalue]
      cases selectedOf e nodes edges unlabelled (own.or func).isNone with
      | nil => exact .error rfl
      | cons t rest => exact .ok rfl

end ReturnSpec

/-- A function around terms with new values. -/
theorem FuncSpec.wrap_revalue (func : Option FuncSpec) (terms : List Term) :
    wrap func (terms.map (.revalue σ)) = (wrap func terms).map (.revalue σ) := by
  cases func with
  | none => rfl
  | some spec =>
      rw [wrap, wrap, List.map_map, List.map_map]
      rfl

end CypherRoutes
