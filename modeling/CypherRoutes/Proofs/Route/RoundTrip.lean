/-
# Placeholders and parameters

The text of a compiled statement shows a placeholder for every parameter that the statement
carries and for no other, and a parameter has the value of the property at its placeholder. The
pattern does so because the entity is coherent; the returned terms show nothing that the pattern
does not.
-/
import CypherRoutes.Proofs.Cypher.Written
import CypherRoutes.Proofs.Params
import CypherRoutes.Proofs.Route.Finish
import CypherRoutes.Proofs.Route.Trail

namespace CypherRoutes

/-! ## Faithful statements -/

/-- A statement carries a parameter for each of its placeholders and no other, with the value of
the slot. -/
structure Statement.Faithful (s : Statement) : Prop where
  mem_names_iff : ∀ v, v ∈ s.params.names ↔ v ∈ s.phrase.placeholders
  get?_eq : ∀ v value, (v, value) ∈ s.phrase.slots → s.params.get? v = some value

/-- In a coherent entity a variable has one value. -/
theorem Entity.Coherent.value_eq {e : Entity} (h : e.Coherent) {v : String} {x y : Value}
    (hx : (v, x) ∈ e.params) (hy : (v, y) ∈ e.params) : x = y := by
  obtain ⟨p, hp, hpx⟩ := mem_params_iff.mp hx
  obtain ⟨q, hq, hqy⟩ := mem_params_iff.mp hy
  obtain ⟨hpv, hpvalue⟩ := Property.mem_params_iff.mp hpx
  obtain ⟨hqv, hqvalue⟩ := Property.mem_params_iff.mp hqy
  have hgiven : p.given = q.given := h.props p hp q hq (hpv.trans hqv.symm)
  rw [Property.value?, hgiven, ← Property.value?, hqvalue] at hpvalue
  exact (Option.some.inj hpvalue).symm

namespace Trail

/-- The slots of listed terms. -/
theorem slots_listing (keyword : String) (place : Place) (terms : List Term) :
    (Clause.listing keyword place ", " terms).slots
      = (Term.allPhrases terms place).flatMap Phrase.slots :=
  Phrase.slots_joined ", " (Term.allPhrases terms place)

/-- The slots of a MATCH clause are those of the pattern. -/
theorem slots_matching (entity : Entity) :
    (Clause.matching [.entity entity]).phrase.slots = entity.patterns.flatMap Phrase.slots := by
  have hmatch : Term.allPhrases [.entity entity] .pattern = entity.patterns := by
    rw [Term.allPhrases, Term.allPhrases, List.append_nil, Term.phrases, Entity.phrases]
  rw [Clause.phrase, slots_listing, hmatch]

/-- The slots of a statement are those of its pattern and of the returned terms. -/
theorem slots_statementOf (entity : Entity) (terms : List Term) (func : Option FuncSpec)
    (options : StatementOptions) :
    (statementOf entity terms func options).phrase.slots
      = entity.patterns.flatMap Phrase.slots ++
        (Term.allPhrases (FuncSpec.wrap func terms) .item).flatMap Phrase.slots := by
  have hend : Phrase.slots (if options.terminate then [.verbatim ";"] else []) = [] := by
    split_ifs <;> rfl
  rw [Statement.phrase, Phrase.slots_append, statementOf, hend, List.append_nil,
    Phrase.slots_joined]
  simp only [List.map_cons, List.map_nil, List.flatMap_cons, List.flatMap_nil, List.append_nil,
    slots_matching]
  rw [Clause.phrase, slots_listing]

/-- The values of a statement are those of its entity and of the returned terms. -/
theorem params_statementOf (entity : Entity) (terms : List Term) (func : Option FuncSpec)
    (options : StatementOptions) :
    (statementOf entity terms func options).params
      = .ofList (entity.params ++ Term.allParams (FuncSpec.wrap func terms) .item) := by
  have hmatch : Term.allParams [.entity entity] .pattern = entity.params := by
    rw [Term.allParams, Term.allParams, List.append_nil, Term.params]
    cases entity <;> rfl
  rw [Statement.params, statementOf, List.flatMap_cons, List.flatMap_singleton, Clause.params,
    Clause.params, hmatch]

section Returned

variable {entity : Entity} {terms : List Term} (hterms : ∀ t ∈ terms, entity.Returns t)
  (func : Option FuncSpec)

include hterms

/-- The entities in the returned terms have values of the entity only. -/
theorem mem_params_of_returned {x : String × Value}
    (h : ∃ e ∈ Term.allEntities (FuncSpec.wrap func terms), x ∈ e.params) : x ∈ entity.params := by
  obtain ⟨e, he, hx⟩ := h
  rw [FuncSpec.allEntities_wrap] at he
  exact Entity.mem_params_of_returns hterms he hx

/-- So the values of the entity are all that the statement needs. -/
theorem mem_params_append_iff {x : String × Value} :
    x ∈ entity.params ++ Term.allParams (FuncSpec.wrap func terms) .item ↔ x ∈ entity.params := by
  rw [List.mem_append]
  exact ⟨fun hx => hx.elim id fun hx =>
    mem_params_of_returned hterms func (Term.exists_entity_of_mem_allParams hx), .inl⟩

theorem mem_names_statementOf_iff (options : StatementOptions) {v : String} :
    v ∈ (statementOf entity terms func options).params.names ↔
      ∃ value, (v, value) ∈ entity.params := by
  rw [params_statementOf, Params.mem_names_ofList]
  simp only [List.mem_map, mem_params_append_iff hterms func, Prod.exists, exists_and_right,
    exists_eq_right]

/-- A statement about a coherent entity that returns parts of it is faithful. -/
theorem faithful_statementOf (h : entity.Coherent) (options : StatementOptions) :
    (statementOf entity terms func options).Faithful := by
  -- both the slots and the values are, as sets, the values of the entity
  have hslots : ∀ {x : String × Value},
      x ∈ (statementOf entity terms func options).phrase.slots ↔ x ∈ entity.params := by
    intro x
    rw [slots_statementOf, List.mem_append, Entity.mem_slots_patterns_iff h]
    exact ⟨fun hx => hx.elim id fun hx =>
      mem_params_of_returned hterms func (Term.exists_entity_of_mem_allSlots hx), .inl⟩
  constructor
  · intro v
    rw [mem_names_statementOf_iff hterms, Phrase.placeholders]
    simp only [List.mem_map, hslots, Prod.exists, exists_and_right, exists_eq_right]
  · intro v value hv
    rw [params_statementOf]
    refine Params.get?_insertAll_of_mem _ _ v value
      ((mem_params_append_iff hterms func).mpr (hslots.mp hv)) ?_
    exact fun other hother =>
      h.value_eq ((mem_params_append_iff hterms func).mp hother) (hslots.mp hv)

end Returned

/-- A sound trail finishes with a faithful statement. -/
theorem Sound.faithful {trail : Trail} (h : trail.Sound) {step : Step} {token : String}
    {options : StatementOptions} {compiled : Compiled}
    (hfinish : trail.finish step token options = .ok compiled) : compiled.statement.Faithful := by
  obtain ⟨ret, entity, terms, func, pathId, -, hentity, hresolve, rfl⟩ :=
    finish_eq_ok_iff.mp hfinish
  exact faithful_statementOf (ReturnSpec.returns_resolve hresolve) func
    (h.entity entity hentity).coherent options

end Trail

/-! ## Compiled statements -/

namespace RouteTable

/-- A request that compiles has a faithful statement. -/
theorem faithful_of_compile {table : RouteTable} {options : StatementOptions}
    {tokens : List String} {compiled : Compiled}
    (h : table.compile options tokens = .ok compiled) : compiled.statement.Faithful := by
  obtain ⟨visits, v, trail, -, hfollow, hfinish⟩ := compile_eq_ok_iff.mp h
  exact (Trail.sound_start.followVisits hfollow).faithful hfinish

/-- A statement with parameters writes each value as a placeholder with the name of the
property's variable. The placeholders are exactly the names of the parameters, and a parameter has
the value of the property at its placeholder. -/
theorem parameters_of_compile {table : RouteTable} {options : StatementOptions}
    {tokens : List String} {compiled : Compiled} (huse : options.useParams = true)
    (h : table.compile options tokens = .ok compiled) :
    compiled.statement.text = compiled.statement.phrase.text .parameterized ∧
      (∀ v, v ∈ compiled.statement.params.names ↔
        v ∈ compiled.statement.phrase.placeholders) ∧
      ∀ v value, (v, value) ∈ compiled.statement.phrase.slots →
        compiled.statement.params.get? v = some value := by
  have hfaithful := faithful_of_compile h
  refine ⟨?_, hfaithful.mem_names_iff, hfaithful.get?_eq⟩
  obtain ⟨visits, v, trail, -, -, hfinish⟩ := compile_eq_ok_iff.mp h
  obtain ⟨ret, entity, terms, func, pathId, -, -, -, rfl⟩ := Trail.finish_eq_ok_iff.mp hfinish
  rw [Statement.text, Statement.textIn, Statement.mode, Trail.statementOf, huse]
  rfl

/-- The table of `/a/b/c/$x`, where the parameter sets a property of the node in the middle of
the path, and a negation of that property is returned. -/
def middleOfPath : RouteTable where
  root := ⟨[("a", ⟨{ node := some (.label "A") },
    ⟨[("b", ⟨{ node := some (.label "B"), edge := some ⟨"r", .right, none⟩ },
      ⟨[("c", ⟨{ node := some (.label "C"), edge := some ⟨"s", .right, none⟩ },
        ⟨[], some ("x",
          ⟨{ nodeSelector := some "B", prop := some (.ofToken "k"),
             ret := some (.select [⟨"B", none⟩] [] (some ⟨.not, none⟩) none) }, .empty⟩)⟩⟩)],
        none⟩⟩)], none⟩⟩)], none⟩

/-- Of the two copies of the middle node one is written, and the placeholder stands in the pattern
and in the returned item. -/
theorem parameters_of_compile_middleOfPath :
    ∃ compiled, middleOfPath.compile {} ["a", "b", "c", "v"] = .ok compiled ∧
      compiled.statement.text
        = "MATCH (n0:A)-[r0:r]->(n1:B \x7bk:$p0\x7d)-[r1:s]->(n2:C) RETURN NOT n1.k = $p0" ∧
      ∀ v, v ∈ compiled.statement.params.names ↔
        v ∈ compiled.statement.phrase.placeholders := by
  obtain ⟨compiled, hcompile, htext⟩ := exists_ok_of_observed (f := fun c => c.statement.text)
    (b := "MATCH (n0:A)-[r0:r]->(n1:B \x7bk:$p0\x7d)-[r1:s]->(n2:C) RETURN NOT n1.k = $p0")
    (x := middleOfPath.compile {} ["a", "b", "c", "v"]) (by decide +kernel)
  exact ⟨compiled, hcompile, htext, (parameters_of_compile rfl hcompile).2.1⟩

end RouteTable

end CypherRoutes
