/-
# Parameters of statements

The parameters of a statement against the placeholders in its text, for statements about the
entities of a session. Every placeholder has its value if those in the targets of REMOVE clauses
are needed elsewhere (`Statement.get?_params_iff`); every parameter has a placeholder if the values
of unvisited copies in paths are shown elsewhere (`Statement.placeholders_iff`); and where all
placeholders have their values, inlining them gives the literal text
(`Statement.inlineParameters_textIn`).
-/
import CypherRoutes.Proofs.Cypher.Written
import CypherRoutes.Proofs.Params

namespace CypherRoutes

/-! ## Variables are names -/

/-- A letter and a number make a name. -/
theorem Numbering.isName_varName {letter : Char} (h : isNameChar letter = true) (n : Nat) :
    IsName (varName letter n) := by
  rw [IsName, varName, String.toList_ofList]
  refine ⟨List.cons_ne_nil _ _, fun c hc => ?_⟩
  rcases List.mem_cons.mp hc with rfl | hc
  · exact h
  · have hdigit := Nat.isDigit_of_mem_toDigits (by decide) (by decide) hc
    exact isNameChar_of_isAlphanum (by rw [Char.isAlphanum, hdigit, Bool.or_true])

/-- What a numbering issues are names. -/
theorem Numbering.Issued.isName {s : Numbering} {v : String} (h : s.Issued v) : IsName v := by
  rcases h with ⟨i, -, rfl⟩ | ⟨i, -, rfl⟩ | ⟨i, -, rfl⟩
  · exact isName_varName (by decide) i
  · exact isName_varName (by decide) i
  · exact isName_varName (by decide) i

namespace Statement

/-! ## Entities of slots and values -/

/-- A slot of a statement belongs to one of its entities. -/
theorem exists_entity_of_mem_slots {s : Statement} {a : String × Value}
    (h : a ∈ s.phrase.slots) : ∃ e ∈ s.entities, a ∈ e.params := by
  obtain ⟨c, hc, h⟩ := mem_slots_iff.mp h
  obtain ⟨x, hx, h⟩ := Clause.mem_slots_iff.mp h
  exact ⟨x.1, List.mem_flatMap.mpr ⟨c, hc, Clause.mem_allEntities_of_mem_written hx⟩,
    Entity.mem_params_of_mem_slots_phrases h⟩

/-- A value that a statement collects belongs to one of its entities. -/
theorem exists_entity_of_mem_collected {s : Statement} {a : String × Value}
    (h : a ∈ s.collected.flatMap paramsIn) : ∃ e ∈ s.entities, a ∈ e.params := by
  obtain ⟨x, hx, h⟩ := List.mem_flatMap.mp h
  obtain ⟨c, hc, hx⟩ := List.mem_flatMap.mp hx
  exact ⟨x.1, List.mem_flatMap.mpr ⟨c, hc, Clause.mem_allEntities_of_mem_collected hx⟩,
    Term.mem_params_of_mem_entityParams h⟩

theorem mem_names_params_iff {s : Statement} {v : String} :
    v ∈ s.params.names ↔ ∃ value, (v, value) ∈ s.collected.flatMap paramsIn := by
  rw [params_eq, Params.mem_names_ofList, List.mem_map]
  constructor
  · rintro ⟨⟨_, value⟩, h, rfl⟩
    exact ⟨value, h⟩
  · rintro ⟨value, h⟩
    exact ⟨(v, value), h, rfl⟩

variable {session : Session} {s : Statement}

/-- In a session without a reset a parameter has the value of whichever entity has one. -/
theorem get?_params_of_mem_names (hsession : session.Reached)
    (hmade : ∀ e ∈ s.entities, e ∈ session.made) {e : Entity} (he : e ∈ s.entities) {v : String}
    {value : Value} (hvalue : (v, value) ∈ e.params) (hv : v ∈ s.params.names) :
    s.params.get? v = some value := by
  have honly : ∀ other, (v, other) ∈ s.collected.flatMap paramsIn → other = value := by
    intro other hother
    obtain ⟨e', he', hother⟩ := exists_entity_of_mem_collected hother
    obtain ⟨p, hp, hpv⟩ := Entity.mem_params_iff.mp hother
    obtain ⟨q, hq, hqv⟩ := Entity.mem_params_iff.mp hvalue
    obtain ⟨hpvar, hpvalue⟩ := Property.mem_params_iff.mp hpv
    obtain ⟨hqvar, hqvalue⟩ := Property.mem_params_iff.mp hqv
    exact hsession.value?_eq (hmade e' he') (hmade e he) hp hq (hpvar.trans hqvar.symm) hpvalue
      hqvalue
  obtain ⟨other, hother⟩ := mem_names_params_iff.mp hv
  obtain rfl := honly other hother
  rw [params_eq]
  exact Params.get?_insertAll_of_mem _ _ v other hother honly

/-! ## Placeholders with a value -/

/-- A slot is one of a collected entity, unless it stands in the target of a REMOVE clause. -/
theorem mem_collected_or_removed {a : String × Value} (h : a ∈ s.phrase.slots) :
    a ∈ s.collected.flatMap paramsIn ∨
      ∃ target removal, .remove target removal ∈ s.clauses ∧
        a ∈ (Clause.remove target removal).phrase.slots := by
  obtain ⟨c, hc, hslots⟩ := mem_slots_iff.mp h
  obtain ⟨x, hx, h⟩ := Clause.mem_slots_iff.mp hslots
  rcases Clause.mem_written_iff.mp hx with hx | ⟨target, removal, rfl, -⟩
  · left
    exact List.mem_flatMap.mpr ⟨x, List.mem_flatMap.mpr ⟨c, hc, hx⟩, mem_paramsIn_of_mem_slotsIn h⟩
  · right
    exact ⟨target, removal, hc, hslots⟩

/-- Every slot has its value if the names in the targets of REMOVE clauses are parameters. -/
theorem get?_params_of_mem_slots (hsession : session.Reached)
    (hmade : ∀ e ∈ s.entities, e ∈ session.made)
    (hremove : ∀ target removal, .remove target removal ∈ s.clauses →
      ∀ v ∈ (Clause.remove target removal).phrase.placeholders, v ∈ s.params.names)
    {v : String} {value : Value} (h : (v, value) ∈ s.phrase.slots) :
    s.params.get? v = some value := by
  obtain ⟨e, he, hvalue⟩ := exists_entity_of_mem_slots h
  refine get?_params_of_mem_names hsession hmade he hvalue ?_
  rcases mem_collected_or_removed h with h | ⟨target, removal, hc, h⟩
  · exact mem_names_params_iff.mpr ⟨value, h⟩
  · exact hremove target removal hc v (List.mem_map_of_mem h)

/-- In a session whose numbering is not reset, every placeholder of a statement has the value of
its property among the parameters exactly if the placeholders in the targets of REMOVE clauses,
which only a function can have, are parameters for the sake of another clause. -/
theorem get?_params_iff (hsession : session.Reached)
    (hmade : ∀ e ∈ s.entities, e ∈ session.made) :
    (∀ v value, (v, value) ∈ s.phrase.slots → s.params.get? v = some value) ↔
      ∀ target removal, .remove target removal ∈ s.clauses →
        ∀ v ∈ (Clause.remove target removal).phrase.placeholders, v ∈ s.params.names := by
  constructor
  · intro h target removal hc v hv
    obtain ⟨⟨_, value⟩, hslot, rfl⟩ := List.mem_map.mp hv
    have hvalue := h _ value (mem_slots_iff.mpr ⟨_, hc, hslot⟩)
    rw [Params.mem_names_iff, hvalue]
    rfl
  · intro hremove v value h
    exact get?_params_of_mem_slots hsession hmade hremove h

/-- The property `k` of `n0` with the given value. -/
def soleProperty (value : Value) : Property := ⟨"p0", "k", some value, none, some "n0"⟩

/-- The node `n0` that holds it. -/
def soleOwner (value : Value) : Node := ⟨"n0", some "A", [soleProperty value], none, false⟩

/-- The session in which a node is made, given a property, and asked for it. -/
def soleSession (value : Value) : Session where
  numbering := ⟨1, 0, 1, 0⟩
  made := [.property (soleProperty value), .node (soleOwner value),
    .property { soleProperty value with owner := none }, .node (soleOwner value).plain]

theorem reached_soleSession (value : Value) : (soleSession value).Reached := by
  refine .tail (.tail (.tail (.tail .refl (.node (some "A"))) (.property "k" (some value)))
    (.derived (e := .node (soleOwner value)) ?_)) (.derived ?_)
  · exact .attachedNode (n := (soleOwner value).plain)
      (p := { soleProperty value with owner := none }) (.tail _ (.head _)) (.head _)
  · exact .propOf (.head _) (.head _)

/-- Clauses, and a REMOVE clause whose target is a negated condition. -/
def removing (before : List Clause) : Statement where
  clauses := before ++
    [.remove (.apply .not [.entity (.property (soleProperty (.string "v")))] none) (.property "k")]
  useParams := true

/-- Behind a MATCH clause that shows the property, the placeholder in the target has its value. -/
theorem get?_params_matched :
    (removing [.matching [.entity (.node (soleOwner (.string "v")))]]).text
        = "MATCH (n0:A \x7bk:$p0\x7d) REMOVE NOT n0.k = $p0.k" ∧
      ∀ v value,
        (v, value) ∈
            (removing [.matching [.entity (.node (soleOwner (.string "v")))]]).phrase.slots →
          (removing [.matching [.entity (.node (soleOwner (.string "v")))]]).params.get? v
            = some value := by
  refine ⟨by decide +kernel, (get?_params_iff (reached_soleSession (.string "v")) ?_).mpr ?_⟩
  · simp [removing, entities, Clause.terms, Term.allEntities, Term.entities, soleSession]
  · intro target removal h
    simp only [removing, List.cons_append, List.nil_append, List.mem_cons, reduceCtorEq,
      Clause.remove.injEq, false_or, List.not_mem_nil, or_false] at h
    obtain ⟨rfl, rfl⟩ := h
    decide +kernel

/-- By itself the REMOVE clause shows a placeholder for which there is no parameter. -/
theorem names_params_removing :
    (soleSession (.string "v")).Reached ∧
      (∀ e ∈ (removing []).entities, e ∈ (soleSession (.string "v")).made) ∧
      (removing []).text = "REMOVE NOT n0.k = $p0.k" ∧
      ("p0", .string "v") ∈ (removing []).phrase.slots ∧ (removing []).params.names = [] := by
  refine ⟨reached_soleSession _, ?_, by decide +kernel, ?_, by decide +kernel⟩
  · simp [removing, entities, Clause.terms, Term.allEntities, Term.entities, soleSession]
  · exact List.mem_singleton_self _

/-! ## Parameters with a placeholder -/

/-- A statement has no parameter without a placeholder exactly if the values of the copies of
nodes that no walk of a path visits, for every path in a pattern or among conditions, have
placeholders elsewhere. -/
theorem placeholders_iff (hsession : session.ReachedWithResets)
    (hmade : ∀ e ∈ s.entities, e ∈ session.made) :
    (∀ v ∈ s.params.names, v ∈ s.phrase.placeholders) ↔
      ∀ g place, (.path g, place) ∈ s.collected → place ≠ .item → ∀ n, g.Unvisited n →
        ∀ a ∈ n.params, a.1 ∈ s.phrase.placeholders := by
  constructor
  · intro h g place hg hplace n hn a ha
    refine h a.1 (mem_names_params_iff.mpr ⟨a.2, List.mem_flatMap.mpr ⟨_, hg, ?_⟩⟩)
    have hparams : a ∈ g.params := hn.mem_params ha
    cases place with
    | pattern => exact hparams
    | condition => exact hparams
    | item => exact absurd rfl hplace
  · intro h v hv
    obtain ⟨value, hvalue⟩ := mem_names_params_iff.mp hv
    obtain ⟨x, hx, hvalue⟩ := List.mem_flatMap.mp hvalue
    obtain ⟨c, hc, hcx⟩ := List.mem_flatMap.mp hx
    have hentity : x.1 ∈ s.entities :=
      List.mem_flatMap.mpr ⟨c, hc, Clause.mem_allEntities_of_mem_collected hcx⟩
    rcases mem_slotsIn_or_unvisited (hsession.owned x.1 (hmade _ hentity)) hvalue with
      hslot | ⟨g, n, hg, hn, ha⟩
    · have hwritten : x ∈ c.written := Clause.mem_written_iff.mpr (.inl hcx)
      have hclause : (v, value) ∈ c.phrase.slots := Clause.mem_slots_iff.mpr ⟨x, hwritten, hslot⟩
      exact List.mem_map.mpr ⟨_, mem_slots_iff.mpr ⟨c, hc, hclause⟩, rfl⟩
    · obtain ⟨e, place⟩ := x
      obtain rfl : e = .path g := hg
      refine h g place hx ?_ n hn (v, value) ha
      rintro rfl
      exact absurd hvalue List.not_mem_nil

namespace Crossed

/-- The property `k` of `n1`, with or without its owner. -/
def property (owner : Option String) : Property :=
  ⟨"p0", "k", some (.number (.integer 1)), none, owner⟩

/-- The triple from `n0` to `n1`. -/
def first : Triple where
  source := { var := "n0", label := some "A" }
  edge := { var := "r0", kind := some "r" }
  target := { var := "n1", label := some "B" }

/-- The triple from `n2` to a copy of `n1` with the property. -/
def second : Triple where
  source := { var := "n2", label := some "C" }
  edge := { var := "r1", kind := some "s" }
  target := { var := "n1", label := some "B", props := [property (some "n1")] }

/-- The path of the two triples, which is written as one walk over the copy without the
property. -/
def path : Path := ⟨"g0", [first, second]⟩

/-- The nodes, the relationships and the property by themselves. -/
def parts : List Entity :=
  [.property (property none), .relationship second.edge, .relationship first.edge,
    .node second.source, .node first.target, .node first.source]

/-- The session in which the path is stitched. -/
def stitched : Session where
  numbering := ⟨3, 2, 1, 1⟩
  made := .path path :: .triple second :: .triple first :: .node second.target :: parts

theorem reached_stitched : stitched.Reached := by
  have hparts : Session.Reached ⟨⟨3, 2, 1, 0⟩, parts⟩ :=
    .tail (.tail (.tail (.tail (.tail (.tail .refl (.node (some "A"))) (.node (some "B")))
      (.node (some "C"))) (.relationship (some "r"))) (.relationship (some "s")))
      (.property "k" (some (.number (.integer 1))))
  have htarget : Session.Reached ⟨⟨3, 2, 1, 0⟩, .node second.target :: parts⟩ :=
    hparts.tail (.derived (.attachedNode (n := first.target) (p := property none)
      (by simp [parts]) (by simp [parts])))
  have hfirst : Session.Reached ⟨⟨3, 2, 1, 0⟩, .triple first :: .node second.target :: parts⟩ :=
    htarget.tail (.derived (.triple (n := first.source) (r := first.edge) (m := first.target)
      (by simp [parts]) (by simp [parts]) (by simp [parts])))
  have hsecond : Session.Reached
      ⟨⟨3, 2, 1, 0⟩, .triple second :: .triple first :: .node second.target :: parts⟩ :=
    hfirst.tail (.derived (.triple (n := second.source) (r := second.edge) (m := second.target)
      (by simp [parts]) (by simp [parts]) (by simp)))
  have hentities : ∀ e ∈ [Entity.triple first, .triple second],
      e ∈ Entity.triple second :: .triple first :: .node second.target :: parts := by simp
  exact hsecond.tail (.path hentities rfl)

/-- A statement that matches the path and further terms. -/
def matching (terms : List Term) : Statement where
  clauses := [.matching (.entity (.path path) :: terms), .returning [.entity (.node first.source)]]
  useParams := true

end Crossed

/-- Next to the path the copy with the property is matched, which shows the value that the walk
leaves out. -/
theorem unvisited_shown :
    (Crossed.matching [.entity (.node Crossed.second.target)]).text
        = "MATCH (n0:A)-[r0:r]->(n1:B)<-[r1:s]-(n2:C), (n1:B \x7bk:$p0\x7d) RETURN n0" ∧
      ∀ g place,
        (.path g, place) ∈ (Crossed.matching [.entity (.node Crossed.second.target)]).collected →
          place ≠ .item → ∀ n, g.Unvisited n → ∀ a ∈ n.params,
            a.1 ∈
              (Crossed.matching [.entity (.node Crossed.second.target)]).phrase.placeholders := by
  refine ⟨by decide +kernel,
    (placeholders_iff Crossed.reached_stitched.withResets ?_).mp (by decide +kernel)⟩
  simp [Crossed.matching, entities, Clause.terms, Term.allEntities, Term.entities, Crossed.stitched,
    Crossed.parts]

/-- The path alone has a parameter for which no placeholder is shown. -/
theorem names_params_crossed :
    Crossed.stitched.Reached ∧
      (∀ e ∈ (Crossed.matching []).entities, e ∈ Crossed.stitched.made) ∧
      (Crossed.matching []).text = "MATCH (n0:A)-[r0:r]->(n1:B)<-[r1:s]-(n2:C) RETURN n0" ∧
      (Crossed.matching []).params.names = ["p0"] ∧
      (Crossed.matching []).phrase.placeholders = [] := by
  refine ⟨Crossed.reached_stitched, ?_, by decide +kernel, by decide +kernel, by decide +kernel⟩
  simp [Crossed.matching, entities, Clause.terms, Term.allEntities, Term.entities, Crossed.stitched,
    Crossed.parts]

/-! ## Inlining -/

/-- For a statement about the entities of a session whose numbering is not reset, if its texts
hold no dollar signs and no quotes and no REMOVE clause has a function for its target: inlining
the parameters into the parameterized text gives the literal text. -/
theorem inlineParameters_textIn (hsession : session.Reached)
    (hmade : ∀ e ∈ s.entities, e ∈ session.made) (htexts : ∀ text ∈ s.texts, IsInert text)
    (htargets : ∀ kind args asName removal,
      .remove (.apply kind args asName) removal ∉ s.clauses) :
    inlineParameters (s.textIn .parameterized) s.params = .ok (s.textIn .literal) := by
  rw [texts, List.forall_mem_append] at htexts
  have hentities : ∀ e ∈ s.entities, e.Inert := fun e he =>
    Entity.inert_of_texts (fun v hv => (hsession.issued (hmade e he) v hv).isName)
      fun text ht => htexts.1 text (List.mem_flatMap.mpr ⟨e, he, ht⟩)
  have hlegible : s.phrase.Legible := legible_phrase hentities htexts.2
  -- the target of a REMOVE clause is written without values
  have hremove : ∀ target removal, .remove target removal ∈ s.clauses →
      ∀ v ∈ (Clause.remove target removal).phrase.placeholders, v ∈ s.params.names := by
    intro target removal hc v hv
    obtain ⟨a, ha, -⟩ := List.mem_map.mp hv
    rw [Clause.slots_remove] at ha
    cases target with
    | entity e =>
        rw [Term.written, List.flatMap_singleton] at ha
        have hnone : a ∈ paramsIn (e, .item) := mem_paramsIn_of_mem_slotsIn ha
        rw [paramsIn, Term.entityParams] at hnone
        exact absurd hnone List.not_mem_nil
    | apply kind args asName => exact absurd hc (htargets kind args asName removal)
    | raw text => exact absurd ha List.not_mem_nil
  exact hlegible.inlineParameters_text fun v value h =>
    get?_params_of_mem_slots hsession hmade hremove h

/-- A statement in which a value with a quote stands in a pattern, behind a function and in an
assignment. -/
def quoting : Statement where
  clauses :=
    [.matching [.entity (.node (soleOwner (.string "it's")))],
      .filter .and [.apply .not [.entity (.property (soleProperty (.string "it's")))] none,
        .raw "n0.size > 3"],
      .assign false [.entity (.property (soleProperty (.string "it's")))],
      .remove (.entity (.node (soleOwner (.string "it's")))) (.label "Old"),
      .returning [.apply .count [.entity (.node (soleOwner (.string "it's")))] (some "total")]]
  terminate := true
  useParams := true

/-- The value is escaped wherever it takes the place of a placeholder. -/
theorem inlineParameters_quoting :
    quoting.text = "MATCH (n0:A \x7bk:$p0\x7d) WHERE NOT n0.k = $p0 AND n0.size > 3 " ++
        "SET n0.k = $p0 REMOVE n0:Old RETURN count(n0) as total;" ∧
      inlineParameters quoting.text quoting.params
        = .ok ("MATCH (n0:A \x7bk:'it\\'s'\x7d) WHERE NOT n0.k = 'it\\'s' AND n0.size > 3 " ++
            "SET n0.k = 'it\\'s' REMOVE n0:Old RETURN count(n0) as total;") := by
  have hinlined := inlineParameters_textIn (s := quoting)
    (reached_soleSession (.string "it's"))
    (by simp [quoting, entities, Clause.terms, Term.allEntities, Term.entities, soleSession])
    (by decide +kernel) (by simp [quoting])
  have hliteral : quoting.textIn .literal
      = "MATCH (n0:A \x7bk:'it\\'s'\x7d) WHERE NOT n0.k = 'it\\'s' AND n0.size > 3 " ++
          "SET n0.k = 'it\\'s' REMOVE n0:Old RETURN count(n0) as total;" := by decide +kernel
  rw [hliteral] at hinlined
  exact ⟨by decide +kernel, hinlined⟩

end Statement

end CypherRoutes
