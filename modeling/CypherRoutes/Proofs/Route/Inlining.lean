/-
# Inlined answers

The parameters of an answer inlined into its text give the text that the same request has without
parameters (`Compiler.inlined_compile`). Whether a statement uses parameters decides nothing but
the mode of its text, and the answer to a request, from the cache or not, has the text of a legible
statement and the request's own values at the placeholders.
-/
import CypherRoutes.Proofs.Route.Inert
import CypherRoutes.Proofs.Route.Transparency

namespace CypherRoutes

/-! ## Modes -/

/-- A request compiles with parameters as without, to the same statement in the other mode. -/
theorem RouteTable.compile_useParams {table : RouteTable} {options : StatementOptions}
    {tokens : List String} {compiled : Compiled}
    (h : table.compile options tokens = .ok compiled) (useParams : Bool) :
    table.compile { options with useParams } tokens
      = .ok { compiled with statement := { compiled.statement with useParams } } := by
  obtain ⟨visits, v, trail, hvisit, hfollow, hfinish⟩ := compile_eq_ok_iff.mp h
  obtain ⟨ret, entity, terms, func, pathId, hret, hentity, hresolve, rfl⟩ :=
    Trail.finish_eq_ok_iff.mp hfinish
  refine compile_eq_ok_iff.mpr ⟨visits, v, trail, hvisit, hfollow, ?_⟩
  exact Trail.finish_eq_ok_iff.mpr
    ⟨ret, entity, terms, func, pathId, hret, hentity, hresolve, rfl⟩

/-- A statement without parameters has its literal text. -/
theorem Statement.text_literal (s : Statement) :
    { s with useParams := false }.text = s.phrase.text .literal := rfl

/-- A statement with parameters has its parameterized text. -/
theorem Statement.text_parameterized {s : Statement} (h : s.useParams = true) :
    s.text = s.phrase.text .parameterized := by
  rw [text, textIn, mode, h]
  rfl

/-! ## Answers -/

/-- What answers a compiled request has the request's value at every placeholder. -/
theorem Query.Answers.get?_params {q : Query} {fresh : Compiled} (h : q.Answers fresh)
    (hfaithful : fresh.statement.Faithful) {v : String} {value : Value}
    (hslot : (v, value) ∈ fresh.statement.phrase.slots) : q.params.get? v = some value := by
  obtain ⟨found, hfound, hfresh⟩ := h.params v (List.mem_map_of_mem hslot)
  rw [hfaithful.get?_eq v value hslot] at hfresh
  rw [hfound, hfresh]

/-- The parameters of an answer inlined into its text give the literal text of the statement that
the request compiles to, if this statement is legible. -/
theorem Query.Answers.inlined {q : Query} {fresh : Compiled} (h : q.Answers fresh)
    (hfaithful : fresh.statement.Faithful) (hlegible : fresh.statement.phrase.Legible)
    (huse : fresh.statement.useParams = true) :
    q.statement.inlined q.params = .ok (fresh.statement.phrase.text .literal) := by
  rw [Statement.inlined, h.text, Statement.text_parameterized huse]
  exact hlegible.inlineParameters_text fun v value hslot => h.get?_params hfaithful hslot

namespace Compiler

/-- Let the texts of a table hold no dollar signs and no quotes, and let the engine read keys as
they are meant. Whatever was compiled or cleared before, the parameters of an answer inlined into
its text give the text with which a compiler without parameters answers the same request. -/
theorem inlined_compile [PatternEngine] [LawfulPatternEngine] {table : RouteTable}
    (htable : ∀ text ∈ table.texts, IsInert text) {settings literal : Settings}
    (hparams : settings.useParams = true) (hliteral : literal.useParams = false)
    (hterminate : literal.terminate = settings.terminate)
    (calls calls' : List CompilerCall) (path : String) {query : Query}
    (hquery : (((ofTable table settings).run calls).compile path).1 = .ok query) :
    ∃ plain, (((ofTable table literal).run calls').compile path).1 = .ok plain ∧
      query.statement.inlined query.params = .ok plain.statement.text := by
  have hanswers := ((sound_ofTable table settings).run calls).answers path
  obtain ⟨fresh, hfresh, hanswer⟩ := hanswers.exists_ok hquery
  have hoptions : { settings.options with useParams := false } = literal.options := by
    rw [Settings.options, Settings.options, hliteral, hterminate]
  have hcompile : table.compile literal.options (tokensOf (withoutSlash path))
      = .ok { fresh with statement := { fresh.statement with useParams := false } } :=
    hoptions ▸ RouteTable.compile_useParams hfresh false
  have hplain := ((sound_ofTable table literal).run calls').answers path
  rw [hcompile] at hplain
  -- the literal compiler succeeds as well, with the literal text of the same statement
  cases hresult : (((ofTable table literal).run calls').compile path).1 with
  | error fault =>
      rw [hresult] at hplain
      cases hplain
  | ok plain =>
      rw [hresult] at hplain
      cases hplain with
      | ok hplain =>
          obtain ⟨visits, -, hof⟩ := RouteTable.compiled_of hfresh
          refine ⟨plain, rfl, ?_⟩
          rw [hplain.text, Statement.text_literal]
          exact hanswer.inlined hof.faithful (RouteTable.legible_of_compile htable hfresh)
            (hof.useParams.trans hparams)

/-- The table of `/model/$handle`, where the parameter sets the property `handle` of the model. -/
def handled : RouteTable where
  root := ⟨[("model", ⟨{ node := some (.label "model") }, ⟨[], some ("handle",
    ⟨{ prop := some (.ofToken "handle"), ret := some .items }, .empty⟩)⟩⟩)], none⟩

/-- A token from the cache and a token with a quote are inlined as they are written without
parameters. -/
theorem inlined_compile_handled :
    (∃ query,
      (((ofTable handled {}).run [.compile "/model/u"]).compile "/model/w").1 = .ok query ∧
        query.cached = true ∧ query.statement.inlined query.params
          = .ok "MATCH (n0:model \x7bhandle:'w'\x7d) RETURN n0") ∧
    ∃ query, ((ofTable handled {}).compile "/model/it's").1 = .ok query ∧
      query.statement.inlined query.params
        = .ok "MATCH (n0:model \x7bhandle:'it\\'s'\x7d) RETURN n0" := by
  have htable : ∀ text ∈ handled.texts, IsInert text := by decide +kernel
  have hparams : (⟨true, false, {}⟩ : Settings).useParams = true := rfl
  have hliteral : (⟨false, false, {}⟩ : Settings).useParams = false := rfl
  constructor
  · obtain ⟨query, hquery, hcached⟩ := exists_ok_of_observed (f := Query.cached) (b := true)
      (x := (((ofTable handled {}).run [.compile "/model/u"]).compile "/model/w").1)
      (by decide +kernel)
    obtain ⟨plain, hplain, htext⟩ := exists_ok_of_observed (f := fun q => q.statement.text)
      (b := "MATCH (n0:model \x7bhandle:'w'\x7d) RETURN n0")
      (x := (((ofTable handled ⟨false, false, {}⟩).run []).compile "/model/w").1)
      (by decide +kernel)
    obtain ⟨plain', hplain', hinlined⟩ :=
      inlined_compile htable hparams hliteral rfl [.compile "/model/u"] [] "/model/w" hquery
    obtain rfl := Except.ok.inj (hplain'.symm.trans hplain)
    exact ⟨query, hquery, hcached, htext ▸ hinlined⟩
  · obtain ⟨query, hquery, -⟩ := exists_ok_of_observed (f := Query.cached) (b := false)
      (x := (((ofTable handled {}).run []).compile "/model/it's").1) (by decide +kernel)
    obtain ⟨plain, hplain, htext⟩ := exists_ok_of_observed (f := fun q => q.statement.text)
      (b := "MATCH (n0:model \x7bhandle:'it\\'s'\x7d) RETURN n0")
      (x := (((ofTable handled ⟨false, false, {}⟩).run []).compile "/model/it's").1)
      (by decide +kernel)
    obtain ⟨plain', hplain', hinlined⟩ :=
      inlined_compile htable hparams hliteral rfl [] [] "/model/it's" hquery
    obtain rfl := Except.ok.inj (hplain'.symm.trans hplain)
    exact ⟨query, hquery, htext ▸ hinlined⟩

end Compiler

end CypherRoutes
