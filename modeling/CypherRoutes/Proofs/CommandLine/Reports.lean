/-
# What a run reports

A run gives a notice about each request path: the statement and its parameters, the reason why the
path does not compile, or the parameter that has no value. The notice depends on the table, the
settings and the path alone, but a missing parameter ends the run: the paths behind it get no
notice, although a path that does not compile stops nothing (`run_reports`).
-/
import CypherRoutes.CommandLine.Run
import CypherRoutes.Proofs.Route.Inlining

namespace CypherRoutes

namespace CommandLine

/-! ## Notices -/

/-- What a run says about a path. -/
inductive Notice where
  /-- The text of the statement and its parameters. -/
  | answered (text : String) (params : Params)
  /-- The reason why the path does not compile. -/
  | refused (path : String) (fault : RequestFault)
  /-- The parameter that the text needs and that has no value. -/
  | missing (parameter : MissingParameter)

namespace Notice

/-- What a notice says on the output. -/
def output : Notice → String
  | answered text params => line text ++ line (Json.write params.value)
  | refused _ _ => ""
  | missing _ => ""

/-- What a notice says on the error output. -/
def errors : Notice → String
  | answered _ _ => ""
  | refused path fault => line (Json.indented 0 (report path fault))
  | missing parameter => failureText [parameter.message]

/-- Whether a notice is about an answer. -/
def isAnswered : Notice → Bool
  | answered _ _ => true
  | _ => false

/-- Whether a notice is about a missing parameter. -/
def isMissing : Notice → Bool
  | missing _ => true
  | _ => false

/-- The notice about a path that was answered in some way. -/
def ofAnswer (inline : Bool) (path : String) : Except RequestFault Query → Notice
  | .error fault => .refused path fault
  | .ok query =>
    match queryText inline query with
    | .error parameter => .missing parameter
    | .ok text => .answered text query.params

/-- A notice about a path is one about an answer that the table alone gives, or one that answers the
same. -/
def For (inline : Bool) (table : RouteTable) (settings : Settings) (path : String)
    (notice : Notice) : Prop :=
  ∃ answer, SameOutcome Eq Query.Answers answer
      (table.compile settings.options (tokensOf (withoutSlash path))) ∧
    notice = ofAnswer inline path answer

end Notice

/-- The notices about all paths, if none of them ended the run. -/
def notices [PatternEngine] (inline : Bool) (compiler : Compiler) : List String → List Notice
  | [] => []
  | path :: rest =>
    .ofAnswer inline path (compiler.compile path).1 ::
      notices inline (compiler.compile path).2 rest

/-- The notices up to the first one about a missing parameter. -/
def given : List Notice → List Notice
  | [] => []
  | notice :: rest => notice :: if notice.isMissing then [] else given rest

/-- What has been said, with one more notice. -/
def Outcome.add (outcome : Outcome) (notice : Notice) : Outcome where
  exitCode := if notice.isAnswered then outcome.exitCode else 1
  output := outcome.output ++ notice.output
  errors := outcome.errors ++ notice.errors

/-! ## A run, notice by notice -/

/-- A path adds its notice, and unless a parameter is missing the run goes on. -/
theorem runPaths_cons [PatternEngine] (inline : Bool) (compiler : Compiler) (sofar : Outcome)
    (path : String) (rest : List String) {notice : Notice}
    (hnotice : .ofAnswer inline path (compiler.compile path).1 = notice) :
    runPaths inline compiler sofar (path :: rest)
      = if notice.isMissing then sofar.add notice
        else runPaths inline (compiler.compile path).2 (sofar.add notice) rest := by
  rw [runPaths]
  generalize compiler.compile path = result at hnotice ⊢
  obtain ⟨answer, after⟩ := result
  cases answer with
  | error fault =>
      obtain rfl : Notice.refused path fault = notice := hnotice
      simp [Notice.isMissing, Outcome.add, Notice.isAnswered, Notice.output, Notice.errors]
  | ok query =>
      simp only [Notice.ofAnswer] at hnotice ⊢
      cases htext : queryText inline query with
      | error parameter =>
          obtain rfl : Notice.missing parameter = notice := by simpa [htext] using hnotice
          simp [Notice.isMissing, Outcome.add, Notice.isAnswered, Notice.output, Notice.errors]
      | ok text =>
          obtain rfl : Notice.answered text query.params = notice := by simpa [htext] using hnotice
          simp [Notice.isMissing, Outcome.add, Notice.isAnswered, Notice.output, Notice.errors,
            String.append_assoc]

/-- The paths add the notices up to the first missing parameter. -/
theorem runPaths_eq [PatternEngine] (inline : Bool) (compiler : Compiler) (sofar : Outcome)
    (paths : List String) :
    runPaths inline compiler sofar paths
      = (given (notices inline compiler paths)).foldl Outcome.add sofar := by
  -- a missing parameter ends both the run and the notices that are given
  induction paths generalizing compiler sofar with
  | nil => rfl
  | cons path rest ih =>
      rw [runPaths_cons inline compiler sofar path rest rfl, notices, given]
      split_ifs with hmissing
      · rfl
      · exact ih _ _

/-- What a list of notices says. -/
theorem foldl_add (outcome : Outcome) (notices : List Notice) :
    notices.foldl Outcome.add outcome
      = { exitCode := if notices.all Notice.isAnswered then outcome.exitCode else 1
          output := outcome.output ++ String.join (notices.map Notice.output)
          errors := outcome.errors ++ String.join (notices.map Notice.errors) } := by
  induction notices generalizing outcome with
  | nil => simp
  | cons notice rest ih =>
      rw [List.foldl_cons, ih]
      cases hanswered : notice.isAnswered <;>
        simp [Outcome.add, hanswered, String.append_assoc, String.join_cons]

/-! ## The notices that are given -/

/-- A notice about an answer is not about a missing parameter. -/
theorem Notice.isMissing_of_isAnswered {notice : Notice} (h : notice.isAnswered = true) :
    notice.isMissing = false := by
  cases notice with
  | answered text params => rfl
  | refused path fault => rfl
  | missing parameter => cases h

/-- All notices that are given are about answers exactly if all are. -/
theorem all_isAnswered_given (notices : List Notice) :
    (given notices).all Notice.isAnswered = notices.all Notice.isAnswered := by
  induction notices with
  | nil => rfl
  | cons notice rest ih =>
      rw [given, List.all_cons, List.all_cons]
      cases hanswered : notice.isAnswered with
      | false => rfl
      | true =>
          rw [Notice.isMissing_of_isAnswered hanswered, if_neg Bool.false_ne_true, ih]

/-- All notices are given exactly if none but the last is about a missing parameter. -/
theorem given_eq_self_iff {notices : List Notice} :
    given notices = notices ↔ ∀ notice ∈ notices.dropLast, notice.isMissing = false := by
  induction notices with
  | nil => simp [given]
  | cons notice rest ih =>
      cases rest with
      | nil => cases hmissing : notice.isMissing <;> simp [given, hmissing]
      | cons next rest =>
          rw [given, List.cons.injEq, eq_self_iff_true, true_and, List.dropLast_cons_cons,
            List.forall_mem_cons, ← ih]
          cases hmissing : notice.isMissing <;> simp

/-! ## Missing parameters -/

/-- The pieces of a text have a missing parameter exactly if one of them is a placeholder without a
value. -/
theorem substitute_isNone_iff {params : Params} {fragments : List Fragment} :
    (substitute params fragments).toOption = none
      ↔ ∃ name, .placeholder name ∈ fragments ∧ params.get? name = none := by
  induction fragments with
  | nil => simp [substitute, Except.toOption]
  | cons fragment rest ih =>
      have hcons : (substitute params (fragment :: rest)).toOption = none
          ↔ (fragment.text params).toOption = none ∨ (substitute params rest).toOption = none := by
        rw [substitute]
        cases fragment.text params <;> cases substitute params rest <;>
          simp [bind, Except.bind, pure, Except.pure, Except.toOption]
      have htext : (fragment.text params).toOption = none
          ↔ ∃ name, .placeholder name = fragment ∧ params.get? name = none := by
        cases fragment with
        | kept text => simp [Fragment.text, Except.toOption]
        | placeholder name =>
            cases hget : params.get? name <;> simp [Fragment.text, hget, Except.toOption]
      simp only [hcons, htext, ih, List.mem_cons, or_and_right, exists_or]

/-- The notice about an answer is about a missing parameter exactly if parameters are inlined and
the text has a placeholder without a value. -/
theorem Notice.isMissing_ofAnswer_iff {inline : Bool} {path : String} {query : Query} :
    (ofAnswer inline path (.ok query)).isMissing = true
      ↔ inline = true ∧ ∃ name, query.params.get? name = none ∧
        .placeholder name ∈ fragments .outside none query.statement.text.toList := by
  cases inline with
  | false => simp [ofAnswer, queryText, isMissing]
  | true =>
      have hmissing : (∃ name, query.params.get? name = none ∧
          .placeholder name ∈ fragments .outside none query.statement.text.toList)
          ↔ (substitute query.params
            (fragments .outside none query.statement.text.toList)).toOption = none := by
        simp only [substitute_isNone_iff, and_comm]
      rw [hmissing, ofAnswer, queryText, if_pos rfl, Statement.inlined, inlineParameters]
      cases substitute query.params (fragments .outside none query.statement.text.toList) <;>
        simp [Except.map, Except.toOption, isMissing]

/-- A notice is about an answer whose text has a placeholder without a value. -/
def Notice.Lacks (table : RouteTable) (settings : Settings) (path : String) (notice : Notice) :
    Prop :=
  ∃ fresh query name,
    table.compile settings.options (tokensOf (withoutSlash path)) = .ok fresh ∧
      query.Answers fresh ∧ notice = ofAnswer true path (.ok query) ∧
      .placeholder name ∈ fragments .outside none fresh.statement.text.toList ∧
      query.params.get? name = none

/-- Without inlining no parameter is missing. -/
theorem Notice.isMissing_ofAnswer_false (path : String) (answer : Except RequestFault Query) :
    (ofAnswer false path answer).isMissing = false := by
  cases answer with
  | error fault => rfl
  | ok query => rfl

/-! ## Each path by itself -/

namespace Notice.For

variable {inline : Bool} {table : RouteTable} {settings : Settings} {path : String}
  {notice : Notice}

/-- The notice about a path that the table refuses. -/
theorem eq_refused (h : notice.For inline table settings path) {fault : RequestFault}
    (hfault : table.compile settings.options (tokensOf (withoutSlash path)) = .error fault) :
    notice = .refused path fault := by
  obtain ⟨answer, hanswer, rfl⟩ := h
  rw [hfault] at hanswer
  cases hanswer with
  | error heq => rw [heq, ofAnswer]

/-- The notice about a path that the table compiles. -/
theorem exists_query (h : notice.For inline table settings path) {fresh : Compiled}
    (hfresh : table.compile settings.options (tokensOf (withoutSlash path)) = .ok fresh) :
    ∃ query, query.Answers fresh ∧ notice = ofAnswer inline path (.ok query) := by
  obtain ⟨answer, hanswer, rfl⟩ := h
  rw [hfresh] at hanswer
  cases hanswer with
  | ok hsame => exact ⟨_, hsame, rfl⟩

/-- A parameter is missing exactly if parameters are inlined and the text of the answer has a
placeholder without a value. -/
theorem isMissing_iff (h : notice.For inline table settings path) :
    notice.isMissing = true ↔ inline = true ∧ notice.Lacks table settings path := by
  cases hcompile : table.compile settings.options (tokensOf (withoutSlash path)) with
  | error fault =>
      rw [h.eq_refused hcompile]
      constructor
      · intro hmissing
        cases hmissing
      · rintro ⟨-, fresh, query, name, hfresh, -⟩
        rw [hcompile] at hfresh
        cases hfresh
  | ok fresh =>
      obtain ⟨query, hsame, rfl⟩ := h.exists_query hcompile
      constructor
      · intro hmissing
        obtain ⟨rfl, name, hvalue, hname⟩ := isMissing_ofAnswer_iff.mp hmissing
        exact ⟨rfl, fresh, query, name, hcompile, hsame, rfl, hsame.text ▸ hname, hvalue⟩
      · rintro ⟨rfl, fresh', query', name, hfresh, hsame', hnotice, hname, hvalue⟩
        rw [hnotice]
        exact isMissing_ofAnswer_iff.mpr ⟨rfl, name, hvalue, hsame'.text ▸ hname⟩

/-- If the texts of the table hold no dollar signs and no quotes and the statements are written with
parameters, none of these is missing. -/
theorem isMissing_of_inert (h : notice.For inline table settings path)
    (htable : ∀ text ∈ table.texts, IsInert text) (hparams : settings.useParams = true) :
    notice.isMissing = false := by
  cases hcompile : table.compile settings.options (tokensOf (withoutSlash path)) with
  | error fault =>
      rw [h.eq_refused hcompile]
      rfl
  | ok fresh =>
      obtain ⟨query, hsame, rfl⟩ := h.exists_query hcompile
      obtain ⟨visits, -, hof⟩ := RouteTable.compiled_of hcompile
      have hinlined : query.statement.inlined query.params
          = .ok (fresh.statement.phrase.text .literal) :=
        hsame.inlined hof.faithful (RouteTable.legible_of_compile htable hcompile)
          (hof.useParams.trans hparams)
      cases inline with
      | false => exact isMissing_ofAnswer_false path (.ok query)
      | true =>
          rw [ofAnswer, queryText, if_pos rfl, hinlined]
          rfl

end Notice.For

/-- What the relation of two lists says about every item of the second. -/
theorem forall_mem_of_forall₂ {α β : Type} {R : α → β → Prop} {P : β → Prop} {l : List α}
    {l' : List β} (h : List.Forall₂ R l l') (hP : ∀ a b, R a b → P b) : ∀ b ∈ l', P b := by
  induction h with
  | nil => exact fun b hb => absurd hb List.not_mem_nil
  | cons hab _ ih => exact List.forall_mem_cons.mpr ⟨hP _ _ hab, ih⟩

/-- The notice about each path is the one that the table alone gives, whatever was said about other
paths. -/
theorem forall₂_notices [PatternEngine] [LawfulPatternEngine] (inline : Bool)
    {table : RouteTable} {settings : Settings} {compiler : Compiler}
    (h : compiler.Sound table settings) (paths : List String) :
    List.Forall₂ (fun path notice => notice.For inline table settings path) paths
      (notices inline compiler paths) := by
  induction paths generalizing compiler with
  | nil => exact .nil
  | cons path rest ih =>
      exact .cons ⟨(compiler.compile path).1, h.answers path, rfl⟩ (ih (h.compile path))

/-! ## Runs -/

section Run

variable {args : List String} {environment loaded : Environment} {files : Files}
  {arguments : Arguments} {settings : Settings} {table : RouteTable}

/-- A run that finds its settings and its table lists the routes if it is asked to, and then gives
the notices up to the first missing parameter. -/
theorem run_eq [PatternEngine] (henvironment : environmentOf environment files = .ok loaded)
    (hdemand : Arguments.demandOf args = .run arguments)
    (hsettings : settingsOf arguments loaded files = .ok settings)
    (htable : tableOf arguments files = .ok table) {all : List Notice}
    (hall : notices arguments.inline (.ofTable table settings) arguments.paths = all) :
    run args environment files
      = { exitCode := if all.all Notice.isAnswered then 0 else 1
          output := (if arguments.list then String.join (table.routes.map line) else "") ++
            String.join ((given all).map Notice.output)
          errors := String.join ((given all).map Notice.errors) } := by
  have hrun : run args environment files = runArguments arguments loaded files := by
    simp only [run, henvironment, hdemand]
  have hprepared : (do
      let settings ← settingsOf arguments loaded files
      let table ← tableOf arguments files
      return (settings, table)) = Except.ok (settings, table) := by
    rw [hsettings, htable]
    rfl
  rw [hrun, runArguments]
  simp only [hprepared]
  rw [runPaths_eq, hall, foldl_add, all_isAnswered_given, String.empty_append]

/-- Let the engine read keys as they are meant. A run that finds its settings and its table has a
notice for each path, which depends on the table, the settings and the path alone. It succeeds
exactly if every path is answered. It gives the notices in order, but none behind the first missing
parameter, so that all are given exactly if no parameter is missing for a path before the last one.
A parameter is missing exactly if parameters are inlined and the text has a placeholder without a
value: never without inlining, and never in statements with parameters if the texts of the table
hold no dollar signs and no quotes. -/
theorem run_reports [PatternEngine] [LawfulPatternEngine]
    (henvironment : environmentOf environment files = .ok loaded)
    (hdemand : Arguments.demandOf args = .run arguments)
    (hsettings : settingsOf arguments loaded files = .ok settings)
    (htable : tableOf arguments files = .ok table) :
    ∃ all : List Notice,
      List.Forall₂ (fun path notice => notice.For arguments.inline table settings path)
        arguments.paths all ∧
      run args environment files
        = { exitCode := if all.all Notice.isAnswered then 0 else 1
            output := (if arguments.list then String.join (table.routes.map line) else "") ++
              String.join ((given all).map Notice.output)
            errors := String.join ((given all).map Notice.errors) } ∧
      (given all = all ↔ ∀ notice ∈ all.dropLast, notice.isMissing = false) ∧
      List.Forall₂ (fun path notice => notice.isMissing = true ↔
        arguments.inline = true ∧ notice.Lacks table settings path) arguments.paths all ∧
      (arguments.inline = false ∨
          (settings.useParams = true ∧ ∀ text ∈ table.texts, IsInert text) →
        ∀ notice ∈ all, notice.isMissing = false) := by
  have hfor := forall₂_notices arguments.inline (Compiler.sound_ofTable table settings)
    arguments.paths
  refine ⟨_, hfor, run_eq henvironment hdemand hsettings htable rfl, given_eq_self_iff,
    hfor.imp fun _ _ h => h.isMissing_iff, ?_⟩
  rintro (hinline | ⟨hparams, hinert⟩)
  · refine forall_mem_of_forall₂ hfor fun path notice h => ?_
    obtain ⟨answer, -, rfl⟩ := h
    rw [hinline]
    exact Notice.isMissing_ofAnswer_false path answer
  · exact forall_mem_of_forall₂ hfor fun path notice h => h.isMissing_of_inert hinert hparams

end Run

/-! ## A table with one route -/

/-- A folder with the table of `/model/$name`, where the parameter sets the property `handle` of
the model. -/
def modelFiles : Files := fun path =>
  if path = "routes.json" then
    .ok ("\x7b\"model\":\x7b\"_node\":\"model\"," ++
      "\"$name\":\x7b\"_prop\":\"handle\",\"_return\":\"_items\"\x7d\x7d\x7d").toUTF8
  else .error .notFound

/-- The arguments that ask for literal statements with inlined parameters. -/
def literalArguments (paths : List String) : List String :=
  ["--routes", "routes.json", "--literal", "--inline"] ++ paths

/-- What the arguments are read as. -/
def literalRequest (paths : List String) : Arguments where
  routes := "routes.json"
  config := none
  literal := true
  terminate := false
  inline := true
  list := false
  paths := paths

/-- The settings of literal statements. -/
def literalSettings : Settings where
  useParams := false

theorem settingsOf_literalRequest (paths : List String) :
    settingsOf (literalRequest paths) ⟨[]⟩ modelFiles = .ok literalSettings := by
  obtain ⟨settings, hsettings, rfl⟩ := exists_ok_of_observed (f := id) (b := literalSettings)
    (x := settingsOf (literalRequest []) ⟨[]⟩ modelFiles) (by decide +kernel)
  exact hsettings

/-- A quoted literal needs no parameters. -/
theorem inlineParameters_quoted (params : Params) :
    inlineParameters "MATCH (n0:model \x7bhandle:'y'\x7d) RETURN n0" params
      = .ok "MATCH (n0:model \x7bhandle:'y'\x7d) RETURN n0" := by cbv

/-- A path that does not compile and a path behind it, which is answered. -/
theorem run_reports_nowhere :
    ∃ fault params, run (literalArguments ["/nowhere", "/model/y"]) ⟨[]⟩ modelFiles
      = { exitCode := 1
          output := (Notice.answered "MATCH (n0:model \x7bhandle:'y'\x7d) RETURN n0" params).output
          errors := (Notice.refused "/nowhere" fault).errors } := by
  have henvironment : environmentOf ⟨[]⟩ modelFiles = .ok ⟨[]⟩ := rfl
  have hdemand : Arguments.demandOf (literalArguments ["/nowhere", "/model/y"])
      = .run (literalRequest ["/nowhere", "/model/y"]) := by decide +kernel
  obtain ⟨table, htable, hcompiled⟩ := exists_ok_of_observed
    (x := tableOf (literalRequest []) modelFiles)
    (f := fun table => ["/nowhere", "/model/y"].map fun path =>
      ((table.compile literalSettings.options (tokensOf (withoutSlash path))).map
        fun compiled => compiled.statement.text).toOption)
    (b := [none, some "MATCH (n0:model \x7bhandle:'y'\x7d) RETURN n0"]) (by decide +kernel)
  obtain ⟨hnowhere, hy⟩ := List.cons.inj hcompiled
  obtain ⟨fresh, hfresh, htext⟩ := exists_ok_of_observed (List.cons.inj hy).1
  obtain ⟨all, hfor, hrun, -, -, -⟩ :=
    run_reports henvironment hdemand (settingsOf_literalRequest _) htable
  obtain ⟨first, behind, hfirst, hbehind, rfl⟩ := List.forall₂_cons_left_iff.mp hfor
  obtain ⟨second, last, hsecond, hlast, rfl⟩ := List.forall₂_cons_left_iff.mp hbehind
  obtain rfl := List.forall₂_nil_left_iff.mp hlast
  cases hcompile : table.compile literalSettings.options (tokensOf (withoutSlash "/nowhere")) with
  | ok compiled => simp [hcompile, Except.map, Except.toOption] at hnowhere
  | error fault =>
      obtain rfl := hfirst.eq_refused hcompile
      obtain ⟨query, hsame, rfl⟩ := hsecond.exists_query hfresh
      have hsecond : Notice.ofAnswer true "/model/y" (.ok query)
          = .answered "MATCH (n0:model \x7bhandle:'y'\x7d) RETURN n0" query.params := by
        rw [Notice.ofAnswer, queryText, if_pos rfl, Statement.inlined, hsame.text, htext,
          inlineParameters_quoted]
      refine ⟨fault, query.params, hrun.trans ?_⟩
      rw [show (literalRequest ["/nowhere", "/model/y"]).inline = true from rfl, hsecond]
      simp [literalRequest, given, Notice.isMissing, Notice.isAnswered, Notice.output,
        Notice.errors]

/-! ## A run that ends early -/

/-- What is printed for a query that has only texts as parameters. -/
structure Printed where
  text : String
  params : List (String × Option String)
deriving DecidableEq

/-- What is printed for a query. -/
def Printed.ofQuery (query : Query) : Printed where
  text := query.statement.text
  params := query.params.entries.map fun (name, value) => (name, value.string?)

/-- What a new compiler prints for each path by itself. -/
def printedBy (table : RouteTable) (paths : List String) : List (Option Printed) :=
  paths.map fun path =>
    (((Compiler.ofTable table literalSettings).compile path).1.map Printed.ofQuery).toOption

/-- The notice about an answer of which it is known what is printed. -/
theorem Notice.ofAnswer_of_printed {answer : Except RequestFault Query} {text name value : String}
    (h : (answer.map Printed.ofQuery).toOption = some ⟨text, [(name, some value)]⟩)
    (path : String) :
    ofAnswer true path answer
      = match inlineParameters text ⟨[(name, .string value)]⟩ with
        | .error parameter => .missing parameter
        | .ok text => .answered text ⟨[(name, .string value)]⟩ := by
  obtain ⟨query, rfl, hprinted⟩ := exists_ok_of_observed h
  obtain ⟨rfl, hparams⟩ := Printed.mk.inj hprinted
  have hentries : query.params = ⟨[(name, .string value)]⟩ := by
    obtain ⟨⟨key, given⟩, hgiven, hpair⟩ := List.map_eq_singleton_iff.mp hparams
    obtain ⟨rfl, hstring⟩ := Prod.mk.inj hpair
    cases given with
    | string text =>
        obtain rfl := Option.some.inj hstring
        exact congrArg Params.mk hgiven
    | _ => cases hstring
  rw [ofAnswer, queryText, if_pos rfl, Statement.inlined, hentries]

/-- The table, and what it prints for two paths by themselves. -/
theorem table_literal (paths : List String) :
    ∃ table, tableOf (literalRequest paths) modelFiles = .ok table ∧
      printedBy table ["/model/$x", "/model/y"]
        = [some ⟨"MATCH (n0:model \x7bhandle:$x\x7d) RETURN n0", [("p0", some "$x")]⟩,
          some ⟨"MATCH (n0:model \x7bhandle:'y'\x7d) RETURN n0", [("p0", some "y")]⟩] :=
  exists_ok_of_observed (x := tableOf (literalRequest []) modelFiles) (by decide +kernel)

/-- What a run with these arguments leaves behind. -/
theorem run_literal {paths : List String} {table : RouteTable} {all : List Notice}
    (hdemand : Arguments.demandOf (literalArguments paths) = .run (literalRequest paths))
    (htable : tableOf (literalRequest paths) modelFiles = .ok table)
    (hall : notices true (.ofTable table literalSettings) paths = all) :
    run (literalArguments paths) ⟨[]⟩ modelFiles
      = { exitCode := if all.all Notice.isAnswered then 0 else 1
          output := String.join ((given all).map Notice.output)
          errors := String.join ((given all).map Notice.errors) } := by
  have henvironment : environmentOf ⟨[]⟩ modelFiles = .ok ⟨[]⟩ := rfl
  rw [run_eq henvironment hdemand (settingsOf_literalRequest paths) htable hall]
  simp only [literalRequest, Bool.false_eq_true, if_false, String.empty_append]

/-- A request path may stand in the text of a literal statement as a placeholder. The run then ends,
and a path behind it that is answered by itself gets no notice. -/
theorem run_stops_at_missing :
    run (literalArguments ["/model/y"]) ⟨[]⟩ modelFiles
      = { exitCode := 0
          output := "MATCH (n0:model \x7bhandle:'y'\x7d) RETURN n0\n\x7b\"p0\":\"y\"\x7d\n" } ∧
    run (literalArguments ["/model/$x", "/model/y"]) ⟨[]⟩ modelFiles
      = { exitCode := 1, errors := "Error: Missing required parameter: x\n" } := by
  obtain ⟨table, htable, hprinted⟩ := table_literal ["/model/y"]
  obtain ⟨hx, hy⟩ := List.cons.inj hprinted
  have hy := (List.cons.inj hy).1
  have hx : Notice.ofAnswer true "/model/$x"
      ((Compiler.ofTable table literalSettings).compile "/model/$x").1 = .missing ⟨"x"⟩ := by
    rw [Notice.ofAnswer_of_printed hx, show inlineParameters _ _ = _ from by cbv]
  have hy : Notice.ofAnswer true "/model/y"
      ((Compiler.ofTable table literalSettings).compile "/model/y").1
        = .answered "MATCH (n0:model \x7bhandle:'y'\x7d) RETURN n0" ⟨[("p0", .string "y")]⟩ := by
    rw [Notice.ofAnswer_of_printed hy, show inlineParameters _ _ = _ from by cbv]
  have hone : notices true (.ofTable table literalSettings) ["/model/y"]
      = [.answered "MATCH (n0:model \x7bhandle:'y'\x7d) RETURN n0" ⟨[("p0", .string "y")]⟩] := by
    rw [notices, hy, notices]
  -- what the compiler would answer behind the missing parameter plays no part
  obtain ⟨rest, htwo⟩ : ∃ rest, notices true (.ofTable table literalSettings)
      ["/model/$x", "/model/y"] = .missing ⟨"x"⟩ :: rest := ⟨_, by rw [notices, hx]⟩
  constructor
  · have hdemand : Arguments.demandOf (literalArguments ["/model/y"])
        = .run (literalRequest ["/model/y"]) := by decide +kernel
    rw [run_literal hdemand htable hone]
    decide +kernel
  · have hdemand : Arguments.demandOf (literalArguments ["/model/$x", "/model/y"])
        = .run (literalRequest ["/model/$x", "/model/y"]) := by decide +kernel
    rw [run_literal hdemand htable htwo]
    show (⟨1, String.join [""], String.join [failureText ["Missing required parameter: x"]]⟩ :
      Outcome) = _
    decide +kernel

end CommandLine

end CypherRoutes
