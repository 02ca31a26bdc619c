/-
# Tables and the values that they are loaded from

Following tokens down a table is following them down the value that the table was loaded from. At
an object a token leads to the block of the member that it names, unless it begins as a directive or
a parameter does; and otherwise to the block of the parameter, if there is one. The step of a token
has the directives of the block that the token leads to, read for a parameter level if it leads
there by the parameter, and for a literal level if it does not (`RouteTable.walks_of_ofValue`).
-/
import CypherRoutes.Proofs.Route.Visits
import CypherRoutes.Proofs.Table.Directives

namespace CypherRoutes

/-! ## Walks down a value -/

/-- A token that begins as a directive or a parameter does. -/
def IsReserved (token : String) : Prop :=
  token.toList.head? = some '_' ∨ token.toList.head? = some '$'

namespace Value

/-- Where a token leads from a block: to the block of the member that it names, or to that of the
parameter, which has a name. -/
inductive Leads : Value → (token : String) → Value → (param : Option String) → Prop where
  | literal {members : List (String × Value)} {token : String} {block : Value} :
      ¬ IsReserved token → (token, block) ∈ members → Leads (.object members) token block none
  | param {members : List (String × Value)} {token name : String} {block : Value} :
      IsReserved token ∨ token ∉ members.map Prod.fst → ("$" ++ name, block) ∈ members →
      Leads (.object members) token block (some name)

/-- The blocks that tokens lead to, one after the other, each with the name of the parameter if it
was reached by one. -/
inductive Walks : Value → (tokens : List String) → List (Value × Option String) → Prop where
  | ended (block : Value) : Walks block [] []
  | onward {block inner : Value} {token : String} {param : Option String} {rest : List String}
      {places : List (Value × Option String)} : block.Leads token inner param →
      Walks inner rest places → Walks block (token :: rest) ((inner, param) :: places)

end Value

/-- The directives of a block: those of its members, and none if it is null. -/
inductive Directives.Of (isParam : Bool) : Value → Directives → Prop where
  | null : Of isParam .null {}
  | object {members : List (String × Value)} {d : Directives} : d.ReadFrom isParam members →
      Of isParam (.object members) d

/-- A visit has the directives of the block that was reached, and the parameter that it was reached
by. -/
structure Visit.ParsedFrom (place : Value × Option String) (v : Visit) : Prop where
  param : v.param = place.2
  directives : Directives.Of place.2.isSome place.1 v.step.toDirectives

/-! ## Resolving a token -/

/-- A token resolves to the literal segment of its name, or else to the parameter. -/
theorem Level.resolve_eq_some_iff {level : Level} {token : String} {step : Step}
    {param : Option String} :
    level.resolve token = some (step, param) ↔
      (level.literals.lookup token = some step ∧ param = none) ∨
        (level.literals.lookup token = none ∧ ∃ name, level.param = some (name, step) ∧
          param = some name) := by
  rw [resolve]
  cases level.literals.lookup token with
  | some found => simp [eq_comm]
  | none =>
      simp only [reduceCtorEq, false_and, false_or, true_and, Option.map_eq_some_iff,
        Prod.exists, Prod.mk.injEq]
      constructor
      · rintro ⟨name, found, hparam, rfl, rfl⟩
        exact ⟨name, hparam, rfl⟩
      · rintro ⟨name, hparam, rfl⟩
        exact ⟨name, step, hparam, rfl, rfl⟩

/-! ## Names of members -/

namespace Segment

variable {key : String}

/-- A member is a literal segment unless its name begins as another kind does. -/
theorem ofKey_eq_literal_iff : ofKey key = .literal ↔ ¬ IsReserved key := by
  rw [IsReserved, ofKey]
  split
  · next rest h => simp [h]
  · next rest h => simp [h]
  · next hdirective hparam =>
      cases h : key.toList with
      | nil => simp
      | cons c rest =>
          rw [h] at hdirective hparam
          simp only [List.head?_cons, Option.some.injEq, true_iff, not_or]
          exact ⟨fun hc => hdirective rest (hc ▸ rfl), fun hc => hparam rest (hc ▸ rfl)⟩

/-- A member is a parameter if its name is the parameter's behind a dollar sign. -/
theorem ofKey_eq_param_iff {name : String} : ofKey key = .param name ↔ key = "$" ++ name := by
  have hkey : key = "$" ++ name ↔ key.toList = '$' :: name.toList := by
    rw [← String.toList_inj, String.toList_append]
    rfl
  rw [hkey, ofKey]
  split
  · next rest h => simp [h]
  · next rest h =>
      rw [h, Segment.param.injEq, List.cons.injEq, ← String.toList_inj, String.toList_ofList]
      simp
  · next hparam => simpa using fun h => hparam name.toList h

theorem ofKey_param (name : String) : ofKey ("$" ++ name) = .param name :=
  ofKey_eq_param_iff.mpr rfl

end Segment

/-! ## One level -/

/-- The literal segments and the parameters that the members of a block are read as, each with the
step of its own block. -/
inductive Level.Reads :
    (members : List (String × Value)) → (literals params : List (String × Step)) → Prop where
  | nil : Reads [] [] []
  | directive {key : String} {block : Value} {rest : List (String × Value)}
      {literals params : List (String × Step)} : Segment.ofKey key = .directive →
      Reads rest literals params → Reads ((key, block) :: rest) literals params
  | literal {key : String} {block : Value} {step : Step} {rest : List (String × Value)}
      {literals params : List (String × Step)} : Segment.ofKey key = .literal →
      (Step.ofValue false block).outcome = .ok step → Reads rest literals params →
      Reads ((key, block) :: rest) ((key, step) :: literals) params
  | param {key name : String} {block : Value} {step : Step} {rest : List (String × Value)}
      {literals : List (String × Step)} : Segment.ofKey key = .param name →
      (Step.ofValue true block).outcome = .ok step → Reads rest literals [] →
      Reads ((key, block) :: rest) literals [(name, step)]

namespace Level.Reads

variable {members : List (String × Value)} {literals params : List (String × Step)}

/-- The names of the literal segments are names of members. -/
theorem sublist (h : Reads members literals params) :
    (literals.map Prod.fst).Sublist (members.map Prod.fst) := by
  induction h with
  | nil => exact .slnil
  | directive _ _ ih => exact ih.cons _
  | literal _ _ _ ih => exact ih.cons_cons _
  | param _ _ _ ih => exact ih.cons _

/-- What holds of some block under a name: of the first member's, if it has the name, or of that of
a later member. -/
theorem exists_block_cons_iff {P : Value → Prop} {key key' : String} {block' : Value} :
    (∃ block, (key, block) ∈ (key', block') :: members ∧ P block) ↔
      (key = key' ∧ P block') ∨ ∃ block, (key, block) ∈ members ∧ P block := by
  simp only [List.mem_cons, Prod.mk.injEq, or_and_right, exists_or, and_assoc, exists_and_left,
    exists_eq_left]

/-- A literal segment is a member that is read as one. -/
theorem mem_literals_iff (h : Reads members literals params) {key : String} {step : Step} :
    (key, step) ∈ literals ↔ ∃ block, (key, block) ∈ members ∧ Segment.ofKey key = .literal ∧
      (Step.ofValue false block).outcome = .ok step := by
  induction h with
  | nil => simp
  | directive hkey _ ih =>
      rw [exists_block_cons_iff, ← ih]
      refine ⟨.inr, fun hmem => hmem.resolve_left ?_⟩
      rintro ⟨rfl, hliteral, -⟩
      cases hkey.symm.trans hliteral
  | @literal key' _ step' _ _ _ hkey hstep _ ih =>
      rw [exists_block_cons_iff, ← ih, List.mem_cons, Prod.mk.injEq, hstep, Except.ok.injEq]
      refine or_congr (and_congr_right ?_) Iff.rfl
      rintro rfl
      simp [hkey, eq_comm]
  | param hkey _ _ ih =>
      rw [exists_block_cons_iff, ← ih]
      refine ⟨.inr, fun hmem => hmem.resolve_left ?_⟩
      rintro ⟨rfl, hliteral, -⟩
      cases hkey.symm.trans hliteral

/-- So is a parameter. -/
theorem mem_params_iff (h : Reads members literals params) {name : String} {step : Step} :
    (name, step) ∈ params ↔ ∃ block, ("$" ++ name, block) ∈ members ∧
      (Step.ofValue true block).outcome = .ok step := by
  induction h with
  | nil => simp
  | directive hkey _ ih =>
      rw [exists_block_cons_iff, ← ih]
      refine ⟨.inr, fun hmem => hmem.resolve_left ?_⟩
      rintro ⟨rfl, -⟩
      cases hkey.symm.trans (Segment.ofKey_param name)
  | literal hkey _ _ ih =>
      rw [exists_block_cons_iff, ← ih]
      refine ⟨.inr, fun hmem => hmem.resolve_left ?_⟩
      rintro ⟨rfl, -⟩
      cases hkey.symm.trans (Segment.ofKey_param name)
  | @param key name' _ step' _ _ hkey hstep _ ih =>
      rw [exists_block_cons_iff, ← ih, List.mem_cons, Prod.mk.injEq, hstep, Except.ok.injEq,
        eq_comm (b := key), ← Segment.ofKey_eq_param_iff, hkey, Segment.param.injEq]
      simp [eq_comm]

/-- The block of every literal segment and of every parameter is read as a step. -/
theorem exists_step (h : Reads members literals params) {key : String} {block : Value}
    (hmem : (key, block) ∈ members) :
    (Segment.ofKey key = .literal → ∃ step, (Step.ofValue false block).outcome = .ok step) ∧
      ∀ name, Segment.ofKey key = .param name →
        ∃ step, (Step.ofValue true block).outcome = .ok step := by
  induction h with
  | nil => exact absurd hmem List.not_mem_nil
  | directive hkey _ ih =>
      rcases List.mem_cons.mp hmem with heq | hmem
      · obtain ⟨rfl, rfl⟩ := Prod.mk.inj heq
        rw [hkey]
        exact ⟨(nomatch ·), fun _ h => nomatch h⟩
      · exact ih hmem
  | literal hkey hstep _ ih =>
      rcases List.mem_cons.mp hmem with heq | hmem
      · obtain ⟨rfl, rfl⟩ := Prod.mk.inj heq
        rw [hkey]
        exact ⟨fun _ => ⟨_, hstep⟩, fun _ h => nomatch h⟩
      · exact ih hmem
  | param hkey hstep _ ih =>
      rcases List.mem_cons.mp hmem with heq | hmem
      · obtain ⟨rfl, rfl⟩ := Prod.mk.inj heq
        rw [hkey]
        exact ⟨(nomatch ·), fun _ _ => ⟨_, hstep⟩⟩
      · exact ih hmem

end Level.Reads

/-- What a level gains when more members of its block are read. -/
theorem Level.reads_of_ofMembers {whole : Value} {level level' : Level}
    {members : List (String × Value)}
    (h : (Level.ofMembers whole level members).outcome = .ok level') :
    ∃ literals params, Level.Reads members literals params ∧
      level'.literals = level.literals ++ literals ∧
      level'.param.toList = level.param.toList ++ params := by
  induction members generalizing level with
  | nil =>
      rw [Level.ofMembers] at h
      obtain rfl := Loading.pure_eq_ok_iff.mp h
      exact ⟨[], [], .nil, (List.append_nil _).symm, (List.append_nil _).symm⟩
  | cons member rest ih =>
      obtain ⟨key, block⟩ := member
      rw [Level.ofMembers] at h
      cases hkey : Segment.ofKey key with
      | directive =>
          simp only [hkey] at h
          obtain ⟨literals, params, hreads, hliterals, hparams⟩ := ih h
          exact ⟨literals, params, .directive hkey hreads, hliterals, hparams⟩
      | literal =>
          simp only [hkey] at h
          obtain ⟨step, hstep, h⟩ := Loading.bind_eq_ok_iff.mp h
          obtain ⟨literals, params, hreads, hliterals, hparams⟩ := ih h
          refine ⟨(key, step) :: literals, params, .literal hkey hstep hreads, ?_, hparams⟩
          rw [hliterals, List.append_assoc, List.singleton_append]
      | param name =>
          simp only [hkey] at h
          cases hnone : level.param with
          | some found =>
              simp only [hnone, Option.isSome_some, if_true] at h
              cases h
          | none =>
              simp only [hnone, Option.isSome_none, Bool.false_eq_true, if_false] at h
              obtain ⟨step, hstep, h⟩ := Loading.bind_eq_ok_iff.mp h
              obtain ⟨literals, params, hreads, hliterals, hparams⟩ := ih h
              -- the level has its parameter now, so no later member is another one
              obtain rfl : params = [] := by
                have hlength := congrArg List.length hparams
                have hle : level'.param.toList.length ≤ 1 := Option.length_toList_le
                simp only [Option.toList_some, List.length_append, List.length_singleton]
                  at hlength
                exact List.length_eq_zero_iff.mp (by omega)
              refine ⟨literals, [(name, step)], .param hkey hstep hreads, hliterals, ?_⟩
              rw [hparams]
              rfl

/-- The level of a block: what the members of an object are read as; a null block has no
segments. -/
inductive Level.Of : Value → Level → Prop where
  | null : Of .null .empty
  | object {members : List (String × Value)} {level : Level} :
      Level.Reads members level.literals level.param.toList → Of (.object members) level

theorem Level.of_ofMembers {whole : Value} {level : Level} {members : List (String × Value)}
    (h : (Level.ofMembers whole .empty members).outcome = .ok level) :
    Level.Of (.object members) level := by
  obtain ⟨literals, params, hreads, hliterals, hparams⟩ := Level.reads_of_ofMembers h
  refine .object ?_
  rwa [hliterals, hparams]

/-- A step has the directives and the level of its block. -/
theorem Step.of_ofValue {isParam : Bool} {block : Value} {step : Step}
    (hkeys : block.DistinctKeys) (h : (Step.ofValue isParam block).outcome = .ok step) :
    Directives.Of isParam block step.toDirectives ∧ Level.Of block step.next := by
  unfold Step.ofValue at h
  split at h
  · obtain rfl := Loading.pure_eq_ok_iff.mp h
    exact ⟨.null, .null⟩
  · obtain ⟨d, hd, h⟩ := Loading.bind_eq_ok_iff.mp h
    obtain ⟨next, hnext, h⟩ := Loading.bind_eq_ok_iff.mp h
    obtain rfl := Loading.pure_eq_ok_iff.mp h
    cases hkeys with
    | object hnodup _ =>
        exact ⟨.object (Directives.readFrom_of_ofMembers hnodup hd), Level.of_ofMembers hnext⟩
  · cases h

namespace Level.Of

variable {block : Value} {level : Level}

/-- No literal segment is named by a token that is reserved, or that names no member. -/
theorem lookup_eq_none_iff {members : List (String × Value)}
    (hreads : Reads members level.literals level.param.toList)
    (hnodup : (level.literals.map Prod.fst).Nodup) {token : String} :
    level.literals.lookup token = none ↔
      IsReserved token ∨ token ∉ members.map Prod.fst := by
  have hmem : (∃ step, (token, step) ∈ level.literals) ↔
      ¬ (IsReserved token ∨ token ∉ members.map Prod.fst) := by
    rw [not_or, not_not, ← Segment.ofKey_eq_literal_iff, List.mem_map]
    constructor
    · rintro ⟨step, hstep⟩
      obtain ⟨block, hblock, hliteral, -⟩ := hreads.mem_literals_iff.mp hstep
      exact ⟨hliteral, (token, block), hblock, rfl⟩
    · rintro ⟨hliteral, ⟨_, block⟩, hblock, rfl⟩
      obtain ⟨step, hstep⟩ := (hreads.exists_step hblock).1 hliteral
      exact ⟨step, hreads.mem_literals_iff.mpr ⟨block, hblock, hliteral, hstep⟩⟩
  rw [← not_iff_not, ← hmem, ← Ne, Option.ne_none_iff_exists']
  exact exists_congr fun step => lookup_eq_some_iff_mem hnodup

/-- A token resolves to the step of the block that it leads to. -/
theorem resolve_eq_some_iff (h : Of block level) (hkeys : block.DistinctKeys) {token : String}
    {step : Step} {param : Option String} :
    level.resolve token = some (step, param) ↔ ∃ inner, block.Leads token inner param ∧
      (Step.ofValue param.isSome inner).outcome = .ok step := by
  cases h with
  | null =>
      constructor
      · intro h
        cases h
      · rintro ⟨inner, hleads, -⟩
        cases hleads
  | @object members _ hreads =>
      cases hkeys with
      | object hnodup _ =>
          have hliterals : (level.literals.map Prod.fst).Nodup := hnodup.sublist hreads.sublist
          rw [Level.resolve_eq_some_iff, lookup_eq_some_iff_mem hliterals,
            hreads.mem_literals_iff, lookup_eq_none_iff hreads hliterals]
          constructor
          · rintro (⟨⟨inner, hmem, hliteral, hstep⟩, rfl⟩ | ⟨hparam, name, hsome, rfl⟩)
            · exact ⟨inner, .literal (Segment.ofKey_eq_literal_iff.mp hliteral) hmem, hstep⟩
            · rw [← Option.mem_toList] at hsome
              obtain ⟨inner, hmem, hstep⟩ := hreads.mem_params_iff.mp hsome
              exact ⟨inner, .param hparam hmem, hstep⟩
          · rintro ⟨inner, hleads, hstep⟩
            cases hleads with
            | literal hreserved hmem =>
                exact .inl ⟨⟨inner, hmem, Segment.ofKey_eq_literal_iff.mpr hreserved, hstep⟩, rfl⟩
            | @param _ _ name _ hparam hmem =>
                refine .inr ⟨hparam, name, ?_, rfl⟩
                rw [← Option.mem_toList]
                exact hreads.mem_params_iff.mpr ⟨inner, hmem, hstep⟩

/-- The block that a token leads to is read as a step. -/
theorem exists_step (h : Of block level) {token : String} {inner : Value}
    {param : Option String} (hleads : block.Leads token inner param) :
    ∃ step, (Step.ofValue param.isSome inner).outcome = .ok step := by
  cases h with
  | null => cases hleads
  | object hreads =>
      cases hleads with
      | literal hreserved hmem =>
          exact (hreads.exists_step hmem).1 (Segment.ofKey_eq_literal_iff.mpr hreserved)
      | @param _ _ name _ _ hmem =>
          exact (hreads.exists_step hmem).2 name (Segment.ofKey_param name)

/-- A token leads to one block at most. -/
theorem leads_unique (h : Of block level) (hkeys : block.DistinctKeys) {token : String}
    {inner inner' : Value} {param param' : Option String} (hleads : block.Leads token inner param)
    (hleads' : block.Leads token inner' param') : inner = inner' ∧ param = param' := by
  -- both resolve to one step, so both are the literal segment or both the parameter
  obtain ⟨step, hstep⟩ := h.exists_step hleads
  obtain ⟨step', hstep'⟩ := h.exists_step hleads'
  have hresolve := (h.resolve_eq_some_iff hkeys).mpr ⟨inner, hleads, hstep⟩
  have hresolve' := (h.resolve_eq_some_iff hkeys).mpr ⟨inner', hleads', hstep'⟩
  obtain ⟨-, rfl⟩ := Prod.mk.inj (Option.some.inj (hresolve.symm.trans hresolve'))
  refine ⟨?_, rfl⟩
  cases hkeys with
  | object hnodup _ =>
      cases hleads with
      | literal _ hmem =>
          cases hleads' with
          | literal _ hmem' =>
              rw [← lookup_eq_some_iff_mem hnodup] at hmem hmem'
              exact Option.some.inj (hmem.symm.trans hmem')
      | param _ hmem =>
          cases hleads' with
          | param _ hmem' =>
              rw [← lookup_eq_some_iff_mem hnodup] at hmem hmem'
              exact Option.some.inj (hmem.symm.trans hmem')
  | _ => cases hleads

end Level.Of

/-! ## Following tokens -/

namespace Value

variable {block : Value} {tokens : List String}

/-- So has the block that a token leads to. -/
theorem DistinctKeys.of_leads (h : block.DistinctKeys) {token : String} {inner : Value}
    {param : Option String} (hleads : block.Leads token inner param) : inner.DistinctKeys := by
  cases h with
  | object _ hmembers =>
      cases hleads with
      | literal _ hmem => exact hmembers _ hmem
      | param _ hmem => exact hmembers _ hmem
  | _ => cases hleads

/-- Tokens that resolve lead down the block, to the blocks of their steps. -/
theorem walks_of_visit {level : Level} (h : Level.Of block level) (hkeys : block.DistinctKeys)
    {visits : List Visit} (hvisit : level.visit tokens = some visits) :
    ∃ places, block.Walks tokens places ∧ List.Forall₂ Visit.ParsedFrom places visits := by
  induction tokens generalizing block level visits with
  | nil =>
      obtain rfl := Option.some.inj hvisit
      exact ⟨[], .ended block, .nil⟩
  | cons token rest ih =>
      obtain ⟨step, param, following, hresolve, hrest, rfl⟩ :=
        Level.visit_cons_eq_some_iff.mp hvisit
      obtain ⟨inner, hleads, hstep⟩ := (h.resolve_eq_some_iff hkeys).mp hresolve
      have hinner := hkeys.of_leads hleads
      obtain ⟨hdirectives, hnext⟩ := Step.of_ofValue hinner hstep
      obtain ⟨places, hwalks, hparsed⟩ := ih hnext hinner hrest
      exact ⟨(inner, param) :: places, .onward hleads hwalks, .cons ⟨rfl, hdirectives⟩ hparsed⟩

/-- Tokens that lead down the block resolve. -/
theorem Walks.exists_visit {places : List (Value × Option String)}
    (hwalks : block.Walks tokens places) {level : Level} (h : Level.Of block level)
    (hkeys : block.DistinctKeys) : ∃ visits, level.visit tokens = some visits := by
  induction hwalks generalizing level with
  | ended => exact ⟨[], rfl⟩
  | onward hleads _ ih =>
      obtain ⟨step, hstep⟩ := h.exists_step hleads
      have hresolve := (h.resolve_eq_some_iff hkeys).mpr ⟨_, hleads, hstep⟩
      have hinner := hkeys.of_leads hleads
      obtain ⟨following, hrest⟩ := ih (Step.of_ofValue hinner hstep).2 hinner
      exact ⟨_, Level.visit_cons_eq_some_iff.mpr ⟨step, _, following, hresolve, hrest, rfl⟩⟩

/-- They lead down on one way only. -/
theorem Walks.unique {places places' : List (Value × Option String)}
    (hwalks : block.Walks tokens places) (hwalks' : block.Walks tokens places') {level : Level}
    (h : Level.Of block level) (hkeys : block.DistinctKeys) : places = places' := by
  induction hwalks generalizing level places' with
  | ended =>
      cases hwalks'
      rfl
  | onward hleads _ ih =>
      cases hwalks' with
      | onward hleads' hwalks' =>
          obtain ⟨rfl, rfl⟩ := h.leads_unique hkeys hleads hleads'
          obtain ⟨step, hstep⟩ := h.exists_step hleads
          have hinner := hkeys.of_leads hleads
          rw [ih hwalks' (Step.of_ofValue hinner hstep).2 hinner]

end Value

/-! ## Tables -/

namespace RouteTable

/-- The root of a table is the level of the value's levels. -/
theorem of_ofValue {value : Value} {table : RouteTable}
    (h : (ofValue value).outcome = .ok table) : Level.Of (levelsOf value) table.root := by
  unfold ofValue at h
  split at h
  · next members hlevels =>
      obtain ⟨root, hroot, h⟩ := Loading.bind_eq_ok_iff.mp h
      obtain rfl := Loading.pure_eq_ok_iff.mp h
      rw [hlevels]
      exact Level.of_ofMembers hroot
  · cases h

theorem distinctKeys_levelsOf {value : Value} (h : value.DistinctKeys) :
    (levelsOf value).DistinctKeys := by
  rw [levelsOf]
  cases hpaths : value.get? "paths" with
  | none => exact h
  | some inner =>
      cases h with
      | object hnodup hmembers =>
          exact hmembers _ ((lookup_eq_some_iff_mem hnodup).mp hpaths)
      | _ => cases hpaths

/-- A table follows the value that it was loaded from. Tokens resolve to steps exactly if they lead
down the value from its levels, which they do on one way at most; and each step has the directives
of the block that its token leads to, read as those of a parameter level exactly if it leads there
by the parameter. -/
theorem walks_of_ofValue {value : Value} {table : RouteTable} (hkeys : value.DistinctKeys)
    (h : (ofValue value).outcome = .ok table) (tokens : List String) :
    (∀ visits, table.root.visit tokens = some visits →
      ∃ places, (levelsOf value).Walks tokens places ∧
        List.Forall₂ Visit.ParsedFrom places visits) ∧
      (table.root.visit tokens = none → ∀ places, ¬ (levelsOf value).Walks tokens places) ∧
      ∀ places places', (levelsOf value).Walks tokens places →
        (levelsOf value).Walks tokens places' → places = places' := by
  have hlevels := distinctKeys_levelsOf hkeys
  refine ⟨fun visits hvisit => Value.walks_of_visit (of_ofValue h) hlevels hvisit, ?_, ?_⟩
  · intro hnone places hwalks
    obtain ⟨visits, hvisit⟩ := hwalks.exists_visit (of_ofValue h) hlevels
    cases hnone.symm.trans hvisit
  · exact fun places places' hwalks hwalks' => hwalks.unique hwalks' (of_ofValue h) hlevels

/-- A level that selects a node by name, with a segment `deep` whose block is null. -/
def byName : Value :=
  .object [("_node", .string "model"), ("_return", .string "_items"), ("deep", .null)]

/-- The model, and the level `byName` beneath it. -/
def models : Value :=
  .object [("model", .object [("_node", .string "model"), ("$name", byName)])]

/-- A table under the name `paths`. -/
def wrapped : Value :=
  .object [("other", .null), ("paths", models)]

/-- The token `_node` names no directive: it is a value of the parameter. -/
theorem walks_of_ofValue_wrapped :
    wrapped.DistinctKeys ∧ ∃ table, (ofValue wrapped).outcome = .ok table ∧
      ∃ visits, table.root.visit ["model", "_node", "deep"] = some visits ∧
        visits.map Visit.param = [none, some "name", none] ∧
        ∃ places, (levelsOf wrapped).Walks ["model", "_node", "deep"] places ∧
          List.Forall₂ Visit.ParsedFrom places visits := by
  have hname : byName.DistinctKeys :=
    .object (by decide) (by simpa using ⟨.string _, .string _, .null⟩)
  have hblock : Value.DistinctKeys (.object [("_node", .string "model"), ("$name", byName)]) :=
    .object (by decide) (by simpa using ⟨.string _, hname⟩)
  have hmodels : models.DistinctKeys := .object (by decide) (by simpa using hblock)
  have hkeys : wrapped.DistinctKeys := .object (by decide) (by simpa using ⟨.null, hmodels⟩)
  have hload : (ofValue wrapped).outcome = .ok _ := rfl
  refine ⟨hkeys, _, hload, _, rfl, rfl, ?_⟩
  exact (walks_of_ofValue hkeys hload ["model", "_node", "deep"]).1 _ rfl

end RouteTable

end CypherRoutes
