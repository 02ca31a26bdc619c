/-
# The listing of routes

The routes of a table list what can be requested. A listed route is the text of the segments that
lead to a step with a `_return`, and tokens resolve to such a step exactly if the text of their
segments is listed (`RouteTable.routes_of_ofValue`). The text tells the segments, as these hold no
slash; and a parameter that is written as a token resolves to itself, as no literal segment begins
with a dollar sign.
-/
import CypherRoutes.Proofs.Route.Paths
import CypherRoutes.Proofs.Table.Blocks

namespace CypherRoutes

/-! ## Texts of routes -/

/-- The segment of a visit as a listing has it: the token, or the name of the parameter behind a
dollar sign. -/
def Visit.listed (v : Visit) : String :=
  match v.param with
  | none => v.token
  | some name => "$" ++ name

/-- The segments of a route, each behind a slash. -/
def routeText : (segments : List String) → String
  | [] => ""
  | segment :: rest => "/" ++ segment ++ routeText rest

theorem toList_routeText_cons (segment : String) (rest : List String) :
    (routeText (segment :: rest)).toList = '/' :: (segment.toList ++ (routeText rest).toList) := by
  rw [routeText, String.toList_append, String.toList_append]
  rfl

/-- A word without a slash is one token. -/
theorem splitSlashes_word {word : List Char} (h : '/' ∉ word) : splitSlashes word = [word] := by
  induction word with
  | nil => rfl
  | cons c rest ih =>
      obtain ⟨hc, hrest⟩ := List.ne_and_not_mem_of_not_mem_cons h
      obtain ⟨token, tokens, hsplit, hcons⟩ := splitSlashes_cons (Ne.symm hc) rest
      rw [ih hrest, List.cons.injEq] at hsplit
      rw [hcons, ← hsplit.1, ← hsplit.2]

/-- A word before a slash is the first token. -/
theorem splitSlashes_word_append {word : List Char} (h : '/' ∉ word) (text : List Char) :
    splitSlashes (word ++ '/' :: text) = word :: splitSlashes text := by
  induction word with
  | nil => exact splitSlashes_slash text
  | cons c rest ih =>
      obtain ⟨hc, hrest⟩ := List.ne_and_not_mem_of_not_mem_cons h
      obtain ⟨token, tokens, hsplit, hcons⟩ :=
        splitSlashes_cons (Ne.symm hc) (rest ++ '/' :: text)
      rw [ih hrest, List.cons.injEq] at hsplit
      rw [List.cons_append, hcons, ← hsplit.1, ← hsplit.2]

/-- The text of a route without its first slash splits into the segments. -/
theorem splitSlashes_routeText {segments : List String} (hne : segments ≠ [])
    (hslash : ∀ segment ∈ segments, '/' ∉ segment.toList) :
    ∃ text, (routeText segments).toList = '/' :: text ∧
      (splitSlashes text).map String.ofList = segments := by
  induction segments with
  | nil => exact absurd rfl hne
  | cons segment rest ih =>
      obtain ⟨hsegment, hrest⟩ := List.forall_mem_cons.mp hslash
      refine ⟨_, toList_routeText_cons segment rest, ?_⟩
      by_cases hend : rest = []
      · rw [hend, routeText, String.toList_empty, List.append_nil, splitSlashes_word hsegment,
          List.map_singleton, String.ofList_toList]
      · obtain ⟨text, htext, hsplit⟩ := ih hend hrest
        rw [htext, splitSlashes_word_append hsegment, List.map_cons, hsplit, String.ofList_toList]

/-- Segments without slashes are told by their text. -/
theorem routeText_injective {segments segments' : List String} (hne : segments ≠ [])
    (hne' : segments' ≠ []) (hslash : ∀ segment ∈ segments, '/' ∉ segment.toList)
    (hslash' : ∀ segment ∈ segments', '/' ∉ segment.toList)
    (h : routeText segments = routeText segments') : segments = segments' := by
  obtain ⟨text, htext, hsplit⟩ := splitSlashes_routeText hne hslash
  obtain ⟨text', htext', hsplit'⟩ := splitSlashes_routeText hne' hslash'
  rw [h, htext', List.cons.injEq] at htext
  rw [← hsplit, ← hsplit', htext.2]

namespace Level

/-! ## The tree of a level -/

/-- The segments of a level as a listing has them, with their steps: the literal segments, and the
parameter behind a dollar sign. -/
def children (level : Level) : List (String × Step) :=
  level.literals ++ level.param.toList.map fun (name, step) => ("$" ++ name, step)

theorem sizeOf_next_lt {level : Level} {child : String × Step} (h : child ∈ level.children) :
    sizeOf child.2.next < sizeOf level := by
  obtain ⟨literals, param⟩ := level
  obtain ⟨segment, directives, next⟩ := child
  rw [children, List.mem_append] at h
  rcases h with h | h
  · have hsize := List.sizeOf_lt_of_mem h
    simp only [Prod.mk.sizeOf_spec, Step.mk.sizeOf_spec, Level.mk.sizeOf_spec] at hsize ⊢
    omega
  · obtain ⟨⟨name, directives', next'⟩, hparam, heq⟩ := List.mem_map.mp h
    obtain ⟨-, hstep⟩ := Prod.mk.inj heq
    obtain ⟨rfl, rfl⟩ := Step.mk.inj hstep
    obtain rfl := Option.mem_toList.mp hparam
    simp only [Option.some.sizeOf_spec, Prod.mk.sizeOf_spec, Step.mk.sizeOf_spec,
      Level.mk.sizeOf_spec]
    omega

/-- A property of a level and of all levels beneath it. -/
inductive Everywhere (P : Level → Prop) : Level → Prop where
  | intro {level : Level} : P level → (∀ child ∈ level.children, Everywhere P child.2.next) →
      Everywhere P level

theorem everywhere_of_forall {P : Level → Prop} (h : ∀ level, P level) (level : Level) :
    level.Everywhere P :=
  .intro (h level) fun child _ => everywhere_of_forall h child.2.next
termination_by level
decreasing_by exact sizeOf_next_lt ‹_›

/-- No two segments of a level are the same: of its literal segments, and of its parameter behind
the dollar sign. -/
def Keyed (level : Level) : Prop := level.Everywhere fun l => (l.children.map Prod.fst).Nodup

/-- No segment holds a slash. -/
def Slashless (level : Level) : Prop :=
  level.Everywhere fun l => ∀ child ∈ l.children, '/' ∉ child.1.toList

/-- The segments that lead down the tree to a step, the first of them one given. -/
inductive Through : (child : String × Step) → (segments : List String) → Step → Prop where
  | last (segment : String) (step : Step) : Through (segment, step) [segment] step
  | onward {segment : String} {step target : Step} {child : String × Step} {rest : List String} :
      child ∈ step.next.children → Through child rest target →
      Through (segment, step) (segment :: rest) target

/-- The segments that lead down the tree to a step. -/
def Descends (level : Level) (segments : List String) (target : Step) : Prop :=
  ∃ child ∈ level.children, Through child segments target

theorem Through.exists_cons {child : String × Step} {segments : List String} {target : Step}
    (h : Through child segments target) : ∃ rest, segments = child.1 :: rest := by
  cases h with
  | last => exact ⟨_, rfl⟩
  | onward => exact ⟨_, rfl⟩

variable {level : Level} {segments : List String} {target : Step}

theorem Descends.ne_nil (h : level.Descends segments target) : segments ≠ [] := by
  obtain ⟨child, -, hthrough⟩ := h
  obtain ⟨rest, rfl⟩ := hthrough.exists_cons
  exact List.cons_ne_nil _ _

theorem Descends.slashless (h : level.Descends segments target) (hslash : level.Slashless) :
    ∀ segment ∈ segments, '/' ∉ segment.toList := by
  obtain ⟨child, hmem, hthrough⟩ := h
  induction hthrough generalizing level with
  | last segment step =>
      obtain ⟨hhere, -⟩ := hslash
      exact List.forall_mem_singleton.mpr (hhere _ hmem)
  | onward hnext _ ih =>
      obtain ⟨hhere, hbeneath⟩ := hslash
      exact List.forall_mem_cons.mpr ⟨hhere _ hmem, ih (hbeneath _ hmem) hnext⟩

/-! ## Listed routes -/

/-- The routes through one segment. -/
def routesThrough (start : String) (child : String × Step) : List String :=
  (if child.2.ret.isSome then [start ++ "/" ++ child.1] else []) ++
    child.2.next.routesFrom (start ++ "/" ++ child.1)

theorem routesOf_eq_flatMap (start : String) (literals : List (String × Step)) :
    routesOf start literals = literals.flatMap (routesThrough start) := by
  induction literals with
  | nil => rw [routesOf, List.flatMap_nil]
  | cons entry rest ih =>
      obtain ⟨segment, directives, next⟩ := entry
      rw [routesOf, ih, List.flatMap_cons, routesThrough]

/-- The routes of a level are those through its segments. -/
theorem routesFrom_eq_flatMap (start : String) (level : Level) :
    level.routesFrom start = level.children.flatMap (routesThrough start) := by
  obtain ⟨literals, param⟩ := level
  rw [children, List.flatMap_append, ← routesOf_eq_flatMap]
  cases param with
  | none =>
      rw [routesFrom]
      exact (List.append_nil _).symm
  | some entry =>
      obtain ⟨name, directives, next⟩ := entry
      have hsign : start ++ "/" ++ "$" = start ++ "/$" := String.append_assoc
      have hslash : start ++ "/" ++ ("$" ++ name) = start ++ "/$" ++ name := by
        rw [← String.append_assoc, hsign]
      rw [routesFrom]
      simp only [Option.toList_some, List.map_singleton, List.flatMap_singleton, routesThrough,
        hslash]

theorem append_routeText_singleton (start segment : String) :
    start ++ routeText [segment] = start ++ "/" ++ segment := by
  rw [routeText, routeText, String.append_empty, String.append_assoc]

theorem append_routeText_cons (start segment : String) (rest : List String) :
    start ++ routeText (segment :: rest) = start ++ "/" ++ segment ++ routeText rest := by
  rw [routeText, String.append_assoc, String.append_assoc, String.append_assoc]

/-- A route is listed through a segment if that segment and others lead to a step with a
`_return`. -/
theorem mem_routesThrough_iff {child : String × Step} {start route : String} :
    route ∈ routesThrough start child ↔ ∃ segments target, Through child segments target ∧
      target.ret.isSome ∧ route = start ++ routeText segments := by
  -- by induction on the level behind the segment
  obtain ⟨segment, step⟩ := child
  have hnext := everywhere_of_forall (P := fun _ => True) (fun _ => trivial) step.next
  generalize hlevel : step.next = next at hnext
  induction hnext generalizing segment step start with
  | @intro next _ _ ih =>
      subst hlevel
      rw [routesThrough, routesFrom_eq_flatMap, List.mem_append, List.mem_flatMap]
      constructor
      · rintro (hroute | ⟨child, hmem, hroute⟩)
        · split_ifs at hroute with hret
          · refine ⟨[segment], _, .last _ _, hret, ?_⟩
            rw [append_routeText_singleton, List.mem_singleton.mp hroute]
          · exact absurd hroute List.not_mem_nil
        · obtain ⟨rest, target, hthrough, hret, rfl⟩ :=
            (ih child hmem child.1 child.2 rfl).mp hroute
          exact ⟨segment :: rest, target, .onward hmem hthrough, hret,
            (append_routeText_cons start segment rest).symm⟩
      · rintro ⟨segments, target, hthrough, hret, rfl⟩
        cases hthrough with
        | last =>
            rw [if_pos hret, append_routeText_singleton]
            exact .inl (List.mem_singleton_self _)
        | @onward _ _ _ child rest hmem hthrough =>
            refine .inr ⟨child, hmem, (ih child hmem child.1 child.2 rfl).mpr ?_⟩
            exact ⟨rest, target, hthrough, hret, append_routeText_cons start segment rest⟩

/-- A route is listed if its segments lead to a step with a `_return`. -/
theorem mem_routesFrom_iff {start route : String} :
    route ∈ level.routesFrom start ↔ ∃ segments target, level.Descends segments target ∧
      target.ret.isSome ∧ route = start ++ routeText segments := by
  rw [routesFrom_eq_flatMap, List.mem_flatMap]
  constructor
  · rintro ⟨child, hmem, hroute⟩
    obtain ⟨segments, target, hthrough, h⟩ := mem_routesThrough_iff.mp hroute
    exact ⟨segments, target, ⟨child, hmem, hthrough⟩, h⟩
  · rintro ⟨segments, target, ⟨child, hmem, hthrough⟩, h⟩
    exact ⟨child, hmem, mem_routesThrough_iff.mpr ⟨segments, target, hthrough, h⟩⟩

/-- The text of a route tells its segments, whatever it stands behind. -/
theorem Descends.eq_of_routeText {segments' : List String} {target' : Step} {start : String}
    (h : level.Descends segments target) (h' : level.Descends segments' target')
    (hslash : level.Slashless)
    (htext : start ++ routeText segments = start ++ routeText segments') :
    segments = segments' :=
  routeText_injective h.ne_nil h'.ne_nil (h.slashless hslash) (h'.slashless hslash)
    ((String.append_right_inj start).mp htext)

/-- No route is listed twice. -/
theorem nodup_routesFrom (hkeyed : level.Keyed) (hslash : level.Slashless) (start : String) :
    (level.routesFrom start).Nodup := by
  induction hkeyed generalizing start with
  | @intro level hnodup _ ih =>
      rw [routesFrom_eq_flatMap, List.nodup_flatMap]
      refine ⟨fun child hmem => ?_, ?_⟩
      · obtain ⟨-, hbeneath⟩ := id hslash
        have hrest := ih child hmem (hbeneath child hmem) (start ++ "/" ++ child.1)
        rw [routesThrough]
        split_ifs with hret
        · refine List.nodup_cons.mpr ⟨fun hroute => ?_, hrest⟩
          -- a route that goes on is not the one that ends with the segment
          obtain ⟨rest, target, ⟨next, hnext, hthrough⟩, -, htext⟩ := mem_routesFrom_iff.mp hroute
          have htext : start ++ routeText [child.1] = start ++ routeText (child.1 :: rest) := by
            rw [append_routeText_singleton, append_routeText_cons, ← htext]
          have hlast : level.Descends [child.1] child.2 := ⟨child, hmem, .last _ _⟩
          have honward : level.Descends (child.1 :: rest) target :=
            ⟨child, hmem, .onward hnext hthrough⟩
          obtain ⟨-, rfl⟩ := List.cons.inj (hlast.eq_of_routeText honward hslash htext)
          exact absurd hthrough.exists_cons (by simp)
        · exact hrest
      · refine (List.pairwise_map.mp hnodup).imp_of_mem fun {child child'} hmem hmem' hne => ?_
        refine List.disjoint_left.mpr fun route hroute hroute' => hne ?_
        obtain ⟨segments, target, hthrough, -, rfl⟩ := mem_routesThrough_iff.mp hroute
        obtain ⟨segments', target', hthrough', -, htext⟩ := mem_routesThrough_iff.mp hroute'
        have hdescends : level.Descends segments target := ⟨child, hmem, hthrough⟩
        obtain rfl := hdescends.eq_of_routeText ⟨child', hmem', hthrough'⟩ hslash htext
        obtain ⟨rest, hcons⟩ := hthrough.exists_cons
        obtain ⟨rest', hcons'⟩ := hthrough'.exists_cons
        exact (List.cons.inj (hcons.symm.trans hcons')).1

/-! ## Requests for listed routes -/

theorem mem_children_iff {child : String × Step} :
    child ∈ level.children ↔ child ∈ level.literals ∨
      ∃ name, level.param = some (name, child.2) ∧ child.1 = "$" ++ name := by
  obtain ⟨segment, step⟩ := child
  rw [children, List.mem_append, List.mem_map]
  refine or_congr Iff.rfl ⟨?_, ?_⟩
  · rintro ⟨⟨name, step'⟩, hparam, heq⟩
    obtain ⟨rfl, rfl⟩ := Prod.mk.inj heq
    exact ⟨name, Option.mem_toList.mp hparam, rfl⟩
  · rintro ⟨name, hparam, rfl⟩
    exact ⟨(name, step), Option.mem_toList.mpr hparam, rfl⟩

/-- The segment that a token resolves to is one of the level. -/
theorem mem_children_of_resolve {token : String} {step : Step} {param : Option String}
    (h : level.resolve token = some (step, param)) :
    (Visit.listed ⟨token, step, param⟩, step) ∈ level.children := by
  rw [mem_children_iff]
  rcases resolve_eq_some_iff.mp h with ⟨hlookup, rfl⟩ | ⟨-, name, hparam, rfl⟩
  · obtain ⟨before, after, hliterals, -⟩ := List.lookup_eq_some_iff.mp hlookup
    exact .inl (hliterals ▸ List.mem_append_right before List.mem_cons_self)
  · exact .inr ⟨name, hparam, rfl⟩

/-- A segment of the level resolves, as a token, to its step. -/
theorem exists_resolve (hnodup : (level.children.map Prod.fst).Nodup) {segment : String}
    {step : Step} (h : (segment, step) ∈ level.children) :
    ∃ param, level.resolve segment = some (step, param) := by
  rw [children, List.map_append, List.nodup_append] at hnodup
  obtain ⟨hliterals, -, hdisjoint⟩ := hnodup
  rcases mem_children_iff.mp h with hmem | ⟨name, hparam, rfl⟩
  · exact ⟨none, resolve_eq_some_iff.mpr (.inl ⟨(lookup_eq_some_iff_mem hliterals).mpr hmem, rfl⟩)⟩
  · -- no literal segment is written as the parameter is
    refine ⟨some name, resolve_eq_some_iff.mpr (.inr ⟨?_, name, hparam, rfl⟩)⟩
    refine List.lookup_eq_none_iff.mpr fun entry hentry => bne_iff_ne.mpr (Ne.symm ?_)
    refine hdisjoint _ (List.mem_map_of_mem hentry) _ ?_
    rw [hparam, Option.toList_some, List.map_singleton, List.map_singleton]
    exact List.mem_singleton_self _

/-- The first visit is what the first token resolves to. -/
theorem visit_eq_some_cons_iff {tokens : List String} {v : Visit} {visits : List Visit} :
    level.visit tokens = some (v :: visits) ↔ ∃ rest, tokens = v.token :: rest ∧
      level.resolve v.token = some (v.step, v.param) ∧ v.step.next.visit rest = some visits := by
  cases tokens with
  | nil => simp [visit]
  | cons token rest =>
      rw [visit_cons_eq_some_iff]
      constructor
      · rintro ⟨step, param, following, hresolve, hrest, hvisits⟩
        obtain ⟨rfl, rfl⟩ := List.cons.inj hvisits
        exact ⟨rest, rfl, hresolve, hrest⟩
      · rintro ⟨rest', htokens, hresolve, hrest⟩
        obtain ⟨rfl, rfl⟩ := List.cons.inj htokens
        exact ⟨v.step, v.param, visits, hresolve, hrest, rfl⟩

/-- What tokens resolve to is where their segments lead. -/
theorem descends_of_visit {tokens : List String} {earlier : List Visit} {v : Visit}
    (h : level.visit tokens = some (earlier ++ [v])) :
    level.Descends ((earlier ++ [v]).map Visit.listed) v.step := by
  induction earlier generalizing level tokens with
  | nil =>
      obtain ⟨rest, -, hresolve, -⟩ := visit_eq_some_cons_iff.mp h
      exact ⟨_, mem_children_of_resolve hresolve, .last _ _⟩
  | cons first earlier ih =>
      obtain ⟨rest, -, hresolve, hrest⟩ := visit_eq_some_cons_iff.mp h
      obtain ⟨child, hmem, hthrough⟩ := ih hrest
      exact ⟨_, mem_children_of_resolve hresolve, .onward hmem hthrough⟩

/-- Segments that lead to a step resolve, as tokens, to that step. -/
theorem Descends.exists_visit (h : level.Descends segments target) (hkeyed : level.Keyed) :
    ∃ earlier v, level.visit segments = some (earlier ++ [v]) ∧ v.step = target := by
  obtain ⟨child, hmem, hthrough⟩ := h
  induction hthrough generalizing level with
  | last segment step =>
      obtain ⟨hnodup, -⟩ := hkeyed
      obtain ⟨param, hresolve⟩ := exists_resolve hnodup hmem
      exact ⟨[], ⟨segment, step, param⟩,
        visit_singleton_eq_some_iff.mpr ⟨step, param, hresolve, rfl⟩, rfl⟩
  | @onward segment step _ _ _ hnext _ ih =>
      obtain ⟨hnodup, hbeneath⟩ := hkeyed
      obtain ⟨param, hresolve⟩ := exists_resolve hnodup hmem
      obtain ⟨earlier, v, hvisit, hstep⟩ := ih (hbeneath _ hmem) hnext
      exact ⟨⟨segment, step, param⟩ :: earlier, v,
        visit_cons_eq_some_iff.mpr ⟨step, param, earlier ++ [v], hresolve, hvisit, rfl⟩, hstep⟩

/-- The segments of a level are names of members, and their steps are read from the blocks. -/
theorem Reads.exists_member {members : List (String × Value)}
    (h : Reads members level.literals level.param.toList) {child : String × Step}
    (hchild : child ∈ level.children) :
    ∃ block isParam, (child.1, block) ∈ members ∧
      (Step.ofValue isParam block).outcome = .ok child.2 := by
  rcases mem_children_iff.mp hchild with hmem | ⟨name, hparam, hsegment⟩
  · obtain ⟨block, hblock, -, hstep⟩ := h.mem_literals_iff.mp hmem
    exact ⟨block, false, hblock, hstep⟩
  · obtain ⟨block, hblock, hstep⟩ := h.mem_params_iff.mp (Option.mem_toList.mpr hparam)
    exact ⟨block, true, hsegment ▸ hblock, hstep⟩

/-- They are different if the names are. -/
theorem Reads.nodup_children {members : List (String × Value)}
    (h : Reads members level.literals level.param.toList)
    (hnodup : (members.map Prod.fst).Nodup) : (level.children.map Prod.fst).Nodup := by
  rw [children, List.map_append, List.nodup_append]
  refine ⟨hnodup.sublist h.sublist, ?_, ?_⟩
  · cases level.param with
    | none => exact List.nodup_nil
    | some entry => exact List.nodup_singleton _
  · rintro _ hliteral _ hparam rfl
    -- a literal segment is not written as a parameter is
    obtain ⟨⟨segment, step⟩, hmem, rfl⟩ := List.mem_map.mp hliteral
    obtain ⟨block, -, hkey, -⟩ := h.mem_literals_iff.mp hmem
    obtain ⟨_, hentry, heq⟩ := List.mem_map.mp hparam
    obtain ⟨⟨name, _⟩, -, rfl⟩ := List.mem_map.mp hentry
    have hsegment : "$" ++ name = segment := heq
    rw [← hsegment, Segment.ofKey_param] at hkey
    cases hkey

/-- No two segments of a loaded level are the same, nor of the levels beneath it. -/
theorem Of.keyed {block : Value} (h : Level.Of block level) (hkeys : block.DistinctKeys) :
    level.Keyed := by
  induction hkeys generalizing level with
  | null =>
      cases h
      exact .intro List.nodup_nil fun child hchild => absurd hchild List.not_mem_nil
  | object hnodup hmembers ih =>
      cases h with
      | object hreads =>
          refine .intro (hreads.nodup_children hnodup) fun child hchild => ?_
          obtain ⟨block, isParam, hmem, hstep⟩ := hreads.exists_member hchild
          exact ih _ hmem (Step.of_ofValue (hmembers _ hmem) hstep).2
  | _ => cases h

end Level

/-! ## The listing of a table -/

namespace RouteTable

/-- The routes of a table are what can be requested. Tokens resolve to a step with a `_return`
exactly if the text of their segments is listed; no route is listed twice; and a route is listed for
the segments that lead to a step with a `_return`, which are its tokens and resolve to that step. -/
theorem routes_of_ofValue {value : Value} {table : RouteTable} (hkeys : value.DistinctKeys)
    (h : (ofValue value).outcome = .ok table) (hslash : table.root.Slashless) :
    (∀ tokens earlier v, table.root.visit tokens = some (earlier ++ [v]) →
      (v.step.ret.isSome ↔ routeText ((earlier ++ [v]).map Visit.listed) ∈ table.routes)) ∧
      table.routes.Nodup ∧
      (∀ route, route ∈ table.routes ↔ ∃ segments target, table.root.Descends segments target ∧
        target.ret.isSome ∧ route = routeText segments) ∧
      ∀ segments target, table.root.Descends segments target →
        ∃ text earlier v, (routeText segments).toList = '/' :: text ∧
          table.root.visit ((splitSlashes text).map String.ofList) = some (earlier ++ [v]) ∧
          v.step = target := by
  have hkeyed : table.root.Keyed := (of_ofValue h).keyed (distinctKeys_levelsOf hkeys)
  have hroutes : ∀ route, route ∈ table.routes ↔ ∃ segments target,
      table.root.Descends segments target ∧ target.ret.isSome ∧ route = routeText segments := by
    intro route
    rw [routes, Level.mem_routesFrom_iff]
    simp only [String.empty_append]
  refine ⟨fun tokens earlier v hvisit => ?_, Level.nodup_routesFrom hkeyed hslash "", hroutes, ?_⟩
  · have hdescends := Level.descends_of_visit hvisit
    rw [hroutes]
    constructor
    · exact fun hret => ⟨_, v.step, hdescends, hret, rfl⟩
    · rintro ⟨segments, target, hdescends', hret, htext⟩
      -- the listed step is reached by the same segments, so it is the one that was visited
      obtain rfl := hdescends.eq_of_routeText hdescends' hslash (congrArg ("" ++ ·) htext)
      obtain ⟨first, w, hfirst, hstep⟩ := hdescends.exists_visit hkeyed
      obtain ⟨second, w', hsecond, hstep'⟩ := hdescends'.exists_visit hkeyed
      obtain ⟨-, hlast⟩ := List.append_inj' (Option.some.inj (hfirst.symm.trans hsecond)) rfl
      obtain rfl := List.singleton_inj.mp hlast
      rwa [← hstep, hstep']
  · intro segments target hdescends
    obtain ⟨text, htext, hsplit⟩ :=
      splitSlashes_routeText hdescends.ne_nil (hdescends.slashless hslash)
    obtain ⟨earlier, v, hvisit, hstep⟩ := hdescends.exists_visit hkeyed
    exact ⟨text, earlier, v, htext, hsplit.symm ▸ hvisit, hstep⟩

/-- Models, all of them and by name. -/
def byNameOrAll : Value :=
  .object [("_node", .string "model"), ("_return", .string "_items"),
    ("$name", .object [("_prop", .string "handle"), ("_return", .string "_items")]),
    ("all", .object [("_return", .string "_items")])]

/-- The level of `byNameOrAll`. -/
def levelByNameOrAll : Level :=
  ⟨[("all", { ret := some .items, next := .empty })],
    some ("name", { prop := some (.ofToken "handle"), ret := some .items, next := .empty })⟩

/-- The table of models. -/
def tableByNameOrAll : RouteTable :=
  ⟨[("model", { node := some (.label "model"), ret := some .items, next := levelByNameOrAll })],
    none⟩

/-- A token that is no literal segment resolves to the parameter, which is listed after them. -/
theorem routes_of_ofValue_byNameOrAll :
    (Value.object [("model", byNameOrAll)]).DistinctKeys ∧
      (ofValue (.object [("model", byNameOrAll)])).outcome = .ok tableByNameOrAll ∧
      tableByNameOrAll.root.Slashless ∧
      tableByNameOrAll.routes = ["/model", "/model/all", "/model/$name"] ∧
      tableByNameOrAll.routes.Nodup ∧
      ∃ visits v, tableByNameOrAll.root.visit ["model", "ICDC"] = some (visits ++ [v]) ∧
        (v.step.ret.isSome ↔
          routeText ((visits ++ [v]).map Visit.listed) ∈ tableByNameOrAll.routes) ∧
        (visits ++ [v]).map Visit.listed = ["model", "$name"] := by
  have hblock : byNameOrAll.DistinctKeys := by
    refine .object (by decide) ?_
    have hparam : Value.DistinctKeys
        (.object [("_prop", .string "handle"), ("_return", .string "_items")]) :=
      .object (by decide) (by simpa using ⟨.string _, .string _⟩)
    have hall : Value.DistinctKeys (.object [("_return", .string "_items")]) :=
      .object (by decide) (by simpa using .string _)
    simpa using ⟨.string _, .string _, hparam, hall⟩
  have hkeys : (Value.object [("model", byNameOrAll)]).DistinctKeys :=
    .object (by decide) (by simpa using hblock)
  have hload : (ofValue (.object [("model", byNameOrAll)])).outcome = .ok tableByNameOrAll := rfl
  have hempty : Level.empty.Slashless := .intro (by decide) (List.forall_mem_nil _)
  have hlevel : levelByNameOrAll.Slashless :=
    .intro (by decide)
      (List.forall_mem_cons.mpr ⟨hempty, List.forall_mem_singleton.mpr hempty⟩)
  have hslash : tableByNameOrAll.root.Slashless :=
    .intro (by decide) (List.forall_mem_singleton.mpr hlevel)
  have hroutes := routes_of_ofValue hkeys hload hslash
  refine ⟨hkeys, hload, hslash, rfl, hroutes.2.1, [_], _, rfl, ?_, rfl⟩
  exact hroutes.1 ["model", "ICDC"] _ _ rfl

end RouteTable

end CypherRoutes
