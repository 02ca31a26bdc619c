/-
# Blocks of a loaded table

Which blocks of a value a loaded table rests on. Every block that is read is one that its own reader
accepts; but inside the block of a node an edge without a node, or a node without an edge, is not
read, and neither are the directives of the outermost level. A name in the tree is empty exactly if
a block that is read is the empty text (`RouteTable.blocks_of_ofValue`).
-/
import CypherRoutes.Proofs.Route.Inert
import CypherRoutes.Proofs.Table.Listing

namespace CypherRoutes

/-! ## Readers of blocks -/

/-- What reads a block. -/
inductive BlockKind where
  | node
  | edge
  | nodeSelector
  | edgeSelector
  | prop
  | ret
  | func
deriving DecidableEq

namespace BlockKind

/-- The reader of its kind accepts the block. -/
def Accepts : BlockKind → Value → Prop
  | node, block => ∃ spec, NodeSpec.ofValue block = .ok spec
  | edge, block => ∃ spec, EdgeSpec.ofValue block = .ok spec
  | nodeSelector, block => ∃ name, Directives.selectorOf .nodeSelector block = .ok name
  | edgeSelector, block => ∃ name, Directives.selectorOf .edgeSelector block = .ok name
  | prop, block => ∃ spec, PropSpec.ofValue block = .ok spec
  | ret, block => ∃ spec, ReturnSpec.ofValue block = .ok spec
  | func, block => ∃ spec, FuncSpec.ofValue block = .ok spec

/-- What reads the directive of a name, on a parameter level or on a literal one. -/
inductive Under : (isParam : Bool) → (key : String) → BlockKind → Prop where
  | node : Under false "_node" node
  | edge : Under false "_edge" edge
  | nodeSelector : Under true "_node" nodeSelector
  | edgeSelector : Under true "_edge" edgeSelector
  | prop (isParam : Bool) : Under isParam "_prop" prop
  | ret (isParam : Bool) : Under isParam "_return" ret
  | func (isParam : Bool) : Under isParam "_func" func

/-- What puts a label, a type or a handle into the tree. -/
def Names (kind : BlockKind) : Prop := kind = node ∨ kind = edge ∨ kind = prop

end BlockKind

/-! ## Blocks of a value -/

namespace Value

/-- The blocks inside the block of a node, itself included, and whether reading it reads them: an
edge is read next to a node, and a node next to an edge. -/
inductive Inside : (outer : Value) → (read : Bool) → BlockKind → (block : Value) → Prop where
  | self (block : Value) : Inside block true .node block
  | prop {members : List (String × Value)} {block : Value} : member? "_prop" members = some block →
      Inside (.object members) true .prop block
  | edge {members : List (String × Value)} {block : Value} : member? "_edge" members = some block →
      Inside (.object members) (member? "_node" members).isSome .edge block
  | node {members : List (String × Value)} {inner block : Value} {read : Bool} {kind : BlockKind} :
      member? "_node" members = some inner → Inside inner read kind block →
      Inside (.object members) ((member? "_edge" members).isSome && read) kind block

/-- The blocks of one level: its directives, and what is inside them. -/
inductive OfLevel (isParam : Bool) (members : List (String × Value)) :
    (read : Bool) → BlockKind → (block : Value) → Prop where
  | directive {key : String} {kind : BlockKind} {block : Value} : (key, block) ∈ members →
      kind.Under isParam key → OfLevel isParam members true kind block
  | inside {key : String} {outer block : Value} {read : Bool} {kind : BlockKind} :
      (key, outer) ∈ members → BlockKind.node.Under isParam key → outer.Inside read kind block →
      OfLevel isParam members read kind block

/-- The blocks of the segments of a level, each with whether it is the parameter's. -/
inductive Child : (level : Value) → (isParam : Bool) → (block : Value) → Prop where
  | literal {members : List (String × Value)} {key : String} {block : Value} :
      Segment.ofKey key = .literal → (key, block) ∈ members → Child (.object members) false block
  | param {members : List (String × Value)} {name : String} {block : Value} :
      ("$" ++ name, block) ∈ members → Child (.object members) true block

/-- The levels at any depth of a value. -/
inductive Beneath : (value : Value) → (isParam : Bool) → (level : Value) → Prop where
  | child {value level : Value} {isParam : Bool} : value.Child isParam level →
      Beneath value isParam level
  | deeper {value inner level : Value} {isParam isParam' : Bool} : value.Child isParam' inner →
      Beneath inner isParam level → Beneath value isParam level

/-- The blocks of all levels of a value, and whether loading reads them: it reads no directives of
the outermost level. -/
inductive HasBlock : (value : Value) → (read : Bool) → BlockKind → (block : Value) → Prop where
  | root {members : List (String × Value)} {read : Bool} {kind : BlockKind} {block : Value} :
      OfLevel false members read kind block → HasBlock (.object members) false kind block
  | beneath {value : Value} {isParam : Bool} {members : List (String × Value)} {read : Bool}
      {kind : BlockKind} {block : Value} : value.Beneath isParam (.object members) →
      OfLevel isParam members read kind block → HasBlock value read kind block

end Value

/-! ## Members that are read -/

section OptionalMember

variable {α : Type} {read : Value → Except TableFault α} {name : String}
  {members : List (String × Value)} {found : Option α}

/-- A member that is there is read. -/
theorem exists_of_optionalMember (h : optionalMember read name members = .ok found)
    {block : Value} (hblock : Value.member? name members = some block) :
    ∃ a, read block = .ok a ∧ found = some a := by
  rw [optionalMember, hblock] at h
  obtain ⟨a, ha, hfound⟩ := map_eq_ok_iff.mp h
  exact ⟨a, ha, hfound.symm⟩

/-- What was read is a member. -/
theorem exists_member_of_optionalMember {a : α}
    (h : optionalMember read name members = .ok (some a)) :
    ∃ block, Value.member? name members = some block ∧ read block = .ok a := by
  rw [optionalMember] at h
  cases hblock : Value.member? name members with
  | none =>
      rw [hblock] at h
      cases h
  | some block =>
      rw [hblock] at h
      obtain ⟨a', ha, heq⟩ := map_eq_ok_iff.mp h
      obtain rfl := Option.some.inj heq
      exact ⟨block, rfl, ha⟩

/-- Where a name is empty exactly if its block is the empty text, so is the name that was read from
a member. -/
theorem empty_mem_optionalMember_iff {get : α → String}
    (hget : ∀ {block : Value} {a : α}, read block = .ok a → (get a = "" ↔ block = .string ""))
    (h : optionalMember read name members = .ok found) :
    "" ∈ (found.map get).toList ↔ Value.member? name members = some (.string "") := by
  cases found with
  | none =>
      have hnone : Value.member? name members ≠ some (.string "") := fun hblock => by
        obtain ⟨a, -, hfound⟩ := exists_of_optionalMember h hblock
        cases hfound
      simp [hnone]
  | some a =>
      obtain ⟨block, hblock, ha⟩ := exists_member_of_optionalMember h
      rw [hblock, Option.some.injEq, ← hget ha, Option.map_some, Option.toList_some,
        List.mem_singleton, eq_comm]

/-- A text that is read as not empty is not. -/
theorem ne_empty_of_nonEmptyText? {text : String}
    (h : nonEmptyText? name members = some text) : text ≠ "" := by
  rw [nonEmptyText?, Option.filter_eq_some_iff] at h
  rintro rfl
  exact absurd h.2 (by decide)

end OptionalMember

/-- The handle of a property is empty exactly if its block is the empty text. -/
theorem PropSpec.handle_eq_empty_iff {block : Value} {spec : PropSpec}
    (h : ofValue block = .ok spec) : spec.handle = "" ↔ block = .string "" := by
  unfold ofValue at h
  split at h
  · obtain rfl := Except.ok.inj h
    simp [handle]
  · next members =>
      split at h
      · next text value htext _ =>
          split_ifs at h
          obtain rfl := Except.ok.inj h
          simp [handle, ne_empty_of_nonEmptyText? htext]
      · cases h
  · cases h

/-- The type of an edge is empty exactly if its block is the empty text. -/
theorem EdgeSpec.kind_eq_empty_iff {block : Value} {spec : EdgeSpec}
    (h : ofValue block = .ok spec) : spec.kind = "" ↔ block = .string "" := by
  unfold ofValue at h
  split at h
  · obtain rfl := Except.ok.inj h
    simp
  · next members =>
      split at h
      · cases h
      · next kind hkind =>
          obtain ⟨direction, -, h⟩ := bind_eq_ok_iff.mp h
          obtain ⟨hint, -, h⟩ := bind_eq_ok_iff.mp h
          obtain rfl := Except.ok.inj h
          simp [ne_empty_of_nonEmptyText? hkind]
  · cases h

/-! ## Blocks of nodes -/

namespace NodeSpec

/-- What the block of a node is read as. -/
inductive Of : Value → NodeSpec → Prop where
  | unlabelled : Of (.string "_var") .unlabelled
  | label {text : String} : text ≠ "_var" → Of (.string text) (.label text)
  | block {members : List (String × Value)} {name : String} {prop : Option PropSpec} :
      nonEmptyText? "_label" members = some name →
      optionalMember PropSpec.ofValue "_prop" members = .ok prop →
      Value.member? "_edge" members = none ∨ Value.member? "_node" members = none →
      Of (.object members) (.block name prop)
  | linked {members : List (String × Value)} {name : String} {prop : Option PropSpec}
      {edgeBlock inner : Value} {edge : EdgeSpec} {target : NodeSpec} :
      nonEmptyText? "_label" members = some name →
      optionalMember PropSpec.ofValue "_prop" members = .ok prop →
      Value.member? "_edge" members = some edgeBlock → EdgeSpec.ofValue edgeBlock = .ok edge →
      Value.member? "_node" members = some inner → Of inner target →
      Of (.object members) (.linked name prop edge target)

/-- The member `_node` is read if there is one. -/
theorem ofMembers_eq (members : List (String × Value)) :
    ofMembers members = (Value.member? "_node" members).map ofValue := by
  induction members with
  | nil => rw [ofMembers, Value.member?, List.lookup_nil, Option.map_none]
  | cons member rest ih =>
      obtain ⟨name, value⟩ := member
      rw [ofMembers, ih, Value.member?, Value.member?, List.lookup_cons]
      by_cases hname : name = "_node"
      · rw [hname]
        rfl
      · rw [beq_eq_false_iff_ne.mpr hname, beq_eq_false_iff_ne.mpr (Ne.symm hname)]
        rfl

/-- A map is read so if the blocks of smaller nodes are. -/
theorem of_object {members : List (String × Value)} {spec : NodeSpec}
    (h : ofValue (.object members) = .ok spec)
    (htarget : ∀ inner target, Value.member? "_node" members = some inner →
      sizeOf target < sizeOf spec → ofValue inner = .ok target → Of inner target) :
    Of (.object members) spec := by
  rw [ofValue] at h
  split at h
  · cases h
  · next name hname =>
      obtain ⟨prop, hprop, h⟩ := bind_eq_ok_iff.mp h
      rw [ofMembers_eq] at h
      cases hedge : Value.member? "_edge" members with
      | none =>
          simp only [hedge] at h
          obtain rfl := Except.ok.inj h
          exact .block hname hprop (.inl hedge)
      | some edgeBlock =>
          cases hnode : Value.member? "_node" members with
          | none =>
              simp only [hedge, hnode, Option.map_none] at h
              obtain rfl := Except.ok.inj h
              exact .block hname hprop (.inr hnode)
          | some inner =>
              simp only [hedge, hnode, Option.map_some] at h
              obtain ⟨edge, hedge', h⟩ := bind_eq_ok_iff.mp h
              obtain ⟨target, hinner, h⟩ := bind_eq_ok_iff.mp h
              obtain rfl := Except.ok.inj h
              refine .linked hname hprop hedge hedge' hnode (htarget inner target hnode ?_ hinner)
              simp only [linked.sizeOf_spec]
              omega

/-- What the reader of nodes reads. -/
theorem of_ofValue {block : Value} {spec : NodeSpec} (h : ofValue block = .ok spec) :
    Of block spec := by
  -- by recursion on what was read, as the node of a map is read into a part of it
  cases block with
  | string text =>
      rw [ofValue] at h
      obtain rfl := Except.ok.inj h
      by_cases htext : text = "_var"
      · subst htext
        exact .unlabelled
      · rw [if_neg (by simpa using htext)]
        exact .label htext
  | object members => exact of_object h fun inner target _ _ hinner => of_ofValue hinner
  | _ => cases h
termination_by sizeOf spec

/-- The reader of nodes reads every block so. -/
theorem Of.ofValue_eq {block : Value} {spec : NodeSpec} (h : Of block spec) :
    ofValue block = .ok spec := by
  induction h with
  | unlabelled => rfl
  | label htext => rw [ofValue, if_neg (by simpa using htext)]
  | @block members name prop hname hprop hlone =>
      rw [ofValue, hname, ofMembers_eq]
      simp only [hprop]
      rcases hlone with hedge | hnode
      · rw [hedge]
        rfl
      · rw [hnode]
        cases Value.member? "_edge" members <;> rfl
  | linked hname hprop hedge hedge' hnode _ ih =>
      rw [ofValue, hname, ofMembers_eq]
      simp only [hprop, hedge, hnode, Option.map_some, hedge', ih]
      rfl

/-- Every block that is read inside the block of a node is accepted. -/
theorem Of.accepts {outer : Value} {spec : NodeSpec} (h : Of outer spec) {read : Bool}
    {kind : BlockKind} {block : Value} (hinside : outer.Inside read kind block)
    (hread : read = true) : kind.Accepts block := by
  induction hinside generalizing spec with
  | self block => exact ⟨spec, h.ofValue_eq⟩
  | prop hprop' =>
      cases h with
      | block _ hprop _ => exact (exists_of_optionalMember hprop hprop').imp fun _ => And.left
      | linked _ hprop _ _ _ _ =>
          exact (exists_of_optionalMember hprop hprop').imp fun _ => And.left
  | edge hedge' =>
      cases h with
      | block _ _ hlone => simp_all
      | linked _ _ hedge hread' _ _ =>
          obtain rfl := Option.some.inj (hedge'.symm.trans hedge)
          exact ⟨_, hread'⟩
  | node hnode' _ ih =>
      rw [Bool.and_eq_true] at hread
      cases h with
      | block _ _ hlone => simp_all
      | linked _ _ _ _ hnode htarget =>
          obtain rfl := Option.some.inj (hnode'.symm.trans hnode)
          exact ih htarget hread.2

/-- The empty text inside a text. -/
theorem inside_string_iff {text : String} :
    (∃ kind, (Value.string text).Inside true kind (.string "")) ↔ "" = text := by
  constructor
  · rintro ⟨kind, hinside⟩
    cases hinside
    rfl
  · rintro rfl
    exact ⟨.node, .self _⟩

/-- The empty text inside a map: as its property, or next to a node as its edge, or inside a node
that is next to an edge. -/
theorem inside_object_iff {members : List (String × Value)} :
    (∃ kind, (Value.object members).Inside true kind (.string "")) ↔
      Value.member? "_prop" members = some (.string "") ∨
      ((Value.member? "_node" members).isSome ∧
        Value.member? "_edge" members = some (.string "")) ∨
      ∃ inner, Value.member? "_node" members = some inner ∧
        (Value.member? "_edge" members).isSome ∧
        ∃ kind, inner.Inside true kind (.string "") := by
  constructor
  · rintro ⟨kind, hinside⟩
    obtain ⟨read, hread, hinside⟩ :
        ∃ read, read = true ∧ (Value.object members).Inside read kind (.string "") :=
      ⟨true, rfl, hinside⟩
    cases hinside with
    | prop hprop => exact .inl hprop
    | edge hedge => exact .inr (.inl ⟨hread, hedge⟩)
    | node hnode hinner =>
        obtain ⟨hedge, rfl⟩ := Bool.and_eq_true_iff.mp hread
        exact .inr (.inr ⟨_, hnode, hedge, kind, hinner⟩)
  · rintro (hprop | ⟨hnode, hedge⟩ | ⟨inner, hnode, hedge, kind, hinner⟩)
    · exact ⟨.prop, .prop hprop⟩
    · exact ⟨.edge, hnode ▸ .edge hedge⟩
    · have hinside := Value.Inside.node hnode hinner
      rw [hedge, Bool.true_and] at hinside
      exact ⟨kind, hinside⟩

/-- A label, a type or a handle of what a node's block is read as is empty exactly if a block that
is read inside it is the empty text. -/
theorem Of.empty_mem_texts_iff {outer : Value} {spec : NodeSpec} (h : Of outer spec) :
    "" ∈ spec.texts ↔ ∃ kind, outer.Inside true kind (.string "") := by
  induction h with
  | unlabelled => simp [inside_string_iff, texts]
  | label htext => rw [inside_string_iff, texts, List.mem_singleton]
  | block hname hprop hlone =>
      have hnone := ne_empty_of_nonEmptyText? hname
      rw [inside_object_iff, texts, List.mem_cons,
        empty_mem_optionalMember_iff PropSpec.handle_eq_empty_iff hprop]
      rcases hlone with hlone | hlone <;> simp [hlone, hnone.symm]
  | linked hname hprop hedge hread hnode _ ih =>
      have hnone := ne_empty_of_nonEmptyText? hname
      rw [inside_object_iff, texts, List.mem_cons, List.mem_append, List.mem_cons,
        empty_mem_optionalMember_iff PropSpec.handle_eq_empty_iff hprop, ih, hedge, hnode,
        Option.some.injEq, ← EdgeSpec.kind_eq_empty_iff hread, eq_comm (a := "") (b := _)]
      simp [hnone]

end NodeSpec

/-! ## Blocks of levels -/

namespace Value

/-- Only nodes, edges and properties are inside the block of a node. -/
theorem Inside.names {outer block : Value} {read : Bool} {kind : BlockKind}
    (h : outer.Inside read kind block) : kind.Names := by
  induction h with
  | self => exact .inl rfl
  | prop => exact .inr (.inr rfl)
  | edge => exact .inr (.inl rfl)
  | node _ _ ih => exact ih

/-- The empty text where a level has a name: inside the node that it builds, or as its edge or its
property. -/
theorem ofLevel_empty_iff {isParam : Bool} {members : List (String × Value)} :
    (∃ kind : BlockKind, kind.Names ∧ OfLevel isParam members true kind (.string "")) ↔
      (isParam = false ∧
        ∃ outer, ("_node", outer) ∈ members ∧ ∃ kind, outer.Inside true kind (.string "")) ∨
      (isParam = false ∧ ("_edge", .string "") ∈ members) ∨ ("_prop", .string "") ∈ members := by
  constructor
  · rintro ⟨kind, hnames, hblock⟩
    cases hblock with
    | directive hmem hunder =>
        cases hunder with
        | node => exact .inl ⟨rfl, _, hmem, .node, .self _⟩
        | edge => exact .inr (.inl ⟨rfl, hmem⟩)
        | prop => exact .inr (.inr hmem)
        | _ => simp [BlockKind.Names] at hnames
    | inside hmem hunder hinside =>
        cases hunder
        exact .inl ⟨rfl, _, hmem, kind, hinside⟩
  · rintro (⟨rfl, outer, hmem, kind, hinside⟩ | ⟨rfl, hmem⟩ | hmem)
    · exact ⟨kind, hinside.names, .inside hmem .node hinside⟩
    · exact ⟨.edge, .inr (.inl rfl), .directive hmem .edge⟩
    · exact ⟨.prop, .inr (.inr rfl), .directive hmem (.prop isParam)⟩

end Value

namespace Directives

/-- The labels, types and handles that the directives of a step put into the tree. -/
def names (d : Directives) : List String :=
  d.node.toList.flatMap NodeSpec.texts ++
    ((d.edge.map EdgeSpec.kind).toList ++ (d.prop.map PropSpec.handle).toList)

namespace ReadFrom

variable {isParam : Bool} {members : List (String × Value)} {d : Directives}

/-- Every block of a level that is read is accepted. -/
theorem accepts (h : d.ReadFrom isParam members) (hnodup : (members.map Prod.fst).Nodup)
    {kind : BlockKind} {block : Value} (hblock : Value.OfLevel isParam members true kind block) :
    kind.Accepts block := by
  have hmember : ∀ {key : String} {block : Value}, (key, block) ∈ members →
      Value.member? key members = some block := (lookup_eq_some_iff_mem hnodup).mpr
  cases hblock with
  | directive hmem hunder =>
      have hfound := hmember hmem
      cases hunder with
      | node => exact (exists_of_optionalMember h.node hfound).imp fun _ => And.left
      | edge => exact (exists_of_optionalMember h.edge hfound).imp fun _ => And.left
      | nodeSelector => exact (exists_of_optionalMember h.nodeSelector hfound).imp fun _ => And.left
      | edgeSelector => exact (exists_of_optionalMember h.edgeSelector hfound).imp fun _ => And.left
      | prop => exact (exists_of_optionalMember h.prop hfound).imp fun _ => And.left
      | ret => exact (exists_of_optionalMember h.ret hfound).imp fun _ => And.left
      | func => exact (exists_of_optionalMember h.func hfound).imp fun _ => And.left
  | inside hmem hunder hinside =>
      cases hunder
      obtain ⟨spec, hspec, -⟩ := exists_of_optionalMember h.node (hmember hmem)
      exact (NodeSpec.of_ofValue hspec).accepts hinside rfl

/-- A label, a type or a handle of a level is empty exactly if a block that is read for it is the
empty text. -/
theorem empty_mem_names_iff (h : d.ReadFrom isParam members)
    (hnodup : (members.map Prod.fst).Nodup) :
    "" ∈ d.names ↔
      ∃ kind : BlockKind, kind.Names ∧ Value.OfLevel isParam members true kind (.string "") := by
  have hmember : ∀ {key : String} {block : Value}, Value.member? key members = some block ↔
      (key, block) ∈ members := lookup_eq_some_iff_mem hnodup
  have hprop := empty_mem_optionalMember_iff PropSpec.handle_eq_empty_iff h.prop
  rw [Value.ofLevel_empty_iff, names, List.mem_append, List.mem_append, hprop, hmember]
  cases isParam with
  | true =>
      obtain hnode := Except.ok.inj h.node
      obtain hedge := Except.ok.inj h.edge
      simp [← hnode, ← hedge]
  | false =>
      have hedge := empty_mem_optionalMember_iff EdgeSpec.kind_eq_empty_iff h.edge
      have hnode : "" ∈ d.node.toList.flatMap NodeSpec.texts ↔
          ∃ outer, ("_node", outer) ∈ members ∧ ∃ kind, outer.Inside true kind (.string "") := by
        simp only [List.mem_flatMap, Option.mem_toList]
        constructor
        · rintro ⟨spec, hspec, htext⟩
          obtain ⟨outer, houter, hread⟩ := exists_member_of_optionalMember (hspec ▸ h.node)
          exact ⟨outer, hmember.mp houter,
            (NodeSpec.of_ofValue hread).empty_mem_texts_iff.mp htext⟩
        · rintro ⟨outer, houter, hinside⟩
          obtain ⟨spec, hread, hspec⟩ := exists_of_optionalMember h.node (hmember.mpr houter)
          exact ⟨spec, hspec, (NodeSpec.of_ofValue hread).empty_mem_texts_iff.mpr hinside⟩
      simp only [hnode, hedge, hmember, true_and]

end ReadFrom

end Directives

/-! ## Levels of a value and levels of a tree -/

namespace Level

variable {value : Value} {level : Level}

/-- The block of a segment is read as the step of a segment of the tree. -/
theorem Of.exists_child (h : Level.Of value level) {isParam : Bool} {block : Value}
    (hchild : value.Child isParam block) :
    ∃ child ∈ level.children, (Step.ofValue isParam block).outcome = .ok child.2 := by
  cases h with
  | null => cases hchild
  | object hreads =>
      cases hchild with
      | @literal _ key _ hkey hmem =>
          obtain ⟨step, hstep⟩ := (hreads.exists_step hmem).1 hkey
          have hliteral := hreads.mem_literals_iff.mpr ⟨block, hmem, hkey, hstep⟩
          exact ⟨(key, step), mem_children_iff.mpr (.inl hliteral), hstep⟩
      | @param _ name _ hmem =>
          obtain ⟨step, hstep⟩ := (hreads.exists_step hmem).2 name (Segment.ofKey_param name)
          have hparam := hreads.mem_params_iff.mpr ⟨block, hmem, hstep⟩
          exact ⟨("$" ++ name, step),
            mem_children_iff.mpr (.inr ⟨name, Option.mem_toList.mp hparam, rfl⟩), hstep⟩

/-- The step of a segment of the tree is read from the block of a segment. -/
theorem Of.exists_block (h : Level.Of value level) {child : String × Step}
    (hchild : child ∈ level.children) :
    ∃ isParam block, value.Child isParam block ∧
      (Step.ofValue isParam block).outcome = .ok child.2 := by
  cases h with
  | null => exact absurd hchild List.not_mem_nil
  | object hreads =>
      rcases mem_children_iff.mp hchild with hmem | ⟨name, hparam, -⟩
      · obtain ⟨block, hblock, hkey, hstep⟩ := hreads.mem_literals_iff.mp hmem
        exact ⟨false, block, .literal hkey hblock, hstep⟩
      · obtain ⟨block, hblock, hstep⟩ :=
          hreads.mem_params_iff.mp (Option.mem_toList.mpr hparam)
        exact ⟨true, block, .param hblock, hstep⟩

end Level

/-- If no object in a value has two members of one name, none in the block of a segment has. -/
theorem Value.DistinctKeys.of_child {value : Value} (h : value.DistinctKeys) {isParam : Bool}
    {block : Value} (hchild : value.Child isParam block) : block.DistinctKeys := by
  cases h with
  | object _ hmembers =>
      cases hchild with
      | literal _ hmem => exact hmembers _ hmem
      | param hmem => exact hmembers _ hmem
  | _ => cases hchild

namespace Level

variable {value : Value} {level : Level}

/-- Every level of a value is read as a step of the tree. -/
theorem Of.exists_descends (h : Level.Of value level) (hkeys : value.DistinctKeys)
    {isParam : Bool} {block : Value} (hbeneath : value.Beneath isParam block) :
    block.DistinctKeys ∧ ∃ segments step, level.Descends segments step ∧
      (Step.ofValue isParam block).outcome = .ok step := by
  induction hbeneath generalizing level with
  | child hchild =>
      obtain ⟨child, hmem, hstep⟩ := h.exists_child hchild
      exact ⟨hkeys.of_child hchild, [child.1], child.2, ⟨child, hmem, .last _ _⟩, hstep⟩
  | deeper hchild _ ih =>
      obtain ⟨child, hmem, hstep⟩ := h.exists_child hchild
      have hinner := hkeys.of_child hchild
      obtain ⟨hblock, segments, step, ⟨next, hnext, hthrough⟩, hread⟩ :=
        ih (Step.of_ofValue hinner hstep).2 hinner
      exact ⟨hblock, child.1 :: segments, step, ⟨child, hmem, .onward hnext hthrough⟩, hread⟩

/-- Every step of the tree is read from a level of the value. -/
theorem Of.exists_beneath (h : Level.Of value level) (hkeys : value.DistinctKeys)
    {segments : List String} {target : Step} (hdescends : level.Descends segments target) :
    ∃ isParam block, value.Beneath isParam block ∧ block.DistinctKeys ∧
      (Step.ofValue isParam block).outcome = .ok target := by
  obtain ⟨child, hmem, hthrough⟩ := hdescends
  induction hthrough generalizing value level with
  | last segment step =>
      obtain ⟨isParam, block, hchild, hstep⟩ := h.exists_block hmem
      exact ⟨isParam, block, .child hchild, hkeys.of_child hchild, hstep⟩
  | onward hnext _ ih =>
      obtain ⟨isParam, block, hchild, hstep⟩ := h.exists_block hmem
      have hinner := hkeys.of_child hchild
      obtain ⟨isParam', block', hbeneath, hblock, hread⟩ :=
        ih (Step.of_ofValue hinner hstep).2 hinner hnext
      exact ⟨isParam', block', .deeper hchild hbeneath, hblock, hread⟩

end Level

/-- The directives of a step that is read from a map. -/
theorem Step.readFrom_of_ofValue {isParam : Bool} {members : List (String × Value)} {step : Step}
    (hkeys : (Value.object members).DistinctKeys)
    (h : (Step.ofValue isParam (.object members)).outcome = .ok step) :
    (members.map Prod.fst).Nodup ∧ step.toDirectives.ReadFrom isParam members := by
  cases (Step.of_ofValue hkeys h).1 with
  | object hfrom =>
      cases hkeys with
      | object hnodup _ => exact ⟨hnodup, hfrom⟩

/-! ## Tables -/

namespace RouteTable

variable {value : Value} {table : RouteTable}

/-- Every block that loading reads is accepted. -/
theorem accepts_of_hasBlock {level : Level} (h : Level.Of value level)
    (hkeys : value.DistinctKeys) {kind : BlockKind} {block : Value} {read : Bool}
    (hblock : value.HasBlock read kind block) (hread : read = true) : kind.Accepts block := by
  cases hblock with
  | root => cases hread
  | beneath hbeneath hof =>
      obtain ⟨hdistinct, segments, step, -, hstep⟩ := h.exists_descends hkeys hbeneath
      obtain ⟨hnodup, hfrom⟩ := Step.readFrom_of_ofValue hdistinct hstep
      subst hread
      exact hfrom.accepts hnodup hof

/-- A name of the tree is empty exactly if a block that loading reads is the empty text. -/
theorem empty_mem_names_iff {level : Level} (h : Level.Of value level)
    (hkeys : value.DistinctKeys) :
    (∃ segments target, level.Descends segments target ∧ "" ∈ target.toDirectives.names) ↔
      ∃ kind : BlockKind, kind.Names ∧ value.HasBlock true kind (.string "") := by
  constructor
  · rintro ⟨segments, target, hdescends, hempty⟩
    obtain ⟨isParam, block, hbeneath, hdistinct, hstep⟩ := h.exists_beneath hkeys hdescends
    obtain ⟨hof, -⟩ := Step.of_ofValue hdistinct hstep
    generalize target.toDirectives = d at hof hempty
    cases hof with
    | null => exact absurd hempty List.not_mem_nil
    | object hfrom =>
        cases hdistinct with
        | object hnodup _ =>
            obtain ⟨kind, hnames, hof⟩ := (hfrom.empty_mem_names_iff hnodup).mp hempty
            exact ⟨kind, hnames, .beneath hbeneath hof⟩
  · rintro ⟨kind, hnames, hblock⟩
    cases hblock with
    | beneath hbeneath hof =>
        obtain ⟨hdistinct, segments, step, hdescends, hstep⟩ := h.exists_descends hkeys hbeneath
        obtain ⟨hnodup, hfrom⟩ := Step.readFrom_of_ofValue hdistinct hstep
        have hempty := (hfrom.empty_mem_names_iff hnodup).mpr ⟨kind, hnames, hof⟩
        exact ⟨segments, step, hdescends, hempty⟩

/-- Every block that loading reads is one that its own reader accepts. No label, type or handle of
the tree is empty exactly if no block that names one, and that loading reads, is the empty text. -/
theorem blocks_of_ofValue (hkeys : value.DistinctKeys)
    (h : (ofValue value).outcome = .ok table) :
    (∀ kind block, (levelsOf value).HasBlock true kind block → kind.Accepts block) ∧
      ((∀ segments target, table.root.Descends segments target →
          ∀ name ∈ target.toDirectives.names, name ≠ "") ↔
        ∀ kind : BlockKind, kind.Names → ¬ (levelsOf value).HasBlock true kind (.string "")) := by
  have hlevels := distinctKeys_levelsOf hkeys
  refine ⟨fun kind block hblock => accepts_of_hasBlock (of_ofValue h) hlevels hblock rfl, ?_⟩
  have hempty := not_congr (empty_mem_names_iff (of_ofValue h) hlevels)
  simpa [List.forall_mem_ne'] using hempty

/-- Models with the nodes that they have. -/
def withNodes : List (String × Value) :=
  [("_label", .string "model"), ("_edge", .string "has_node"), ("_node", .string "node")]

/-- Such models, and models by a property with an empty handle. -/
def nodesOrUnnamed : Value :=
  .object [("nodes", .object [("_node", .object withNodes)]),
    ("$name", .object [("_node", .string "model"), ("_prop", .string "")])]

/-- An edge that is read next to a node, a selector, and an empty handle. -/
theorem blocks_of_ofValue_nodesOrUnnamed :
    nodesOrUnnamed.DistinctKeys ∧ ∃ table, (ofValue nodesOrUnnamed).outcome = .ok table ∧
      BlockKind.edge.Accepts (.string "has_node") ∧
      BlockKind.nodeSelector.Accepts (.string "model") ∧
      ¬ ∀ segments target, table.root.Descends segments target →
        ∀ name ∈ target.toDirectives.names, name ≠ "" := by
  have hnodes : (Value.object withNodes).DistinctKeys :=
    .object (by decide) (by simpa [withNodes] using ⟨.string _, .string _, .string _⟩)
  have hlevel : Value.DistinctKeys (.object [("_node", .object withNodes)]) :=
    .object (by decide) (by simpa using hnodes)
  have hparam : Value.DistinctKeys (.object [("_node", .string "model"), ("_prop", .string "")]) :=
    .object (by decide) (by simpa using ⟨.string _, .string _⟩)
  have hkeys : nodesOrUnnamed.DistinctKeys :=
    .object (by decide) (by simpa using ⟨hlevel, hparam⟩)
  have hload : (ofValue nodesOrUnnamed).outcome = .ok _ := rfl
  obtain ⟨haccepts, hnames⟩ := blocks_of_ofValue hkeys hload
  have hmodels : nodesOrUnnamed.Beneath false (.object [("_node", .object withNodes)]) :=
    .child (@Value.Child.literal _ "nodes" _ (by decide) (by simp))
  have hname : nodesOrUnnamed.Beneath true
      (.object [("_node", .string "model"), ("_prop", .string "")]) :=
    .child (@Value.Child.param _ "name" _ (by simp))
  have hedge : (Value.object withNodes).Inside true .edge (.string "has_node") := .edge rfl
  refine ⟨hkeys, _, hload, ?_, ?_, ?_⟩
  · exact haccepts _ _ (.beneath hmodels (.inside (by simp) .node hedge))
  · exact haccepts _ _ (.beneath hname (.directive (by simp) .nodeSelector))
  · rw [hnames]
    intro hnone
    exact hnone .prop (.inr (.inr rfl)) (.beneath hname (.directive (by simp) (.prop true)))

/-- A node with an edge to nothing. -/
def loneEdge : List (String × Value) := [("_label", .string "A"), ("_edge", .bool true)]

/-- A directive next to the first segments, an edge without a node, and an empty label. -/
def careless : Value :=
  .object [("_prop", .null), ("a", .object [("_node", .object loneEdge)]),
    ("b", .object [("_node", .string "")])]

/-- Malformed blocks may be loaded without a report, and an empty label too. -/
theorem loads_careless :
    careless.DistinctKeys ∧ ∃ table, (ofValue careless).outcome = .ok table ∧
      ((levelsOf careless).HasBlock false .prop .null ∧ ¬ BlockKind.prop.Accepts .null) ∧
      ((levelsOf careless).HasBlock false .edge (.bool true) ∧
        ¬ BlockKind.edge.Accepts (.bool true)) ∧
      ∃ target, table.root.Descends ["b"] target ∧ target.node = some (.label "") := by
  have hlone : (Value.object loneEdge).DistinctKeys :=
    .object (by decide) (by simpa [loneEdge] using ⟨.string _, .bool _⟩)
  have ha : Value.DistinctKeys (.object [("_node", .object loneEdge)]) :=
    .object (by decide) (by simpa using hlone)
  have hb : Value.DistinctKeys (.object [("_node", .string "")]) :=
    .object (by decide) (by simpa using .string _)
  have hkeys : careless.DistinctKeys :=
    .object (by decide) (by simpa using ⟨.null, ha, hb⟩)
  have hbeneath : careless.Beneath false (.object [("_node", .object loneEdge)]) :=
    .child (@Value.Child.literal _ "a" _ (by decide) (by simp))
  have hedge : (Value.object loneEdge).Inside false .edge (.bool true) := .edge rfl
  refine ⟨hkeys, _, rfl, ⟨.root (.directive (by simp) (.prop false)), ?_⟩,
    ⟨.beneath hbeneath (.inside (by simp) .node hedge), ?_⟩,
    { node := some (.label ""), next := .empty }, ⟨_, ?_, .last _ _⟩, rfl⟩
  · rintro ⟨spec, hspec⟩
    cases hspec
  · rintro ⟨spec, hspec⟩
    cases hspec
  · exact List.mem_append_left _ (List.mem_cons_of_mem _ List.mem_cons_self)

end RouteTable

end CypherRoutes
