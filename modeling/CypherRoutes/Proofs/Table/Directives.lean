/-
# Reading directives

The directives of a block are read one after the other, in the order of its members. As no two
members of an object have one name, what is read does not depend on the order: each directive is
what the member of its own name says (`Directives.readFrom_of_ofMembers`). On a parameter level the
members `_node` and `_edge` are read as selectors, and on a literal level as what is built.
-/
import CypherRoutes.Proofs.Outcome
import CypherRoutes.Route.Load

namespace CypherRoutes

/-! ## Loading in steps -/

/-- Two loadings one after the other succeed if each does. -/
theorem Loading.bind_eq_ok_iff {α β : Type} {x : Loading α} {f : α → Loading β} {b : β} :
    (x >>= f).outcome = .ok b ↔ ∃ a, x.outcome = .ok a ∧ (f a).outcome = .ok b := by
  obtain ⟨unknown, outcome⟩ := x
  cases outcome with
  | error fault =>
      constructor
      · intro h
        cases h
      · rintro ⟨a, ha, -⟩
        cases ha
  | ok a =>
      constructor
      · exact fun h => ⟨a, rfl, h⟩
      · rintro ⟨a', ha, h⟩
        obtain rfl := Except.ok.inj ha
        exact h

/-- A loading that needs nothing succeeds. -/
theorem Loading.pure_eq_ok_iff {α : Type} {a b : α} :
    (pure a : Loading α).outcome = .ok b ↔ a = b :=
  ⟨Except.ok.inj, congrArg Except.ok⟩

/-! ## Members of an object -/

/-- Where no two members have one name, a member is found by its name. -/
theorem lookup_eq_some_iff_mem {α : Type} {entries : List (String × α)}
    (hnodup : (entries.map Prod.fst).Nodup) {key : String} {a : α} :
    entries.lookup key = some a ↔ (key, a) ∈ entries := by
  induction entries with
  | nil => simp
  | cons entry rest ih =>
      obtain ⟨key', a'⟩ := entry
      rw [List.map_cons, List.nodup_cons] at hnodup
      rw [List.mem_cons, Prod.mk.injEq]
      by_cases hkey : key = key'
      · subst hkey
        have hrest : (key, a) ∉ rest := fun hmem =>
          hnodup.1 (List.mem_map.mpr ⟨(key, a), hmem, rfl⟩)
        rw [List.lookup_cons, beq_self_eq_true]
        simp [hrest, eq_comm]
      · rw [List.lookup_cons, beq_eq_false_iff_ne.mpr hkey]
        simp [hkey, ih hnodup.2]

/-- No object in the value has two members of one name. -/
inductive Value.DistinctKeys : Value → Prop where
  | null : DistinctKeys .null
  | bool (b : Bool) : DistinctKeys (.bool b)
  | number (n : Number) : DistinctKeys (.number n)
  | string (s : String) : DistinctKeys (.string s)
  | array {items : List Value} : (∀ item ∈ items, DistinctKeys item) → DistinctKeys (.array items)
  | object {members : List (String × Value)} : (members.map Prod.fst).Nodup →
      (∀ m ∈ members, DistinctKeys m.2) → DistinctKeys (.object members)

/-- The member of an object from its name, or else what is there already. -/
def readOver {α : Type} (read : Value → Except TableFault α) (name : String)
    (members : List (String × Value)) (base : Option α) : Except TableFault (Option α) :=
  match Value.member? name members with
  | none => .ok base
  | some block => (read block).map some

section ReadOver

variable {α : Type} {read : Value → Except TableFault α} {name key : String}

/-- A member of another name is passed over. -/
theorem readOver_cons_of_ne (h : key ≠ name) (block : Value) (rest : List (String × Value))
    (base : Option α) :
    readOver read name ((key, block) :: rest) base = readOver read name rest base := by
  rw [readOver, Value.member?, List.lookup_cons, beq_eq_false_iff_ne.mpr h.symm]
  rfl

/-- A member of the name is read. -/
theorem readOver_cons_self (block : Value) (rest : List (String × Value)) (base : Option α) :
    readOver read name ((name, block) :: rest) base = (read block).map some := by
  rw [readOver, Value.member?, List.lookup_cons, beq_self_eq_true]

/-- Without a member of the name nothing is read. -/
theorem readOver_of_not_mem {members : List (String × Value)}
    (h : name ∉ members.map Prod.fst) (base : Option α) :
    readOver read name members base = .ok base := by
  have hlookup : Value.member? name members = none := by
    rw [Value.member?, List.lookup_eq_none_iff]
    intro m hm
    rw [bne_iff_ne]
    exact fun heq => h (heq ▸ List.mem_map_of_mem hm)
  rw [readOver, hlookup]

end ReadOver

namespace Directives

/-! ## One directive -/

/-- The directives before and after one more is read from the block of its name. -/
inductive Adds (d : Directives) (block : Value) : (isParam : Bool) → (key : String) →
    Directives → Prop where
  | nodeSelector {name : String} : selectorOf .nodeSelector block = .ok name →
      Adds d block true "_node" { d with nodeSelector := some name }
  | node {spec : NodeSpec} : NodeSpec.ofValue block = .ok spec →
      Adds d block false "_node" { d with node := some spec }
  | edgeSelector {name : String} : selectorOf .edgeSelector block = .ok name →
      Adds d block true "_edge" { d with edgeSelector := some name }
  | edge {spec : EdgeSpec} : EdgeSpec.ofValue block = .ok spec →
      Adds d block false "_edge" { d with edge := some spec }
  | prop {isParam : Bool} {spec : PropSpec} : PropSpec.ofValue block = .ok spec →
      Adds d block isParam "_prop" { d with prop := some spec }
  | ret {isParam : Bool} {spec : ReturnSpec} : ReturnSpec.ofValue block = .ok spec →
      Adds d block isParam "_return" { d with ret := some spec }
  | func {isParam : Bool} {spec : FuncSpec} : FuncSpec.ofValue block = .ok spec →
      Adds d block isParam "_func" { d with func := some spec }
  | unknown {isParam : Bool} {key : String} :
      key ∉ ["_node", "_edge", "_prop", "_return", "_func"] → Adds d block isParam key d

theorem adds_of_add {isParam : Bool} {d d' : Directives} {key : String} {block : Value}
    (h : (add isParam d key block).outcome = .ok d') : d.Adds block isParam key d' := by
  unfold add at h
  split at h
  · cases isParam with
    | true =>
        obtain ⟨name, hname, rfl⟩ := map_eq_ok_iff.mp h
        exact .nodeSelector hname
    | false =>
        obtain ⟨spec, hspec, rfl⟩ := map_eq_ok_iff.mp h
        exact .node hspec
  · cases isParam with
    | true =>
        obtain ⟨name, hname, rfl⟩ := map_eq_ok_iff.mp h
        exact .edgeSelector hname
    | false =>
        obtain ⟨spec, hspec, rfl⟩ := map_eq_ok_iff.mp h
        exact .edge hspec
  · obtain ⟨spec, hspec, rfl⟩ := map_eq_ok_iff.mp h
    exact .prop hspec
  · obtain ⟨spec, hspec, rfl⟩ := map_eq_ok_iff.mp h
    exact .ret hspec
  · obtain ⟨spec, hspec, rfl⟩ := map_eq_ok_iff.mp h
    exact .func hspec
  · obtain rfl := Except.ok.inj h
    exact .unknown (by simp_all)

/-! ## All directives -/

/-- The directives after a member was read: only members whose names begin with `_` are. -/
theorem ofMembers_cons_eq_ok_iff {isParam : Bool} {d d' : Directives} {key : String}
    {block : Value} {rest : List (String × Value)} :
    (ofMembers isParam d ((key, block) :: rest)).outcome = .ok d' ↔
      ∃ d₁, (if Segment.ofKey key = .directive then (add isParam d key block).outcome
          else .ok d) = .ok d₁ ∧
        (ofMembers isParam d₁ rest).outcome = .ok d' := by
  rw [ofMembers]
  cases Segment.ofKey key with
  | directive => exact Loading.bind_eq_ok_iff
  | param => exact Loading.bind_eq_ok_iff
  | literal => exact Loading.bind_eq_ok_iff

/-- What the members of one name are read as, as long as each directive changes what it names and
nothing else. -/
theorem readOver_of_ofMembers {α : Type} (get : Directives → Option α)
    {read : Value → Except TableFault α} {name : String} {isParam : Bool}
    (hname : Segment.ofKey name = .directive)
    (hadds : ∀ {d d' : Directives} {key : String} {block : Value},
      d.Adds block isParam key d' → if key = name then (read block).map some = .ok (get d')
        else get d' = get d)
    {members : List (String × Value)} (hnodup : (members.map Prod.fst).Nodup)
    {d d' : Directives} (h : (ofMembers isParam d members).outcome = .ok d') :
    readOver read name members (get d) = .ok (get d') := by
  induction members generalizing d with
  | nil =>
      obtain rfl := Loading.pure_eq_ok_iff.mp h
      rfl
  | cons member rest ih =>
      obtain ⟨key, block⟩ := member
      rw [List.map_cons, List.nodup_cons] at hnodup
      obtain ⟨d₁, hadd, hrest⟩ := ofMembers_cons_eq_ok_iff.mp h
      have hlater := ih hnodup.2 hrest
      by_cases hkey : key = name
      · subst hkey
        rw [if_pos hname] at hadd
        have hread := hadds (adds_of_add hadd)
        rw [if_pos rfl] at hread
        -- no later member has the name, so what is read here stays
        rw [readOver_of_not_mem hnodup.1] at hlater
        rw [readOver_cons_self, hread, hlater]
      · rw [readOver_cons_of_ne hkey, ← hlater]
        split_ifs at hadd
        · have hkept := hadds (adds_of_add hadd)
          rw [if_neg hkey] at hkept
          rw [hkept]
        · rw [Except.ok.inj hadd]

/-- What no directive changes stays as it was. -/
theorem eq_of_ofMembers {α : Type} (get : Directives → Option α) {isParam : Bool}
    (hkeep : ∀ {d d' : Directives} {key : String} {block : Value},
      d.Adds block isParam key d' → get d' = get d)
    {members : List (String × Value)} {d d' : Directives}
    (h : (ofMembers isParam d members).outcome = .ok d') : get d' = get d := by
  induction members generalizing d with
  | nil => rw [Loading.pure_eq_ok_iff.mp h]
  | cons member rest ih =>
      obtain ⟨key, block⟩ := member
      obtain ⟨d₁, hadd, hrest⟩ := ofMembers_cons_eq_ok_iff.mp h
      rw [ih hrest]
      split_ifs at hadd
      · exact hkeep (adds_of_add hadd)
      · rw [Except.ok.inj hadd]

/-- Directives of which each is what the member of its name says. On a parameter level `_node` and
`_edge` name selectors and build nothing, and on a literal level they select nothing. -/
structure ReadFrom (isParam : Bool) (members : List (String × Value)) (d : Directives) :
    Prop where
  node : (if isParam then .ok none else optionalMember NodeSpec.ofValue "_node" members)
    = .ok d.node
  edge : (if isParam then .ok none else optionalMember EdgeSpec.ofValue "_edge" members)
    = .ok d.edge
  nodeSelector : (if isParam then
    optionalMember (selectorOf .nodeSelector) "_node" members else .ok none) = .ok d.nodeSelector
  edgeSelector : (if isParam then
    optionalMember (selectorOf .edgeSelector) "_edge" members else .ok none) = .ok d.edgeSelector
  prop : optionalMember PropSpec.ofValue "_prop" members = .ok d.prop
  ret : optionalMember ReturnSpec.ofValue "_return" members = .ok d.ret
  func : optionalMember FuncSpec.ofValue "_func" members = .ok d.func

/-- Each directive is read from the member of its own name. -/
theorem readFrom_of_ofMembers {isParam : Bool} {members : List (String × Value)}
    (hnodup : (members.map Prod.fst).Nodup) {d : Directives}
    (h : (ofMembers isParam {} members).outcome = .ok d) : d.ReadFrom isParam members := by
  have hprop : optionalMember PropSpec.ofValue "_prop" members = .ok d.prop :=
    readOver_of_ofMembers Directives.prop (by decide)
      (fun hadd => by cases hadd <;> simp_all [Except.map]) hnodup h
  have hret : optionalMember ReturnSpec.ofValue "_return" members = .ok d.ret :=
    readOver_of_ofMembers Directives.ret (by decide)
      (fun hadd => by cases hadd <;> simp_all [Except.map]) hnodup h
  have hfunc : optionalMember FuncSpec.ofValue "_func" members = .ok d.func :=
    readOver_of_ofMembers Directives.func (by decide)
      (fun hadd => by cases hadd <;> simp_all [Except.map]) hnodup h
  -- a level of one kind leaves the directives of the other kind as they are
  cases isParam with
  | true =>
      have hnode : d.node = none :=
        eq_of_ofMembers Directives.node (fun hadd => by cases hadd <;> rfl) h
      have hedge : d.edge = none :=
        eq_of_ofMembers Directives.edge (fun hadd => by cases hadd <;> rfl) h
      refine ⟨congrArg Except.ok hnode.symm, congrArg Except.ok hedge.symm, ?_, ?_, hprop, hret,
        hfunc⟩
      · exact readOver_of_ofMembers Directives.nodeSelector (by decide)
          (fun hadd => by cases hadd <;> simp_all [Except.map]) hnodup h
      · exact readOver_of_ofMembers Directives.edgeSelector (by decide)
          (fun hadd => by cases hadd <;> simp_all [Except.map]) hnodup h
  | false =>
      have hnode : d.nodeSelector = none :=
        eq_of_ofMembers Directives.nodeSelector (fun hadd => by cases hadd <;> rfl) h
      have hedge : d.edgeSelector = none :=
        eq_of_ofMembers Directives.edgeSelector (fun hadd => by cases hadd <;> rfl) h
      refine ⟨?_, ?_, congrArg Except.ok hnode.symm, congrArg Except.ok hedge.symm, hprop, hret,
        hfunc⟩
      · exact readOver_of_ofMembers Directives.node (by decide)
          (fun hadd => by cases hadd <;> simp_all [Except.map]) hnodup h
      · exact readOver_of_ofMembers Directives.edge (by decide)
          (fun hadd => by cases hadd <;> simp_all [Except.map]) hnodup h

end Directives

end CypherRoutes
