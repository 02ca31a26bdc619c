/-
# Unlabelled nodes

A `_node: _var` builds a node without a label, as the node of a level or at the end of the blocks
nested in one. A trail remembers one such node: that of the latest level that is a `_var` itself.
So a selector `_var` takes this node, if the matched entity has it, and the nodes that are labelled
`_var`; the unlabelled nodes of earlier levels and those nested in blocks are returned by no
selector (`RouteTable.compile_selecting_unlabelled`).
-/
import CypherRoutes.Proofs.Route.Named

namespace CypherRoutes

/-! ## Where unlabelled nodes come from -/

namespace NodeSpec

/-- Whether the level or the last of its nested blocks is a `_var`. -/
def endsUnlabelled : NodeSpec → Bool
  | unlabelled => true
  | linked _ _ _ target => target.endsUnlabelled
  | label _ => false
  | block _ _ => false

/-- The variables of the nodes built from a `_var`, at the level itself or nested in its blocks;
the first node of the level has the index `i`. -/
def unlabelledAt (i : Nat) : NodeSpec → List String
  | unlabelled => [Numbering.varName 'n' i]
  | linked _ _ _ target => target.unlabelledAt (i + 1)
  | label _ => []
  | block _ _ => []

/-- The same for the level itself. -/
def directAt (i : Nat) (spec : NodeSpec) : List String :=
  if spec.isUnlabelled then [Numbering.varName 'n' i] else []

/-- The nodes built from a `_var` are those that are declared without a label. -/
theorem mem_unlabelledAt_iff (spec : NodeSpec) (i : Nat) {v : String} :
    v ∈ spec.unlabelledAt i ↔ ⟨v, none⟩ ∈ spec.marks i := by
  induction spec generalizing i with
  | label => simp [unlabelledAt, marks]
  | unlabelled => simp [unlabelledAt, marks]
  | block => simp [unlabelledAt, marks]
  | linked name prop edge target ih => simp [unlabelledAt, marks, ih]

/-- A level has at most one of them. -/
theorem length_unlabelledAt (spec : NodeSpec) (i : Nat) :
    (spec.unlabelledAt i).length = if spec.endsUnlabelled then 1 else 0 := by
  induction spec generalizing i with
  | label => rfl
  | unlabelled => rfl
  | block => rfl
  | linked name prop edge target ih => exact ih (i + 1)

theorem unlabelledAt_sublist (spec : NodeSpec) (i : Nat) :
    (spec.unlabelledAt i).Sublist ((spec.marks i).map NodeMark.var) := by
  induction spec generalizing i with
  | label => exact List.nil_sublist _
  | unlabelled => exact List.Sublist.refl _
  | block => exact List.nil_sublist _
  | linked name prop edge target ih => exact (ih (i + 1)).cons _

theorem directAt_subset (spec : NodeSpec) (i : Nat) : spec.directAt i ⊆ spec.unlabelledAt i := by
  cases spec <;> simp [directAt, isUnlabelled, unlabelledAt]

theorem isUnlabelled_iff {spec : NodeSpec} : spec.isUnlabelled = true ↔ spec = unlabelled := by
  cases spec <;> simp [isUnlabelled]

end NodeSpec

/-- The variables that levels contribute, the first node having the index `i`. -/
def varsFrom (vars : Nat → NodeSpec → List String) (i : Nat) : List Introduction → List String
  | [] => []
  | x :: rest => vars i x.node ++ varsFrom vars (i + x.node.nodeCount) rest

theorem varsFrom_append (vars : Nat → NodeSpec → List String) (i : Nat)
    (xs ys : List Introduction) :
    varsFrom vars i (xs ++ ys) = varsFrom vars i xs ++ varsFrom vars (i + nodesIn xs) ys := by
  induction xs generalizing i with
  | nil => rfl
  | cons x rest ih =>
      simp only [List.cons_append, varsFrom, ih, nodesIn_cons, List.append_assoc, Nat.add_assoc]

/-- The variables of all unlabelled nodes of the levels. -/
def unlabelledFrom : Nat → List Introduction → List String :=
  varsFrom fun i spec => spec.unlabelledAt i

/-- The variables of the nodes of the levels that are a `_var` themselves. -/
def directFrom : Nat → List Introduction → List String := varsFrom fun i spec => spec.directAt i

variable {xs : List Introduction} {i : Nat}

theorem mem_unlabelledFrom_iff {v : String} :
    v ∈ unlabelledFrom i xs ↔ ⟨v, none⟩ ∈ marksFrom i xs := by
  induction xs generalizing i with
  | nil => simp [unlabelledFrom, varsFrom, marksFrom]
  | cons x rest ih =>
      rw [unlabelledFrom, varsFrom, marksFrom, List.mem_append, List.mem_append,
        x.node.mem_unlabelledAt_iff]
      exact or_congr Iff.rfl ih

/-- There are as many as levels that end in a `_var`. -/
theorem length_unlabelledFrom (i : Nat) (xs : List Introduction) :
    (unlabelledFrom i xs).length = (xs.filter (·.node.endsUnlabelled)).length := by
  induction xs generalizing i with
  | nil => rfl
  | cons x rest ih =>
      rw [unlabelledFrom, varsFrom, List.length_append, x.node.length_unlabelledAt]
      have hrest := ih (i + x.node.nodeCount)
      rw [unlabelledFrom] at hrest
      cases hx : x.node.endsUnlabelled <;> simp [hx, hrest, Nat.add_comm]

theorem directFrom_subset (i : Nat) (xs : List Introduction) :
    directFrom i xs ⊆ unlabelledFrom i xs := by
  induction xs generalizing i with
  | nil => exact List.Subset.refl _
  | cons x rest ih =>
      refine List.append_subset.mpr ⟨fun v hv => ?_, fun v hv => ?_⟩
      · exact List.mem_append_left _ (x.node.directAt_subset i hv)
      · exact List.mem_append_right _ (ih _ hv)

theorem directFrom_ne_nil_iff : directFrom i xs ≠ [] ↔ ∃ x ∈ xs, x.node = .unlabelled := by
  induction xs generalizing i with
  | nil => simp [directFrom, varsFrom]
  | cons x rest ih =>
      have hx : x.node.directAt i ≠ [] ↔ x.node = .unlabelled := by
        rw [← NodeSpec.isUnlabelled_iff, NodeSpec.directAt]
        split_ifs with h <;> simp [h]
      rw [List.exists_mem_cons_iff, ← hx, ← ih (i := i + x.node.nodeCount), directFrom, varsFrom,
        ne_eq, List.append_eq_nil_iff, not_and_or]

/-- No two of the nodes have one variable. -/
theorem nodup_unlabelledFrom (i : Nat) (xs : List Introduction) : (unlabelledFrom i xs).Nodup := by
  refine (nodup_marksFrom i xs).sublist ?_
  induction xs generalizing i with
  | nil => exact List.Sublist.refl _
  | cons x rest ih =>
      rw [marksFrom, List.map_append]
      exact (x.node.unlabelledAt_sublist i).append (ih _)

/-- Every unlabelled node is the latest that a level builds itself exactly if no level or one ends
in a `_var`, and this one is a `_var` itself. -/
theorem forall_latest_iff :
    (∀ v ∈ unlabelledFrom i xs, (directFrom i xs).getLast? = some v) ↔
      xs.filter (·.node.endsUnlabelled) = [] ∨
        ∃ edge, xs.filter (·.node.endsUnlabelled) = [⟨.unlabelled, edge⟩] := by
  have hlength := length_unlabelledFrom i xs
  have hdirect : ∀ x ∈ xs, x.node = .unlabelled → x ∈ xs.filter (·.node.endsUnlabelled) :=
    fun x hx hnode => List.mem_filter.mpr ⟨hx, by rw [hnode]; rfl⟩
  constructor
  · intro h
    generalize hends : xs.filter (·.node.endsUnlabelled) = ends at hlength hdirect ⊢
    match ends, hlength with
    | [], _ => exact .inl rfl
    | [x], hlength =>
        obtain ⟨v, hv⟩ := List.length_eq_one_iff.mp hlength
        have hlast := h v (hv ▸ List.mem_singleton_self v)
        have hne : directFrom i xs ≠ [] := fun hnil => by rw [hnil] at hlast; cases hlast
        obtain ⟨y, hy, hnode⟩ := directFrom_ne_nil_iff.mp hne
        obtain rfl := List.mem_singleton.mp (hdirect y hy hnode)
        exact .inr ⟨y.edge, by rw [← hnode]⟩
    | x :: y :: rest, hlength =>
        -- two nodes with different variables cannot both be the latest
        have hnodup := nodup_unlabelledFrom i xs
        match hfrom : unlabelledFrom i xs, hlength with
        | v :: w :: more, _ =>
            rw [hfrom] at h hnodup
            have hv := h v List.mem_cons_self
            have hw := h w (List.mem_cons_of_mem _ List.mem_cons_self)
            exact absurd (Option.some.inj (hv.symm.trans hw))
              fun hvw => (List.nodup_cons.mp hnodup).1 (hvw ▸ List.mem_cons_self)
  · rintro (hnil | ⟨edge, hone⟩)
    · rw [hnil] at hlength
      rw [List.length_eq_zero_iff.mp hlength]
      exact fun v hv => absurd hv List.not_mem_nil
    · rw [hone] at hlength
      obtain ⟨v, hv⟩ := List.length_eq_one_iff.mp hlength
      have hmem : (⟨.unlabelled, edge⟩ : Introduction) ∈ xs :=
        (List.mem_filter.mp (hone ▸ List.mem_singleton_self _)).1
      have hne : directFrom i xs ≠ [] := directFrom_ne_nil_iff.mpr ⟨_, hmem, rfl⟩
      intro w hw
      have hlast := directFrom_subset i xs (List.getLast_mem hne)
      rw [hv, List.mem_singleton] at hw hlast
      rw [List.getLast?_eq_some_getLast hne, hlast, hw]

/-! ## The node that a trail remembers -/

namespace Trail

/-- A trail remembers the node of the latest level that is a `_var` itself. -/
def Remembers (introduced : List Introduction) (trail : Trail) : Prop :=
  trail.unlabelled = (directFrom 0 introduced).getLast?

/-- A step that builds an unlabelled node remembers it, and another one keeps what was
remembered. -/
theorem Remembers.follow {introduced : List Introduction} {trail trail' : Trail} {token : String}
    {step : Step} {param : Option String} (h : trail.Remembers introduced)
    (hcount : trail.numbering.nodes = nodesIn introduced)
    (hfollow : trail.follow token step param = .ok trail') :
    trail'.Remembers (introduced ++ step.introduces) := by
  obtain ⟨entity, built, connected, -, hbuilt, -, rfl⟩ := follow_eq_ok_iff.mp hfollow
  have hnodes := (counts_propOf trail.numbering token step param).1
  rw [hcount] at hnodes
  have hdirect : directFrom 0 (introduced ++ step.introduces)
      = directFrom 0 introduced ++ directFrom (nodesIn introduced) step.introduces := by
    rw [directFrom, varsFrom_append, Nat.zero_add]
  change trail.unlabelledAfter step built.1 = _
  rw [hdirect]
  cases hnode : step.node with
  | none =>
      rw [Step.introduces, hnode, unlabelledAfter, hnode, if_neg (by simp)]
      exact h.trans (congrArg List.getLast? (List.append_nil _).symm)
  | some spec =>
      rw [hnode] at hbuilt
      obtain ⟨⟨e, s⟩, hbuild, rfl⟩ := map_eq_ok_iff.mp hbuilt
      have hone : directFrom (nodesIn introduced) step.introduces
          = spec.directAt (nodesIn introduced) := by
        rw [Step.introduces, hnode]
        exact List.append_nil _
      rw [hone, unlabelledAfter, hnode, Option.any_some, NodeSpec.directAt]
      by_cases hspec : spec.isUnlabelled = true
      · rw [if_pos hspec, if_pos hspec, List.getLast?_concat, ← hnodes]
        obtain rfl := NodeSpec.isUnlabelled_iff.mp hspec
        obtain ⟨rfl, rfl⟩ := Prod.mk.inj (Except.ok.inj hbuild)
        rfl
      · rw [if_neg hspec, if_neg hspec, List.append_nil]
        exact h

/-- So does any number of visits. -/
theorem Remembers.followVisits {introduced : List Introduction} {trail trail' : Trail}
    {visits : List Visit} (h : trail.Remembers introduced) (hdeclares : trail.Declares introduced)
    (hsound : trail.Sound) (hfollow : trail.followVisits visits = .ok trail') :
    trail'.Remembers (introduced ++ introductions visits) := by
  induction visits generalizing trail introduced with
  | nil =>
      obtain rfl := Except.ok.inj hfollow
      rwa [introductions, List.flatMap_nil, List.append_nil]
  | cons v rest ih =>
      obtain ⟨middle, hmiddle, hrest⟩ := bind_eq_ok_iff.mp hfollow
      have hlater := ih (h.follow hdeclares.nodes hmiddle) (hdeclares.follow hsound hmiddle)
        (hsound.follow hmiddle).1 hrest
      rwa [List.append_assoc] at hlater

end Trail

/-- A node of the later levels is the latest of all levels exactly if it is the latest of these. -/
theorem latest_append_iff {earlier matched : List Introduction} {k : NodeMark}
    (hk : k ∈ marksFrom (nodesIn earlier) matched) :
    (directFrom 0 (earlier ++ matched)).getLast? = some k.var ↔
      (directFrom (nodesIn earlier) matched).getLast? = some k.var := by
  have happend : directFrom 0 (earlier ++ matched)
      = directFrom 0 earlier ++ directFrom (nodesIn earlier) matched := by
    rw [directFrom, varsFrom_append, Nat.zero_add]
  rw [happend, List.getLast?_append]
  constructor
  · intro h
    rcases Option.or_eq_some_iff.mp h with h | ⟨-, h⟩
    · exact h
    · -- a node of the earlier levels has another variable
      have hmark := mem_unlabelledFrom_iff.mp (directFrom_subset 0 earlier (List.mem_of_getLast? h))
      have hearlier : k.var ∈ (marksFrom 0 earlier).map NodeMark.var :=
        List.mem_map.mpr ⟨_, hmark, rfl⟩
      have hnodup := nodup_marksFrom 0 (earlier ++ matched)
      rw [marksFrom_append, Nat.zero_add, List.map_append, List.nodup_append] at hnodup
      exact absurd rfl (hnodup.2.2 _ hearlier _ (List.mem_map_of_mem hk))
  · exact fun h => Option.or_eq_some_iff.mpr (.inl h)

/-! ## What selectors take -/

namespace ReturnSpec

/-- The selectors that take a node: the first with its label for a name, and the first of the name
`_var` if the node is the remembered one. -/
def takenBy (selectors : List ItemSelector) (unlabelled : Option String) (n : Node) :
    List ItemSelector :=
  (selectors.find? fun s => n.hasLabel s.name).toList ++
    (if unlabelled == some n.var then selectors.find? (·.name == "_var") else none).toList

/-- The nodes that selectors take, each with its selector. -/
def chosenNodes (e : Entity) (selectors : List ItemSelector) (unlabelled : Option String) :
    List (Node × ItemSelector) :=
  e.nodes.flatMap fun n => (takenBy selectors unlabelled n).map fun s => (n, s)

/-- The relationships that selectors take, each with its selector. -/
def chosenEdges (e : Entity) (selectors : List ItemSelector) : List (Relationship × ItemSelector) :=
  e.edges.flatMap fun r => (selectors.find? fun s => r.hasKind s.name).toList.map fun s => (r, s)

/-- The returned terms of chosen nodes and relationships. -/
def termsOf (keepNames : Bool) (chosen : List (Node × ItemSelector))
    (related : List (Relationship × ItemSelector)) : List Term :=
  (chosen.map fun c => selected keepNames (.node c.1) c.2) ++
    related.map fun c => selected keepNames (.relationship c.1) c.2

variable {e : Entity} {selectors : List ItemSelector} {unlabelled : Option String}

/-- Without a `*` the selected members are those that are chosen. -/
theorem selectedOf_eq {edges : List ItemSelector} (he : e.Tidy)
    (hstar : ∀ s ∈ selectors, s.name ≠ "*") (keepNames : Bool) :
    selectedOf e selectors edges unlabelled keepNames =
      termsOf keepNames (chosenNodes e selectors unlabelled) (chosenEdges e edges) := by
  have hany : selectors.any (·.name == "*") = false := by simpa using hstar
  have hnodes : e.nodes.filter (fun n => !n.anonymous) = e.nodes :=
    List.filter_eq_self.mpr fun n hn => by
      rw [(he.nodes n (Entity.mem_nodeCopies_of_mem_nodes hn)).shown, Bool.not_false]
  have hedges : e.edges.filter (fun r => !r.anonymous) = e.edges :=
    List.filter_eq_self.mpr fun r hr => by
      rw [(he.edges r (Entity.mem_edgeCopies_of_mem_edges hr)).shown, Bool.not_false]
  rw [selectedOf, hany, if_neg Bool.false_ne_true, hnodes, hedges, termsOf, chosenNodes,
    chosenEdges, List.map_flatMap, List.map_flatMap]
  refine congrArg₂ _ (List.flatMap_congr fun n _ => ?_) (List.flatMap_congr fun r _ => ?_)
  · rw [List.map_map]
    rfl
  · cases edges.find? fun s => r.hasKind s.name <;> rfl

/-- A node is taken by the first selector of a name, its label or `_var`. -/
theorem mem_takenBy_iff {n : Node} {s : ItemSelector} :
    s ∈ takenBy selectors unlabelled n ↔ selectors.find? (·.name == s.name) = some s ∧
      (n.label = some s.name ∨ s.name = "_var" ∧ unlabelled = some n.var) := by
  have hlabel : selectors.find? (fun s => n.hasLabel s.name) = some s ↔
      selectors.find? (·.name == s.name) = some s ∧ n.label = some s.name := by
    have hsame : n.label = some s.name →
        (fun s : ItemSelector => n.hasLabel s.name) = (·.name == s.name) := by
      intro h
      funext s'
      rw [Node.hasLabel, h, Option.some_beq_some, Bool.beq_comm]
    constructor
    · intro h
      have hs : n.label = some s.name := by simpa [Node.hasLabel] using List.find?_some h
      exact ⟨hsame hs ▸ h, hs⟩
    · rintro ⟨h, hs⟩
      rwa [hsame hs]
  have hvar : (if unlabelled == some n.var then selectors.find? (·.name == "_var") else none)
      = some s ↔ selectors.find? (·.name == s.name) = some s ∧
        s.name = "_var" ∧ unlabelled = some n.var := by
    constructor
    · intro h
      split_ifs at h with hu
      have hs : s.name = "_var" := by simpa using List.find?_some h
      exact ⟨hs ▸ h, hs, eq_of_beq hu⟩
    · rintro ⟨h, hs, hu⟩
      rw [if_pos (beq_iff_eq.mpr hu), ← hs]
      exact h
  rw [takenBy, List.mem_append, Option.mem_toList, Option.mem_toList, hlabel, hvar, and_or_left]

theorem mem_chosenEdges_iff {r : Relationship} {s : ItemSelector} :
    (r, s) ∈ chosenEdges e selectors ↔
      r ∈ e.edges ∧ selectors.find? (fun s => r.hasKind s.name) = some s := by
  simp [chosenEdges]

/-- Selectors without a `*` resolve to what they choose, unless they choose nothing. -/
theorem resolve_select_eq {edges : List ItemSelector} {own func : Option FuncSpec}
    {pathId : Option String} (he : e.Tidy) (hstar : ∀ s ∈ selectors, s.name ≠ "*")
    (token : String) :
    (select selectors edges own pathId).resolve e unlabelled func token =
      if chosenNodes e selectors unlabelled = [] ∧ chosenEdges e edges = [] then
        .error (.nothingSelected token)
      else .ok (termsOf (own.or func).isNone (chosenNodes e selectors unlabelled)
        (chosenEdges e edges), own.or func, pathId) := by
  have hnil : termsOf (own.or func).isNone (chosenNodes e selectors unlabelled)
      (chosenEdges e edges) = [] ↔
        chosenNodes e selectors unlabelled = [] ∧ chosenEdges e edges = [] := by
    rw [termsOf, List.append_eq_nil_iff, List.map_eq_nil_iff, List.map_eq_nil_iff]
  simp only [resolve, selectedOf_eq he hstar, ← hnil]
  split
  · next h => rw [if_pos h]
  · next h => rw [if_neg h]

/-- A node that is not labelled if it is remembered is taken at most once. -/
theorem length_takenBy_le {n : Node} (h : unlabelled = some n.var → n.label = none) :
    (takenBy selectors unlabelled n).length ≤ 1 := by
  rw [takenBy, List.length_append]
  by_cases hu : unlabelled = some n.var
  · have hnone : selectors.find? (fun s => n.hasLabel s.name) = none :=
      List.find?_eq_none.mpr fun s _ => by simp [Node.hasLabel, h hu]
    rw [hnone, Option.toList_none, List.length_nil, Nat.zero_add]
    exact Option.length_toList_le
  · rw [if_neg (by simpa using hu), Option.toList_none, List.length_nil, Nat.add_zero]
    exact Option.length_toList_le

theorem mem_chosenNodes_iff {n : Node} {s : ItemSelector} :
    (n, s) ∈ chosenNodes e selectors unlabelled ↔
      n ∈ e.nodes ∧ s ∈ takenBy selectors unlabelled n := by
  simp [chosenNodes]

/-- Nodes with different variables are chosen at most once each. -/
theorem nodup_chosenNodes (hnodup : (e.nodes.map Node.var).Nodup)
    (h : ∀ n ∈ e.nodes, unlabelled = some n.var → n.label = none) :
    ((chosenNodes e selectors unlabelled).map fun c => c.1.var).Nodup := by
  refine hnodup.sublist ?_
  rw [chosenNodes]
  generalize e.nodes = nodes at h ⊢
  induction nodes with
  | nil => exact List.Sublist.refl _
  | cons n rest ih =>
      have hone : ((takenBy selectors unlabelled n).map fun _ => n.var).Sublist [n.var] := by
        have hlength : (takenBy selectors unlabelled n).length ≤ 1 :=
          length_takenBy_le (h n List.mem_cons_self)
        rw [List.map_const']
        exact (List.replicate_sublist_replicate n.var).mpr hlength
      rw [List.flatMap_cons, List.map_append, List.map_map, List.map_cons]
      exact hone.append (ih fun m hm => h m (List.mem_cons_of_mem _ hm))

end ReturnSpec

/-! ## Compiled requests -/

/-- What selectors choose from an entity whose nodes were declared by `matched`, the first with the
index `i`. -/
structure Entity.Chosen (e : Entity) (selectors : List ItemSelector) (i : Nat)
    (matched : List Introduction) (chosen : List (Node × ItemSelector)) : Prop where
  /-- The unlabelled nodes are those that were built from a `_var`. -/
  unlabelled : ∀ n ∈ e.nodeCopies, n.label = none ↔ n.var ∈ unlabelledFrom i matched
  /-- A node is chosen by the first selector of its label, or by the first `_var` if it is the
  node of the latest level that is a `_var` itself. -/
  chosen_iff : ∀ n s, (n, s) ∈ chosen ↔ n ∈ e.nodeCopies ∧
    selectors.find? (·.name == s.name) = some s ∧
      (n.label = some s.name ∨ s.name = "_var" ∧ (directFrom i matched).getLast? = some n.var)
  /-- No node is chosen twice. -/
  once : (chosen.map fun c => c.1.var).Nodup
  /-- All unlabelled nodes are chosen exactly if there is at most one, and a level built it
  itself. -/
  all_iff : (∀ n ∈ e.nodeCopies, n.label = none → ∃ s, (n, s) ∈ chosen) ↔
    matched.filter (·.node.endsUnlabelled) = [] ∨
      ∃ edge, matched.filter (·.node.endsUnlabelled) = [⟨.unlabelled, edge⟩]
  /-- And `_var` chooses no other nodes exactly if none is labelled so. -/
  alone_iff : (∀ n s, (n, s) ∈ chosen → s.name = "_var" → n.label = none) ↔
    ∀ n ∈ e.nodeCopies, n.label ≠ some "_var"

/-- A node that levels declared has no label exactly if it was built from a `_var`. -/
theorem Node.label_eq_none_iff {n : Node} {i : Nat} {matched : List Introduction}
    (hn : n.mark ∈ marksFrom i matched) : n.label = none ↔ n.var ∈ unlabelledFrom i matched := by
  rw [mem_unlabelledFrom_iff]
  constructor
  · intro hnone
    rwa [Node.mark, hnone] at hn
  · intro h
    -- no two declared nodes have one variable
    have hone : ⟨n.var, none⟩ = n.mark := List.inj_on_of_nodup_map (nodup_marksFrom _ _) h hn rfl
    exact (congrArg NodeMark.label hone).symm

/-- What is chosen by selectors with a `_var` among them, when a trail remembers the latest of the
levels that it followed. -/
theorem Entity.chosen_chosenNodes {visits : List Visit} {e : Entity} {unlabelled : Option String}
    {selectors : List ItemSelector} {earlier matched : List Introduction} {joints : List Joint}
    (hreached : e.ReachedBy visits)
    (hshows : e.Shows (marksFrom (nodesIn earlier) matched) joints)
    (hlatest : unlabelled = (directFrom 0 (earlier ++ matched)).getLast?)
    (hvar : ∃ s ∈ selectors, s.name = "_var") :
    e.Chosen selectors (nodesIn earlier) matched
      (ReturnSpec.chosenNodes e selectors unlabelled) := by
  have hmark : ∀ n ∈ e.nodeCopies, n.mark ∈ marksFrom (nodesIn earlier) matched :=
    fun n hn => (hshows.nodes _).mpr ⟨n, hn, rfl⟩
  have hunlabelled : ∀ n ∈ e.nodeCopies,
      (n.label = none ↔ n.var ∈ unlabelledFrom (nodesIn earlier) matched) := fun n hn =>
    Node.label_eq_none_iff (hmark n hn)
  have hremembered : ∀ n ∈ e.nodeCopies,
      (unlabelled = some n.var ↔ (directFrom (nodesIn earlier) matched).getLast? = some n.var) :=
    fun n hn => by
      rw [hlatest]
      exact latest_append_iff (hmark n hn)
  have hnone : ∀ n ∈ e.nodeCopies, unlabelled = some n.var → n.label = none := fun n hn h =>
    (hunlabelled n hn).mpr (directFrom_subset _ _ (List.mem_of_getLast? ((hremembered n hn).mp h)))
  have hchosen : ∀ n s, (n, s) ∈ ReturnSpec.chosenNodes e selectors unlabelled ↔
      n ∈ e.nodeCopies ∧ selectors.find? (·.name == s.name) = some s ∧
        (n.label = some s.name ∨
          s.name = "_var" ∧ (directFrom (nodesIn earlier) matched).getLast? = some n.var) := by
    intro n s
    rw [ReturnSpec.mem_chosenNodes_iff, ReturnSpec.mem_takenBy_iff, hreached.mem_nodes_iff]
    refine and_congr_right fun hn => ?_
    rw [hremembered n hn]
  obtain ⟨s, hs⟩ : ∃ s, selectors.find? (·.name == "_var") = some s := by
    obtain ⟨s, hs, hname⟩ := hvar
    exact Option.isSome_iff_exists.mp (List.find?_isSome.mpr ⟨s, hs, beq_iff_eq.mpr hname⟩)
  have hname : s.name = "_var" := by simpa using List.find?_some hs
  refine ⟨hunlabelled, hchosen, ?_, ?_, ?_⟩
  · exact ReturnSpec.nodup_chosenNodes hreached.nodup_nodes fun n hn =>
      hnone n (mem_nodeCopies_of_mem_nodes hn)
  · rw [← forall_latest_iff (i := nodesIn earlier)]
    constructor
    · intro h v hv
      obtain ⟨n, hn, hnv⟩ := (hshows.nodes _).mp (mem_unlabelledFrom_iff.mp hv)
      obtain ⟨rfl, hlabel⟩ : n.var = v ∧ n.label = none := by simpa [Node.mark] using hnv
      obtain ⟨s', hs'⟩ := h n hn hlabel
      obtain ⟨-, -, hlab | ⟨-, hlast⟩⟩ := (hchosen n s').mp hs'
      · rw [hlabel] at hlab
        cases hlab
      · exact hlast
    · intro h n hn hlabel
      have hlast := h _ ((hunlabelled n hn).mp hlabel)
      exact ⟨s, (hchosen n s).mpr ⟨hn, hname ▸ hs, .inr ⟨hname, hlast⟩⟩⟩
  · constructor
    · intro h n hn hlabel
      have hmem := (hchosen n s).mpr ⟨hn, hname ▸ hs, .inl (hname ▸ hlabel)⟩
      have habsurd := h n s hmem hname
      rw [hlabel] at habsurd
      cases habsurd
    · intro h n s' hs' hname'
      obtain ⟨hn, -, hlab | ⟨-, hlast⟩⟩ := (hchosen n s').mp hs'
      · exact absurd (hname' ▸ hlab) (h n hn)
      · exact hnone n hn ((hremembered n hn).mpr hlast)

namespace RouteTable

/-- A walk that reaches a return with `_var` among the selected nodes and no `*` returns the chosen
nodes and relationships, each inside the function if there is one; and it fails if nothing is
chosen. The unlabelled nodes of the matched entity are all returned exactly if there is at most one
and a level built it itself. -/
theorem compile_selecting_unlabelled {table : RouteTable} {options : StatementOptions}
    {token : String} {rest : List String} {trail : Trail} {step : Step} {last : String}
    {nodes edges : List ItemSelector} {own : Option FuncSpec} {pathId : Option String} {e : Entity}
    (hfollow : Trail.followAll {} table.root token rest = .ok (trail, step, last))
    (hret : step.ret = some (.select nodes edges own pathId)) (hentity : trail.entity = some e)
    (hvar : ∃ s ∈ nodes, s.name = "_var") (hstar : ∀ s ∈ nodes, s.name ≠ "*") :
    ∃ visits earlier first later chosen related,
      table.root.visit (token :: rest) = some visits ∧
      introductions visits = earlier ++ first :: later ∧ first.edge = none ∧
      (∀ x ∈ later, x.edge.isSome) ∧
      e.Chosen nodes (nodesIn earlier) (first :: later) chosen ∧
      (∀ c ∈ related, c.1 ∈ e.edgeCopies ∧ c.2 ∈ edges) ∧
      table.compile options (token :: rest) =
        if chosen = [] ∧ related = [] then .error (.nothingSelected last)
        else .ok
          { statement := Trail.statementOf e
              (ReturnSpec.termsOf (own.or step.func).isNone chosen related) (own.or step.func)
              options
            key := keyText trail.key
            bindings := trail.bindings
            pathId } := by
  have hcompile : table.compile options (token :: rest) = trail.finish step last options := by
    rw [compile, hfollow]
    rfl
  obtain ⟨visits, v, hvisit, hvisits, -, -⟩ := Trail.followAll_eq_ok_iff.mp hfollow
  have hreached := Trail.reachedBy_of_followVisits hvisits hentity
  have hnothing : Trail.Remembers [] {} := rfl
  have hremembers := hnothing.followVisits Trail.declares_start Trail.sound_start hvisits
  obtain ⟨earlier, first, later, hsplit, hfirst, hlater, hshows⟩ :=
    (Trail.declares_start.followVisits Trail.sound_start hvisits).entity e hentity
  rw [Trail.Remembers, hsplit] at hremembers
  refine ⟨visits ++ [v], earlier, first, later, _, ReturnSpec.chosenEdges e edges, hvisit, hsplit,
    hfirst, hlater, Entity.chosen_chosenNodes hreached hshows hremembers hvar, ?_, ?_⟩
  · rintro ⟨r, s⟩ hc
    obtain ⟨hr, hs⟩ := ReturnSpec.mem_chosenEdges_iff.mp hc
    exact ⟨Entity.mem_edgeCopies_of_mem_edges hr, List.mem_of_find?_eq_some hs⟩
  · rw [hcompile]
    simp only [Trail.finish, hret, hentity, ReturnSpec.resolve_select_eq hreached.tidy hstar]
    split_ifs <;> rfl

/-- The table of `/a/b`, which ends in an unlabelled node and returns it behind a labelled one. -/
def endingUnlabelled : RouteTable where
  root := ⟨[("a", ⟨{ node := some (.label "A") },
    ⟨[("b", ⟨{ node := some .unlabelled
               edge := some ⟨"r", .right, none⟩
               ret := some (.select [⟨"_var", some "x"⟩, ⟨"A", none⟩] [⟨"r", none⟩] none none) },
      .empty⟩)], none⟩⟩)], none⟩

/-- The labelled node, the unlabelled one and the relationship are returned. -/
theorem compile_selecting_unlabelled_ending :
    ∃ trail step last e c visits earlier first later chosen,
      ∃ related : List (Relationship × ItemSelector),
      Trail.followAll {} endingUnlabelled.root "a" ["b"] = .ok (trail, step, last) ∧
      step.ret = some (.select [⟨"_var", some "x"⟩, ⟨"A", none⟩] [⟨"r", none⟩] none none) ∧
      trail.entity = some e ∧ endingUnlabelled.compile {} ["a", "b"] = .ok c ∧
      c.statement.textIn .parameterized = "MATCH (n0:A)-[r0:r]->(n1) RETURN n0, n1 as x, r0" ∧
      endingUnlabelled.root.visit ["a", "b"] = some visits ∧
      introductions visits = earlier ++ first :: later ∧
      e.Chosen [⟨"_var", some "x"⟩, ⟨"A", none⟩] (nodesIn earlier) (first :: later) chosen ∧
      ∀ s ∈ related, s.1 ∈ e.edgeCopies ∧ s.2 ∈ [⟨"r", none⟩] := by
  have hfollow : Trail.followAll {} endingUnlabelled.root "a" ["b"] = .ok (_, _, _) := rfl
  obtain ⟨c, hc, htext⟩ := exists_ok_of_observed
    (f := fun c : Compiled => c.statement.textIn .parameterized)
    (b := "MATCH (n0:A)-[r0:r]->(n1) RETURN n0, n1 as x, r0")
    (x := endingUnlabelled.compile {} ["a", "b"]) (by decide +kernel)
  obtain ⟨visits, earlier, first, later, chosen, related, hvisit, hsplit, -, -, hchosen, hrelated,
    -⟩ := @compile_selecting_unlabelled _ {} _ _ _ _ _ _ _ _ _ _ hfollow rfl rfl (by decide)
      (by decide)
  exact ⟨_, _, _, _, c, visits, earlier, first, later, chosen, related, hfollow, rfl, rfl, hc,
    htext, hvisit, hsplit, hchosen, hrelated⟩

/-- The table of `/a/b`, both levels of which are unlabelled nodes. -/
def twiceUnlabelled : RouteTable where
  root := ⟨[("a", ⟨{ node := some .unlabelled },
    ⟨[("b", ⟨{ node := some .unlabelled
               edge := some ⟨"r", .right, none⟩
               ret := some (.select [⟨"_var", none⟩] [] none none) }, .empty⟩)], none⟩⟩)], none⟩

/-- The table of `/a`, the block of which ends in an unlabelled node. -/
def nestedUnlabelled : RouteTable where
  root := ⟨[("a", ⟨{ node := some (.linked "A" none ⟨"r", .right, none⟩ .unlabelled)
                     ret := some (.select [⟨"_var", none⟩] [] none none) }, .empty⟩)], none⟩

/-- The first of the two nodes is not returned, and the nested one is not found. -/
theorem unreturned_unlabelled :
    (∃ trail step last e n c,
      Trail.followAll {} twiceUnlabelled.root "a" ["b"] = .ok (trail, step, last) ∧
        step.ret = some (.select [⟨"_var", none⟩] [] none none) ∧ trail.entity = some e ∧
        n ∈ e.nodeCopies ∧ n.var = "n0" ∧ n.label = none ∧
        twiceUnlabelled.compile {} ["a", "b"] = .ok c ∧
        c.statement.textIn .parameterized = "MATCH (n0)-[r0:r]->(n1) RETURN n1") ∧
    ∃ trail step last e n,
      Trail.followAll {} nestedUnlabelled.root "a" [] = .ok (trail, step, last) ∧
        step.ret = some (.select [⟨"_var", none⟩] [] none none) ∧ trail.entity = some e ∧
        n ∈ e.nodeCopies ∧ n.label = none ∧
        nestedUnlabelled.compile {} ["a"] = .error (.nothingSelected "a") := by
  obtain ⟨c, hc, htext⟩ := exists_ok_of_observed
    (f := fun c : Compiled => c.statement.textIn .parameterized)
    (b := "MATCH (n0)-[r0:r]->(n1) RETURN n1")
    (x := twiceUnlabelled.compile {} ["a", "b"]) (by decide +kernel)
  refine ⟨⟨_, _, _, _, _, c, rfl, rfl, rfl, List.mem_cons_self, by decide, rfl, hc, htext⟩, ?_⟩
  exact ⟨_, _, _, _, _, rfl, rfl, rfl, List.mem_cons_of_mem _ (List.mem_singleton_self _), rfl, rfl⟩

end RouteTable

end CypherRoutes
