/-
# Continued routes

A route whose levels each introduce one node draws its relationships between these nodes. The
second node is joined to the first one, whatever the direction. A third node is joined to the
target of the first relationship: that is the second node if the relationship points to the right,
but the first node if it points to the left (`arcs_of_compile`). A fourth node is never joined, as
it is not clear where a path of two triples goes on.
-/
import CypherRoutes.Proofs.Route.Finish
import CypherRoutes.Proofs.Route.Trail

namespace CypherRoutes

/-! ## What is drawn -/

/-- The variable and the label of a node. -/
structure NodeMark where
  var : String
  label : Option String
deriving DecidableEq

/-- A relationship between two nodes, from its source to its target. -/
structure Arc where
  source : NodeMark
  edge : String
  kind : Option String
  target : NodeMark
deriving DecidableEq

/-- The variable and the label. -/
def Node.mark (n : Node) : NodeMark := ⟨n.var, n.label⟩

/-- The relationship of a triple. -/
def Triple.arc (t : Triple) : Arc := ⟨t.source.mark, t.edge.var, t.edge.kind, t.target.mark⟩

/-- The relationships between the nodes of an entity, in order. -/
def Entity.arcs : Entity → List Arc
  | triple t => [t.arc]
  | path g => g.triples.map Triple.arc
  | _ => []

/-! ## What a route introduces -/

/-- A level that introduces an entity, with its edge. -/
structure Introduction where
  node : NodeSpec
  edge : Option EdgeSpec

/-- What a step introduces. -/
def Step.introduces (step : Step) : List Introduction :=
  (step.node.map fun spec => ⟨spec, step.edge⟩).toList

/-- What the visited levels introduce, in order. -/
def introductions (visits : List Visit) : List Introduction :=
  visits.flatMap fun v => v.step.introduces

/-- Whether one node and nothing else is introduced: by a label, or by `_var`. -/
def NodeSpec.IsPlain : NodeSpec → Prop
  | label _ => True
  | unlabelled => True
  | _ => False

/-- The label of the node that is introduced. -/
def NodeSpec.label? : NodeSpec → Option String
  | label name => some name
  | unlabelled => none
  | block name _ => some name
  | linked name _ _ _ => some name

/-- The node of the introduction with the given index. -/
def Introduction.mark (x : Introduction) (i : Nat) : NodeMark :=
  ⟨Numbering.varName 'n' i, x.node.label?⟩

/-- The relationship of the edge with the given index, from one node to a new one or back. -/
def EdgeSpec.arc (spec : EdgeSpec) (i : Nat) (before new : NodeMark) : Arc where
  source := (spec.direction.orient before new).1
  edge := Numbering.varName 'r' i
  kind := some spec.kind
  target := (spec.direction.orient before new).2

/-- The relationships that join every node to the one introduced before it; `before` is that node
for the introduction with index `i + 1`. -/
def chainFrom (i : Nat) (before : NodeMark) : List Introduction → List Arc
  | [] => []
  | x :: rest =>
    (x.edge.map fun spec => spec.arc i before (x.mark (i + 1))).toList ++
      chainFrom (i + 1) (x.mark (i + 1)) rest

/-- The relationships of a route each of whose nodes is joined to the one before it. -/
def chainArcs : List Introduction → List Arc
  | [] => []
  | x :: rest => chainFrom 0 (x.mark 0) rest

/-- The relationships as they are drawn: each joins the new node to the target of the one before
it; `before` is that target for the introduction with index `i + 1`. -/
def drawnFrom (i : Nat) (before : NodeMark) : List Introduction → List Arc
  | [] => []
  | x :: rest =>
    match x.edge with
    | none => drawnFrom (i + 1) (x.mark (i + 1)) rest
    | some spec =>
      spec.arc i before (x.mark (i + 1)) ::
        drawnFrom (i + 1) (spec.arc i before (x.mark (i + 1))).target rest

/-- The relationships of a route as they are drawn. -/
def drawnArcs : List Introduction → List Arc
  | [] => []
  | x :: rest => drawnFrom 0 (x.mark 0) rest

/-- A third node is introduced behind a relationship that points back. -/
def TurnsBack (introduced : List Introduction) : Prop :=
  ∃ x y z spec, introduced = [x, y, z] ∧ y.edge = some spec ∧ spec.direction = .left

/-! ## Stitching a node on -/

/-- A relationship behind a triple goes on from the triple's target. -/
theorem stitch_triple_node {t : Triple} {r : Relationship} (hr : r.var ≠ t.edge.var) (m : Node) :
    stitch [.triple t, .relationship r, .node m] = .ok [t, r.relate t.target m] := by
  have hsame : t.sameAs (r.relate t.target m) = false := by
    rw [Triple.sameAs, Relationship.relate, beq_eq_false_iff_ne.mpr (Ne.symm hr), Bool.false_and,
      Bool.false_and]
  have htouches : t.touches (r.relate t.target m) = true := by
    rw [Triple.touches, Relationship.relate]
    cases r.direction <;> simp [Direction.orient, Triple.nodes, Node.sameEndpoint]
  have happend : Stitch.append [t] [r.relate t.target m] 3 = .ok [t, r.relate t.target m] := by
    simp [Stitch.append, Stitch.merge, hsame, htouches]
  have hlast : Stitch.take ⟨[t], some t.target, .rel r⟩ (.node m) 3
      = .ok ⟨[t, r.relate t.target m], some m, .nothing⟩ :=
    bind_eq_ok_iff.mpr ⟨_, happend, rfl⟩
  refine bind_eq_ok_iff.mpr ⟨⟨[t, r.relate t.target m], some m, .nothing⟩, ?_, rfl⟩
  refine bind_eq_ok_iff.mpr ⟨⟨[t], some t.target, .nothing⟩, rfl, ?_⟩
  refine bind_eq_ok_iff.mpr ⟨⟨[t], some t.target, .rel r⟩, rfl, ?_⟩
  exact bind_eq_ok_iff.mpr ⟨_, hlast, rfl⟩

/-- Behind a path of two triples it is not clear where a relationship goes on. -/
theorem stitch_path_node {g : Path} {t u : Triple} (hg : g.triples = [t, u]) (r : Relationship)
    (m : Node) (triples : List Triple) :
    stitch [.path g, .relationship r, .node m] ≠ .ok triples := by
  intro h
  obtain ⟨s, htake, -⟩ := bind_eq_ok_iff.mp h
  obtain ⟨s₁, hpath, htake⟩ := bind_eq_ok_iff.mp htake
  obtain ⟨s₂, hrel, htake⟩ := bind_eq_ok_iff.mp htake
  obtain ⟨s₃, hnode, -⟩ := bind_eq_ok_iff.mp htake
  have hs₁ : s₁ = ⟨Stitch.merge [] [t, u], none, .nothing⟩ := by
    have hfragment : Stitch.take {} (.path g) 1 = Stitch.addFragment [] g.triples 1 := rfl
    rw [hfragment, hg] at hpath
    exact (Except.ok.inj hpath).symm
  subst hs₁
  simp only [Stitch.take] at hrel
  split_ifs at hrel
  obtain rfl := Except.ok.inj hrel
  cases hnode

/-! ## The shape of a continued route -/

/-- What the introductions of a route draw when each but the first has an edge. -/
inductive Drawn : List Introduction → Option Entity → Prop where
  | nothing : Drawn [] none
  | node {x : Introduction} {n : Node} : n.mark = x.mark 0 → Drawn [x] (some (.node n))
  | triple {x y : Introduction} {spec : EdgeSpec} {t : Triple} : y.edge = some spec →
      t.arc = spec.arc 0 (x.mark 0) (y.mark 1) → Drawn [x, y] (some (.triple t))
  | path {x y z : Introduction} {spec spec' : EdgeSpec} {g : Path} {t u : Triple} :
      y.edge = some spec → z.edge = some spec' → g.triples = [t, u] →
      t.arc = spec.arc 0 (x.mark 0) (y.mark 1) →
      u.arc = spec'.arc 1 t.arc.target (z.mark 2) → Drawn [x, y, z] (some (.path g))

/-- Attaching a property changes no mark. -/
theorem Node.mark_attachIf (n : Node) (var : String) (p : Property) :
    (n.attachIf var p).mark = n.mark := by
  rw [Node.attachIf]
  split_ifs <;> rfl

theorem Triple.arc_attachToNode (t : Triple) (var : String) (p : Property) :
    (t.attachToNode var p).arc = t.arc := by
  have hsource : (t.attachToNode var p).source.mark = t.source.mark :=
    t.source.mark_attachIf var p
  have htarget : (t.attachToNode var p).target.mark = t.target.mark :=
    t.target.mark_attachIf var p
  rw [arc, hsource, htarget]
  rfl

theorem Triple.arc_attachToEdge (t : Triple) (var : String) (p : Property) :
    (t.attachToEdge var p).arc = t.arc := by
  rw [arc, arc, attachToEdge, map]
  split_ifs <;> rfl

namespace Drawn

variable {introduced : List Introduction} {e e' : Entity} {p : Property}

theorem attachToNode (h : Drawn introduced (some e)) (var : String) (p : Property) :
    Drawn introduced (some (e.attachToNode var p)) := by
  cases h with
  | @node x n hmark => exact .node ((n.mark_attachIf var p).trans hmark)
  | @triple x y spec t hy ht => exact .triple hy ((t.arc_attachToNode var p).trans ht)
  | @path x y z spec spec' g t u hy hz hg ht hu =>
      refine .path (t := t.attachToNode var p) (u := u.attachToNode var p) hy hz ?_ ?_ ?_
      · rw [Path.map, hg]
        rfl
      · rw [t.arc_attachToNode, ht]
      · rw [t.arc_attachToNode, u.arc_attachToNode, hu]

theorem attachToEdge (h : Drawn introduced (some e)) (var : String) (p : Property) :
    Drawn introduced (some (e.attachToEdge var p)) := by
  cases h with
  | node hmark => exact .node hmark
  | @triple x y spec t hy ht => exact .triple hy ((t.arc_attachToEdge var p).trans ht)
  | @path x y z spec spec' g t u hy hz hg ht hu =>
      refine .path (t := t.attachToEdge var p) (u := u.attachToEdge var p) hy hz ?_ ?_ ?_
      · rw [Path.map, hg]
        rfl
      · rw [t.arc_attachToEdge, ht]
      · rw [t.arc_attachToEdge, u.arc_attachToEdge, hu]

/-- Gaining a property changes nothing that is drawn. -/
theorem gains (h : Drawn introduced (some e)) (hgains : e.Gains p e') :
    Drawn introduced (some e') := by
  cases hgains with
  | node var => exact h.attachToNode var p
  | edge var => exact h.attachToEdge var p
  | both var var' => exact (h.attachToNode var p).attachToEdge var' p

end Drawn

namespace Drawn

variable {introduced : List Introduction} {e : Entity}

/-- No more than three nodes are joined. -/
theorem length_le {entity : Option Entity} (h : Drawn introduced entity) :
    introduced.length ≤ 3 := by
  cases h <;> simp

/-- The relationships of the entity. -/
theorem arcs_eq (h : Drawn introduced (some e)) : e.arcs = drawnArcs introduced := by
  cases h with
  | node hmark => rfl
  | @triple x y spec t hy ht =>
      rw [Entity.arcs, drawnArcs, drawnFrom, hy, ht]
      rfl
  | @path x y z spec spec' g t u hy hz hg ht hu =>
      rw [ht] at hu
      simp only [Entity.arcs, drawnArcs, drawnFrom, hy, hz, hg, List.map_cons, List.map_nil, ht, hu]

/-- The edge between two nodes tells both. -/
theorem before_of_arc_eq {spec : EdgeSpec} {i : Nat} {a b new : NodeMark}
    (h : spec.arc i a new = spec.arc i b new) : a = b := by
  obtain ⟨kind, direction, hint⟩ := spec
  cases direction with
  | right => exact congrArg Arc.source h
  | left => exact congrArg Arc.target h

/-- Every node is joined to the one before it, unless the route turns back. -/
theorem arcs_eq_chainArcs_iff (h : Drawn introduced (some e)) :
    e.arcs = chainArcs introduced ↔ ¬ TurnsBack introduced := by
  rw [h.arcs_eq]
  cases h with
  | node hmark => simp [drawnArcs, drawnFrom, chainArcs, chainFrom, TurnsBack]
  | @triple x y spec t hy ht =>
      simp [drawnArcs, drawnFrom, chainArcs, chainFrom, TurnsBack, hy]
  | @path x y z spec spec' g t u hy hz hg ht hu =>
      have hturns : TurnsBack [x, y, z] ↔ spec.direction = .left := by
        constructor
        · rintro ⟨x', y', z', spec', heq, hspec, hleft⟩
          obtain ⟨rfl, rfl, rfl⟩ : x = x' ∧ y = y' ∧ z = z' := by simpa using heq
          rwa [Option.some.inj (hy.symm.trans hspec)]
        · exact fun hleft => ⟨x, y, z, spec, rfl, hy, hleft⟩
      have hchain : drawnArcs [x, y, z] = chainArcs [x, y, z] ↔
          spec'.arc 1 (spec.arc 0 (x.mark 0) (y.mark 1)).target (z.mark 2)
            = spec'.arc 1 (y.mark 1) (z.mark 2) := by
        simp [drawnArcs, drawnFrom, chainArcs, chainFrom, hy, hz]
      rw [hturns, hchain]
      cases hdirection : spec.direction with
      | right =>
          have htarget : (spec.arc 0 (x.mark 0) (y.mark 1)).target = y.mark 1 := by
            rw [EdgeSpec.arc, hdirection]
            rfl
          simp [htarget]
      | left =>
          have htarget : (spec.arc 0 (x.mark 0) (y.mark 1)).target = x.mark 0 := by
            rw [EdgeSpec.arc, hdirection]
            rfl
          rw [htarget]
          refine ⟨fun heq => ?_, fun hright => absurd rfl hright⟩
          have hvars := congrArg NodeMark.var (before_of_arc_eq heq)
          exact absurd (Numbering.varName_injective hvars).2 (by decide)

end Drawn

/-! ## One step -/

namespace Trail

/-- What a trail has drawn, with the numbers that it has used for it. -/
structure Draws (introduced : List Introduction) (trail : Trail) : Prop where
  drawn : Drawn introduced trail.entity
  nodes : trail.numbering.nodes = introduced.length
  relationships : trail.numbering.relationships = introduced.length - 1

/-- The property of a token takes no number of a node or a relationship. -/
theorem counts_propOf (s : Numbering) (token : String) (step : Step) (param : Option String) :
    (propOf s token step param).2.nodes = s.nodes ∧
      (propOf s token step param).2.relationships = s.relationships := by
  unfold propOf
  cases step.prop with
  | some spec => cases spec <;> exact ⟨rfl, rfl⟩
  | none => cases param <;> exact ⟨rfl, rfl⟩

/-- A plain step introduces one node with the next variable. -/
theorem build_plain {spec : NodeSpec} (hplain : spec.IsPlain) {s : Numbering} {token : String}
    {built : Entity × Numbering} (h : spec.build s token = .ok built) :
    ∃ n, built.1 = .node n ∧ n.mark = ⟨Numbering.varName 'n' s.nodes, spec.label?⟩ ∧
      built.2.nodes = s.nodes + 1 ∧ built.2.relationships = s.relationships := by
  cases spec with
  | label name =>
      obtain rfl := Except.ok.inj h
      exact ⟨_, rfl, rfl, rfl, rfl⟩
  | unlabelled =>
      obtain rfl := Except.ok.inj h
      exact ⟨_, rfl, rfl, rfl, rfl⟩
  | block => exact hplain.elim
  | linked => exact hplain.elim

/-- The relationship of an edge between two nodes. -/
theorem arc_relate_build (spec : EdgeSpec) (s : Numbering) (n m : Node) :
    ((spec.build s).1.relate n m).arc = spec.arc s.relationships n.mark m.mark := by
  obtain ⟨kind, direction, hint⟩ := spec
  cases direction <;> rfl

/-- The attached property leaves what is drawn as it is. -/
theorem drawn_attachGiven {introduced : List Introduction} {entity entity' : Option Entity}
    {p : Option Property} {step : Step} {token : String} (h : Drawn introduced entity)
    (hattach : attachGiven entity p step token = .ok entity') : Drawn introduced entity' := by
  cases p with
  | none => exact Except.ok.inj hattach ▸ h
  | some p =>
      obtain ⟨e', hgained, rfl⟩ := map_eq_ok_iff.mp hattach
      obtain ⟨e, rfl, hgains⟩ := attach_eq_ok hgained
      exact h.gains hgains

/-- A new node joined to what was drawn before. -/
theorem drawn_link {before : List Introduction} {e e' : Entity} {n : Node} {s s' : Numbering}
    {x : Introduction} {spec : EdgeSpec} {token : String} (h : Drawn before (some e))
    (hs : s.relationships = before.length - 1) (hx : x.edge = some spec)
    (hn : n.mark = x.mark before.length)
    (hlink : link (spec.build s).2 e (spec.build s).1 (.node n) token = .ok (e', s')) :
    Drawn (before ++ [x]) (some e') ∧ s'.nodes = s.nodes ∧
      s'.relationships = s.relationships + 1 := by
  have hvar : (spec.build s).1.var = Numbering.varName 'r' s.relationships := rfl
  rcases link_eq_ok hlink with ⟨a, b, rfl, hb, rfl, rfl⟩ | ⟨triples, hstitch, rfl, rfl⟩
  · -- the second node makes a triple
    obtain rfl := Entity.node.inj hb
    refine ⟨?_, rfl, rfl⟩
    cases h with
    | @node y n' hmark =>
        refine .triple hx ?_
        rw [arc_relate_build, hmark, hn, hs]
        rfl
  · refine ⟨?_, rfl, rfl⟩
    cases h with
    | @node y n' hmark => cases hlink
    | @triple y z spec₀ t hz ht =>
        -- the third node is joined to the target of the triple
        have hone : s.relationships = 1 := hs
        have hedge : t.edge.var = Numbering.varName 'r' 0 := congrArg Arc.edge ht
        have hnew : (spec.build s).1.var ≠ t.edge.var := by
          rw [hvar, hone, hedge]
          exact fun hsame => absurd (Numbering.varName_injective hsame).2 (by decide)
        obtain rfl := Except.ok.inj ((stitch_triple_node hnew n).symm.trans hstitch)
        refine .path hz hx rfl ht ?_
        rw [arc_relate_build, hn, hone]
        rfl
    | @path y z w spec₀ spec₁ g t u hz hw hg ht hu =>
        exact absurd hstitch (stitch_path_node hg _ n triples)

/-- A step that introduces nothing has no edge either, and leaves what is drawn. -/
theorem eq_of_connect_none {s : Numbering} {entity : Option Entity} {step : Step}
    {token : String} {connected : Option Entity × Numbering}
    (h : connect s entity none step token = .ok connected) : connected = (entity, s) := by
  rcases connect_eq_ok h with ⟨-, rfl⟩ | ⟨-, -, new, -, -, -, -, hnew, -⟩
  · rw [Option.none_or]
  · cases hnew

/-- Connecting a new node draws its edge, if anything was drawn before. -/
theorem drawn_connect (spec : NodeSpec) {before : List Introduction} {entity : Option Entity}
    {s : Numbering} {step : Step} {token : String} {n : Node}
    {connected : Option Entity × Numbering} (h : Drawn before entity)
    (hedge : before ≠ [] → step.edge.isSome)
    (hnodes : s.nodes = before.length + 1) (hrelationships : s.relationships = before.length - 1)
    (hmark : n.mark = Introduction.mark ⟨spec, step.edge⟩ before.length)
    (hconnect : connect s entity (some (.node n)) step token = .ok connected) :
    Drawn (before ++ [⟨spec, step.edge⟩]) connected.1 ∧
      connected.2.nodes = before.length + 1 ∧ connected.2.relationships = before.length := by
  rcases connect_eq_ok hconnect with
    ⟨hnone, rfl⟩ | ⟨edge, incoming, new, e, s', hsome, rfl, hnew, hlink, rfl⟩
  · -- only the first introduction is without an edge
    have hfirst : before = [] := by
      by_contra hne
      have hsome := hedge hne
      rw [hnone] at hsome
      cases hsome
    subst hfirst
    exact ⟨.node hmark, hnodes, hrelationships⟩
  · obtain rfl := Option.some.inj hnew
    have hbefore : before ≠ [] := by
      rintro rfl
      cases h
    have hpositive : 0 < before.length := List.length_pos_iff.mpr hbefore
    obtain ⟨hdrawn, hnodes', hrelationships'⟩ := drawn_link h hrelationships hsome hmark hlink
    refine ⟨hdrawn, hnodes'.trans hnodes, ?_⟩
    show s'.relationships = before.length
    omega

/-- A step draws what it introduces: its edge, if anything was drawn before. -/
theorem Draws.follow {before : List Introduction} {trail trail' : Trail} {token : String}
    {step : Step} {param : Option String} (h : trail.Draws before)
    (hplain : ∀ spec, step.node = some spec → spec.IsPlain)
    (hedge : before ≠ [] → step.node.isSome → step.edge.isSome)
    (hfollow : trail.follow token step param = .ok trail') :
    trail'.Draws (before ++ step.introduces) := by
  obtain ⟨entity, built, connected, hattach, hbuilt, hconnect, rfl⟩ :=
    follow_eq_ok_iff.mp hfollow
  obtain ⟨hnodes, hrelationships⟩ := counts_propOf trail.numbering token step param
  rw [h.nodes] at hnodes
  rw [h.relationships] at hrelationships
  have hdrawn := drawn_attachGiven h.drawn hattach
  generalize (propOf trail.numbering token step param).2 = s at hnodes hrelationships hbuilt
  rw [Step.introduces]
  cases hnode : step.node with
  | none =>
      rw [hnode] at hbuilt
      obtain rfl := Except.ok.inj hbuilt
      obtain rfl := eq_of_connect_none hconnect
      rw [Option.map_none, Option.toList_none, List.append_nil]
      exact ⟨hdrawn, hnodes, hrelationships⟩
  | some spec =>
      rw [hnode] at hbuilt
      obtain ⟨built, hbuild, rfl⟩ := map_eq_ok_iff.mp hbuilt
      obtain ⟨n, hn, hmark, hcount, hkept⟩ := build_plain (hplain spec hnode) hbuild
      simp only [hn] at hconnect
      rw [hnodes] at hmark hcount
      obtain ⟨hdrawn', hnodes', hrelationships'⟩ :=
        drawn_connect spec hdrawn (fun hne => hedge hne (by rw [hnode]; rfl)) hcount
          (hkept.trans hrelationships) hmark hconnect
      rw [Option.map_some, Option.toList_some]
      refine ⟨hdrawn', ?_, ?_⟩
      · rw [List.length_append, List.length_singleton]
        exact hnodes'
      · rw [List.length_append, List.length_singleton, Nat.add_sub_cancel]
        exact hrelationships'

/-- A list of visits draws what it introduces. -/
theorem Draws.followVisits {before : List Introduction} {trail trail' : Trail}
    {visits : List Visit} (h : trail.Draws before)
    (hplain : ∀ v ∈ visits, ∀ spec, v.step.node = some spec → spec.IsPlain)
    (hedges : ∀ x ∈ (before ++ introductions visits).tail, x.edge.isSome)
    (hfollow : trail.followVisits visits = .ok trail') :
    trail'.Draws (before ++ introductions visits) := by
  induction visits generalizing trail before with
  | nil =>
      obtain rfl := Except.ok.inj hfollow
      rwa [introductions, List.flatMap_nil, List.append_nil]
  | cons v rest ih =>
      obtain ⟨middle, hmiddle, hrest⟩ := bind_eq_ok_iff.mp hfollow
      have hsplit : before ++ introductions (v :: rest)
          = (before ++ v.step.introduces) ++ introductions rest := by
        rw [introductions, List.flatMap_cons, List.append_assoc]
        rfl
      rw [hsplit] at hedges ⊢
      refine ih ?_ (fun w hw => hplain w (List.mem_cons_of_mem _ hw)) hedges hrest
      refine h.follow (hplain v List.mem_cons_self) (fun hne hsome => ?_) hmiddle
      -- what the step introduces is not the first introduction
      obtain ⟨spec, hspec⟩ := Option.isSome_iff_exists.mp hsome
      refine hedges ⟨spec, v.step.edge⟩ ?_
      rw [Step.introduces, hspec, List.append_assoc, List.tail_append_of_ne_nil hne]
      exact List.mem_append_right _ (List.mem_append_left _ (List.mem_singleton_self _))

end Trail

/-! ## Compiled routes -/

namespace RouteTable

/-- A request whose levels introduce single nodes, each but the first with an edge, compiles only
if there are at most three of them. Each relationship then stands between the node of its level
and the target of the relationship before it. So every node is joined to the one introduced
before it, except behind a relationship that points back: there the third node is joined to the
first one. -/
theorem arcs_of_compile {table : RouteTable} {options : StatementOptions} {tokens : List String}
    {visits : List Visit} {c : Compiled} (hvisit : table.root.visit tokens = some visits)
    (hplain : ∀ v ∈ visits, ∀ spec, v.step.node = some spec → spec.IsPlain)
    (hedges : ∀ x ∈ (introductions visits).tail, x.edge.isSome)
    (h : table.compile options tokens = .ok c) :
    ∃ entity returned, c.statement.clauses = [.matching [.entity entity], .returning returned] ∧
      (introductions visits).length ≤ 3 ∧
      entity.arcs = drawnArcs (introductions visits) ∧
      (entity.arcs = chainArcs (introductions visits) ↔ ¬ TurnsBack (introductions visits)) := by
  obtain ⟨visits', v, trail, hvisit', hfollow, hfinish⟩ := compile_eq_ok_iff.mp h
  obtain rfl := Option.some.inj (hvisit.symm.trans hvisit')
  have hstart : Trail.Draws [] {} := ⟨.nothing, rfl, rfl⟩
  have hdraws := hstart.followVisits hplain hedges hfollow
  rw [List.nil_append] at hdraws
  obtain ⟨ret, entity, terms, func, pathId, -, hentity, -, rfl⟩ :=
    Trail.finish_eq_ok_iff.mp hfinish
  have hdrawn := hdraws.drawn
  rw [hentity] at hdrawn
  exact ⟨entity, FuncSpec.wrap func terms, rfl, hdrawn.length_le, hdrawn.arcs_eq,
    hdrawn.arcs_eq_chainArcs_iff⟩

/-- The table of `/a/b/c`, where both relationships point to the left. -/
def leftward : RouteTable where
  root := ⟨[("a", ⟨{ node := some (.label "A") },
    ⟨[("b", ⟨{ node := some (.label "B"), edge := some ⟨"r", .left, none⟩ },
      ⟨[("c", ⟨{ node := some (.label "C"), edge := some ⟨"s", .left, none⟩, ret := some .items },
        .empty⟩)], none⟩⟩)], none⟩⟩)], none⟩

/-- The relationships in the pattern of a compiled request. -/
def drawnBy (c : Compiled) : List Arc :=
  c.statement.clauses.flatMap fun
    | .matching [.entity entity] => entity.arcs
    | _ => []

/-- The relationship of `c` should lead from `c` to `b`, the node of the level before, and leads to
`a`. -/
theorem drawnBy_leftward :
    ∃ c, leftward.compile {} ["a", "b", "c"] = .ok c ∧
      (drawnBy c, c.statement.text) =
        ([⟨⟨"n1", some "B"⟩, "r0", some "r", ⟨"n0", some "A"⟩⟩,
          ⟨⟨"n2", some "C"⟩, "r1", some "s", ⟨"n0", some "A"⟩⟩],
          "MATCH (n1:B)-[r0:r]->(n0:A)<-[r1:s]-(n2:C) RETURN n1, n0, n2") :=
  exists_ok_of_observed (by decide +kernel)

/-- The characterization at this request: the third node is not joined to the second one. -/
theorem arcs_of_compile_leftward :
    ∃ c visits, leftward.compile {} ["a", "b", "c"] = .ok c ∧
      leftward.root.visit ["a", "b", "c"] = some visits ∧
      ∃ entity returned, c.statement.clauses = [.matching [.entity entity], .returning returned] ∧
        entity.arcs = drawnArcs (introductions visits) ∧
        entity.arcs ≠ chainArcs (introductions visits) := by
  obtain ⟨c, hc, -⟩ := exists_ok_of_observed (f := fun _ => ()) (b := ())
    (x := leftward.compile {} ["a", "b", "c"]) (by decide +kernel)
  have hvisit : leftward.root.visit ["a", "b", "c"] = some _ := rfl
  obtain ⟨entity, returned, hclauses, -, harcs, hchain⟩ :=
    arcs_of_compile hvisit (by simp [NodeSpec.IsPlain])
      (by simp [introductions, Step.introduces]) hc
  refine ⟨c, _, hc, hvisit, entity, returned, hclauses, harcs, fun heq => hchain.mp heq ?_⟩
  exact ⟨_, _, _, ⟨"r", .left, none⟩, rfl, rfl, rfl⟩

end RouteTable

end CypherRoutes
