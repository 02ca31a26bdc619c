/-
# What a route declares

The levels of a route declare nodes and relationships: a level declares the node of its `_node`,
with the nodes and relationships nested in its blocks, and the relationship of its `_edge`. A level
with a `_node` and no `_edge` starts anew. The entity of a compiled request has the nodes and the
relationships that the levels from the last such level on declare, each of them once, and every
relationship joins a node that was there before it to one that is new, in the direction of its
edge (`RouteTable.declared_of_compile`).
-/
import CypherRoutes.Proofs.Route.Continuation
import CypherRoutes.Proofs.Stitch.Contents

namespace CypherRoutes

/-! ## Declarations -/

/-- A declared relationship, with its index and the nodes of which it joins one to another. -/
structure Joint where
  edge : EdgeSpec
  index : Nat
  before : List NodeMark
  added : List NodeMark

/-- A relationship as it is drawn: between a node before it and an added one, in the direction of
its edge. -/
def Joint.DrawnAs (j : Joint) (arc : Arc) : Prop :=
  ∃ a ∈ j.before, ∃ b ∈ j.added, arc = j.edge.arc j.index a b

namespace NodeSpec

/-- The nodes that are declared, the first with the index `i`. -/
def marks (i : Nat) : NodeSpec → List NodeMark
  | label name => [⟨Numbering.varName 'n' i, some name⟩]
  | unlabelled => [⟨Numbering.varName 'n' i, none⟩]
  | block name _ => [⟨Numbering.varName 'n' i, some name⟩]
  | linked name _ _ target => ⟨Numbering.varName 'n' i, some name⟩ :: target.marks (i + 1)

/-- The number of nodes that are declared. -/
def nodeCount : NodeSpec → Nat
  | linked _ _ _ target => target.nodeCount + 1
  | _ => 1

/-- The number of relationships nested in the blocks. -/
def edgeCount : NodeSpec → Nat
  | linked _ _ _ target => target.edgeCount + 1
  | _ => 0

/-- The relationships nested in the blocks, with nodes from the index `i` and relationships from
the index `j` on. The relationship of a block has its index behind those of the target. -/
def joints (i j : Nat) : NodeSpec → List Joint
  | linked name _ edge target =>
    ⟨edge, j + target.edgeCount, [⟨Numbering.varName 'n' i, some name⟩], target.marks (i + 1)⟩ ::
      target.joints (i + 1) j
  | _ => []

end NodeSpec

/-- The number of relationships that a level declares. -/
def Introduction.edgeCount (x : Introduction) : Nat :=
  x.node.edgeCount + if x.edge.isSome then 1 else 0

/-- The number of nodes that levels declare. -/
def nodesIn (introduced : List Introduction) : Nat :=
  (introduced.map fun x => x.node.nodeCount).sum

/-- The number of relationships that levels declare. -/
def edgesIn (introduced : List Introduction) : Nat := (introduced.map Introduction.edgeCount).sum

/-- The nodes that levels declare, the first with the index `i`. -/
def marksFrom (i : Nat) : List Introduction → List NodeMark
  | [] => []
  | x :: rest => x.node.marks i ++ marksFrom (i + x.node.nodeCount) rest

/-- The relationships that levels declare behind levels with the nodes `before`: the `_edge` of
each level joins one of the nodes before it to one of the level's, and then come those nested in
the level's blocks. -/
def jointsFrom (i j : Nat) (before : List NodeMark) : List Introduction → List Joint
  | [] => []
  | x :: rest =>
    (x.edge.map fun edge => ⟨edge, j + x.node.edgeCount, before, x.node.marks i⟩).toList ++
      (x.node.joints i j ++
        jointsFrom (i + x.node.nodeCount) (j + x.edgeCount) (before ++ x.node.marks i) rest)

/-! ## Levels one after the other -/

theorem nodesIn_cons (x : Introduction) (rest : List Introduction) :
    nodesIn (x :: rest) = x.node.nodeCount + nodesIn rest := by
  rw [nodesIn, List.map_cons, List.sum_cons, nodesIn]

theorem edgesIn_cons (x : Introduction) (rest : List Introduction) :
    edgesIn (x :: rest) = x.edgeCount + edgesIn rest := by
  rw [edgesIn, List.map_cons, List.sum_cons, edgesIn]

theorem nodesIn_append (xs ys : List Introduction) :
    nodesIn (xs ++ ys) = nodesIn xs + nodesIn ys := by
  rw [nodesIn, List.map_append, List.sum_append, nodesIn, nodesIn]

theorem edgesIn_append (xs ys : List Introduction) :
    edgesIn (xs ++ ys) = edgesIn xs + edgesIn ys := by
  rw [edgesIn, List.map_append, List.sum_append, edgesIn, edgesIn]

theorem marksFrom_append (i : Nat) (xs ys : List Introduction) :
    marksFrom i (xs ++ ys) = marksFrom i xs ++ marksFrom (i + nodesIn xs) ys := by
  induction xs generalizing i with
  | nil => rfl
  | cons x rest ih =>
      simp only [List.cons_append, marksFrom, ih, nodesIn_cons, List.append_assoc, Nat.add_assoc]

theorem jointsFrom_append (i j : Nat) (before : List NodeMark) (xs ys : List Introduction) :
    jointsFrom i j before (xs ++ ys) = jointsFrom i j before xs ++
      jointsFrom (i + nodesIn xs) (j + edgesIn xs) (before ++ marksFrom i xs) ys := by
  induction xs generalizing i j before with
  | nil => simp [jointsFrom, nodesIn, marksFrom, edgesIn]
  | cons x rest ih =>
      simp only [List.cons_append, jointsFrom, marksFrom, ih, nodesIn_cons, edgesIn_cons,
        List.append_assoc, Nat.add_assoc]

/-! ## Indices -/

/-- The nodes of a level are numbered one after the other. -/
theorem NodeSpec.var_marks (spec : NodeSpec) (i : Nat) :
    (spec.marks i).map NodeMark.var
      = (List.range' i spec.nodeCount).map (Numbering.varName 'n') := by
  induction spec generalizing i with
  | linked name prop edge target ih =>
      rw [marks, List.map_cons, ih, nodeCount, List.range'_succ, List.map_cons]
  | label => rfl
  | unlabelled => rfl
  | block => rfl

/-- So are the nodes of levels. -/
theorem var_marksFrom (i : Nat) (introduced : List Introduction) :
    (marksFrom i introduced).map NodeMark.var
      = (List.range' i (nodesIn introduced)).map (Numbering.varName 'n') := by
  induction introduced generalizing i with
  | nil => rfl
  | cons x rest ih =>
      rw [marksFrom, List.map_append, x.node.var_marks, ih, ← List.map_append, List.range'_append_1,
        nodesIn_cons]

/-- No declared node has the variable of another. -/
theorem nodup_marksFrom (i : Nat) (introduced : List Introduction) :
    ((marksFrom i introduced).map NodeMark.var).Nodup := by
  rw [var_marksFrom]
  exact (List.nodup_range' ..).map fun _ _ h => (Numbering.varName_injective h).2

/-! ## What an entity shows -/

namespace Entity

/-- An entity has the given nodes and no others, and draws the given relationships in their order,
each with a variable of its own. -/
structure Shows (e : Entity) (marks : List NodeMark) (joints : List Joint) : Prop where
  nodes : ∀ k, k ∈ marks ↔ ∃ n ∈ e.nodeCopies, n.mark = k
  arcs : List.Forall₂ Joint.DrawnAs joints e.arcs
  nodup : (e.arcs.map Arc.edge).Nodup

theorem arcs_eq_map (e : Entity) : e.arcs = e.triples.map Triple.arc := by
  cases e <;> rfl

/-- The variable of a drawn relationship is one of the entity's. -/
theorem edge_mem_vars {e : Entity} {v : String} (h : v ∈ e.arcs.map Arc.edge) : v ∈ e.vars := by
  obtain ⟨arc, harc, rfl⟩ := List.mem_map.mp h
  rw [arcs_eq_map] at harc
  obtain ⟨t, ht, rfl⟩ := List.mem_map.mp harc
  exact var_mem_vars_of_edge (mem_edgeCopies_of_mem_triples ht)

theorem arcs_attachToNode (e : Entity) (var : String) (p : Property) :
    (e.attachToNode var p).arcs = e.arcs := by
  cases e with
  | triple t => exact congrArg (fun arc => [arc]) (t.arc_attachToNode var p)
  | path g =>
      simp only [attachToNode, arcs, Path.map, List.map_map]
      exact List.map_congr_left fun t _ => t.arc_attachToNode var p
  | node => rfl
  | relationship => rfl
  | property => rfl

theorem arcs_attachToEdge (e : Entity) (var : String) (p : Property) :
    (e.attachToEdge var p).arcs = e.arcs := by
  cases e with
  | triple t => exact congrArg (fun arc => [arc]) (t.arc_attachToEdge var p)
  | path g =>
      simp only [attachToEdge, arcs, Path.map, List.map_map]
      exact List.map_congr_left fun t _ => t.arc_attachToEdge var p
  | node => rfl
  | relationship => rfl
  | property => rfl

namespace Shows

variable {e e' : Entity} {marks : List NodeMark} {joints : List Joint} {p : Property}

theorem attachToNode (h : e.Shows marks joints) (var : String) (p : Property) :
    (e.attachToNode var p).Shows marks joints where
  nodes k := by
    rw [h.nodes, nodeCopies_attachToNode]
    simp only [List.mem_map, exists_exists_and_eq_and, Node.mark_attachIf]
  arcs := by
    rw [arcs_attachToNode]
    exact h.arcs
  nodup := by
    rw [arcs_attachToNode]
    exact h.nodup

theorem attachToEdge (h : e.Shows marks joints) (var : String) (p : Property) :
    (e.attachToEdge var p).Shows marks joints where
  nodes k := by
    rw [h.nodes, nodeCopies_attachToEdge]
  arcs := by
    rw [arcs_attachToEdge]
    exact h.arcs
  nodup := by
    rw [arcs_attachToEdge]
    exact h.nodup

/-- Gaining a property changes nothing that is shown. -/
theorem gains (h : e.Shows marks joints) (hgains : e.Gains p e') : e'.Shows marks joints := by
  cases hgains with
  | node var => exact h.attachToNode var p
  | edge var => exact h.attachToEdge var p
  | both var var' => exact (h.attachToNode var p).attachToEdge var' p

end Shows

end Entity

/-! ## Linking what is shown -/

/-- An entity with two nodes has triples with these nodes. -/
theorem Entity.eq_or_mem_triples {e : Entity} {n k : Node} (hn : n ∈ e.nodeCopies)
    (hk : k ∈ e.nodeCopies) : k = n ∨ ∃ t ∈ e.triples, k ∈ t.nodes := by
  cases e with
  | node m => exact .inl ((List.mem_singleton.mp hk).trans (List.mem_singleton.mp hn).symm)
  | triple t => exact .inr ⟨t, List.mem_singleton_self t, hk⟩
  | path g => exact .inr (List.mem_flatMap.mp hk)
  | relationship => exact absurd hk List.not_mem_nil
  | property => exact absurd hk List.not_mem_nil

/-- A link has the triples of both entities and one between a node of the first and a node of the
second, and it has their nodes. -/
theorem link_between {s s' : Numbering} {a b e : Entity} {r : Relationship} {token : String}
    (h : link s a r b token = .ok (e, s'))
    (hnodup : ∀ n m, ((a.triples ++ r.relate n m :: b.triples).map Triple.ends).Nodup) :
    ∃ n ∈ a.nodeCopies, ∃ m ∈ b.nodeCopies,
      e.triples = a.triples ++ r.relate n m :: b.triples ∧
      ∀ k, k ∈ e.nodeCopies ↔ k ∈ a.nodeCopies ∨ k ∈ b.nodeCopies := by
  rcases link_eq_ok h with ⟨n, m, rfl, rfl, rfl, -⟩ | ⟨triples, hstitch, rfl, -⟩
  · refine ⟨n, List.mem_singleton_self n, m, List.mem_singleton_self m, rfl, fun k => ?_⟩
    simp only [Entity.nodeCopies, Relationship.mem_nodes_relate, List.mem_singleton]
  · obtain ⟨-, supplied, hsupplies, hmerge⟩ := supplies_of_stitch hstitch
    obtain ⟨n, hn, m, hm, rfl⟩ := hsupplies.between
    have htriples : triples = a.triples ++ r.relate n m :: b.triples :=
      hmerge.trans (Stitch.nil_merge (hnodup n m))
    refine ⟨n, hn, m, hm, htriples, fun k => ?_⟩
    have hcopies : k ∈ (Entity.path (s.path triples).1).nodeCopies ↔
        ∃ t ∈ a.triples ++ r.relate n m :: b.triples, k ∈ t.nodes := by
      rw [← htriples]
      exact List.mem_flatMap
    simp only [hcopies, List.mem_append, List.mem_cons, or_and_right, exists_or, exists_eq_left,
      Relationship.mem_nodes_relate]
    constructor
    · rintro (⟨t, ht, hk⟩ | (rfl | rfl) | ⟨t, ht, hk⟩)
      · exact .inl (Entity.mem_nodeCopies_of_mem_triples ht hk)
      · exact .inl hn
      · exact .inr hm
      · exact .inr (Entity.mem_nodeCopies_of_mem_triples ht hk)
    · -- an entity without triples is a node, which stands in the relationship's triple
      rintro (hk | hk)
      · rcases Entity.eq_or_mem_triples hn hk with rfl | hk
        · exact .inr (.inl (.inl rfl))
        · exact .inl hk
      · rcases Entity.eq_or_mem_triples hm hk with rfl | hk
        · exact .inr (.inl (.inr rfl))
        · exact .inr (.inr hk)

/-- A link uses up no number of a node or a relationship. -/
theorem counts_link {s s' : Numbering} {a b e : Entity} {r : Relationship} {token : String}
    (h : link s a r b token = .ok (e, s')) :
    s'.nodes = s.nodes ∧ s'.relationships = s.relationships := by
  rcases link_eq_ok h with ⟨n, m, -, -, -, rfl⟩ | ⟨triples, -, -, rfl⟩
  · exact ⟨rfl, rfl⟩
  · exact ⟨rfl, rfl⟩

section Built

variable {s₀ s₁ s₂ s₃ : Numbering} {a b e : Entity} {token : String}

/-- The relationships of two entities, the second built after the first, and the one of an edge
behind them have different variables. -/
theorem nodup_edges_build (spec : EdgeSpec) (ha : (a.arcs.map Arc.edge).Nodup)
    (hb : (b.arcs.map Arc.edge).Nodup) (hbefore : a.BuiltBetween s₀ s₁)
    (hafter : b.BuiltBetween s₁ s₂) :
    (a.arcs.map Arc.edge ++ (spec.build s₂).1.var :: b.arcs.map Arc.edge).Nodup := by
  have htakes := spec.takes_build s₂
  rw [List.nodup_append, List.nodup_cons]
  refine ⟨ha, ⟨fun hr => htakes.isNew (hafter.issued _ (Entity.edge_mem_vars hr)), hb⟩, ?_⟩
  rintro v hv w hw rfl
  have hissued := hbefore.issued v (Entity.edge_mem_vars hv)
  rcases List.mem_cons.mp hw with rfl | hw
  · exact htakes.isNew (hissued.mono hafter.before)
  · exact hafter.isNew v (Entity.edge_mem_vars hw) hissued

/-- So a link of them has all their triples and nodes. -/
theorem link_between_build {spec : EdgeSpec} (ha : (a.arcs.map Arc.edge).Nodup)
    (hb : (b.arcs.map Arc.edge).Nodup) (hbefore : a.BuiltBetween s₀ s₁)
    (hafter : b.BuiltBetween s₁ s₂)
    (h : link (spec.build s₂).2 a (spec.build s₂).1 b token = .ok (e, s₃)) :
    ∃ n ∈ a.nodeCopies, ∃ m ∈ b.nodeCopies,
      e.triples = a.triples ++ (spec.build s₂).1.relate n m :: b.triples ∧
      ∀ k, k ∈ e.nodeCopies ↔ k ∈ a.nodeCopies ∨ k ∈ b.nodeCopies := by
  have hedges := nodup_edges_build spec ha hb hbefore hafter
  have hnodup : ∀ n m, ((a.triples ++ (spec.build s₂).1.relate n m :: b.triples).map
      fun t => t.edge.var).Nodup := by
    intro n m
    rw [Entity.arcs_eq_map, Entity.arcs_eq_map, List.map_map, List.map_map] at hedges
    rwa [List.map_append, List.map_cons]
  exact link_between h fun n m => Triple.nodup_ends (hnodup n m)

end Built

/-- Two entities, the second built after the first, linked by the relationship of an edge. -/
theorem Entity.Shows.link {s₀ s₁ s₂ s₃ : Numbering} {a b e : Entity} {spec : EdgeSpec}
    {token : String} {marks marks' : List NodeMark} {joints joints' : List Joint}
    (ha : a.Shows marks joints) (hb : b.Shows marks' joints') (hbefore : a.BuiltBetween s₀ s₁)
    (hafter : b.BuiltBetween s₁ s₂)
    (h : CypherRoutes.link (spec.build s₂).2 a (spec.build s₂).1 b token = .ok (e, s₃)) :
    e.Shows (marks ++ marks')
      (joints ++ ⟨spec, s₂.relationships, marks, marks'⟩ :: joints') := by
  have hedges := nodup_edges_build spec ha.nodup hb.nodup hbefore hafter
  obtain ⟨n, hn, m, hm, htriples, hnodes⟩ :=
    link_between_build ha.nodup hb.nodup hbefore hafter h
  have harcs : e.arcs = a.arcs ++ spec.arc s₂.relationships n.mark m.mark :: b.arcs := by
    rw [arcs_eq_map, htriples, List.map_append, List.map_cons, Trail.arc_relate_build, arcs_eq_map,
      arcs_eq_map]
  constructor
  · intro k
    simp only [List.mem_append, ha.nodes, hb.nodes, hnodes, or_and_right, exists_or]
  · rw [harcs]
    refine List.rel_append ha.arcs (.cons ?_ hb.arcs)
    exact ⟨n.mark, (ha.nodes _).mpr ⟨n, hn, rfl⟩, m.mark, (hb.nodes _).mpr ⟨m, hm, rfl⟩, rfl⟩
  · rw [harcs, List.map_append, List.map_cons]
    exact hedges

/-! ## What a level builds -/

/-- A node shows itself. -/
theorem Entity.shows_node (n : Node) : (node n).Shows [n.mark] [] where
  nodes k := by simp [nodeCopies, eq_comm]
  arcs := .nil
  nodup := List.nodup_nil

/-- The node of a block is numbered with the next number, and nothing else is. -/
theorem NodeSpec.mark_buildNode (s : Numbering) (name : String) (prop : Option PropSpec) :
    (buildNode s name prop).1.mark = ⟨Numbering.varName 'n' s.nodes, some name⟩ ∧
      (buildNode s name prop).2.nodes = s.nodes + 1 ∧
      (buildNode s name prop).2.relationships = s.relationships := by
  cases prop with
  | none => exact ⟨rfl, rfl, rfl⟩
  | some spec => cases spec <;> exact ⟨rfl, rfl, rfl⟩

/-- What a level builds shows what it declares, and uses as many numbers. -/
theorem NodeSpec.shows_build {spec : NodeSpec} {s s' : Numbering} {token : String} {e : Entity}
    (h : spec.build s token = .ok (e, s')) :
    e.Shows (spec.marks s.nodes) (spec.joints s.nodes s.relationships) ∧
      s'.nodes = s.nodes + spec.nodeCount ∧
      s'.relationships = s.relationships + spec.edgeCount := by
  induction spec generalizing s s' e with
  | label name =>
      obtain ⟨rfl, rfl⟩ := Prod.mk.inj (Except.ok.inj h)
      exact ⟨Entity.shows_node _, rfl, rfl⟩
  | unlabelled =>
      obtain ⟨rfl, rfl⟩ := Prod.mk.inj (Except.ok.inj h)
      exact ⟨Entity.shows_node _, rfl, rfl⟩
  | block name prop =>
      obtain ⟨rfl, rfl⟩ := Prod.mk.inj (Except.ok.inj h)
      obtain ⟨hmark, hnodes, hrelationships⟩ := mark_buildNode s name prop
      have hnode := Entity.shows_node (buildNode s name prop).1
      rw [hmark] at hnode
      exact ⟨hnode, hnodes, hrelationships⟩
  | linked name prop edge target ih =>
      obtain ⟨⟨m, s₂⟩, htarget, hlink⟩ := bind_eq_ok_iff.mp h
      have htarget : build (buildNode s name prop).2 token target = .ok (m, s₂) := htarget
      have hlink : link (edge.build s₂).2 (.node (buildNode s name prop).1) (edge.build s₂).1 m
          token = .ok (e, s') := hlink
      obtain ⟨hmark, hnodes, hrelationships⟩ := mark_buildNode s name prop
      obtain ⟨hshows, hnodes', hrelationships'⟩ := ih htarget
      have hnode := Entity.shows_node (buildNode s name prop).1
      have hlinked := hnode.link hshows (builtBetween_buildNode s name prop)
        (builtBetween_build htarget) hlink
      rw [hmark, hnodes, hrelationships, hrelationships', hrelationships] at hlinked
      -- the relationship of the block is numbered last
      obtain ⟨hcount, hcount'⟩ := counts_link hlink
      have hcount : s'.nodes = s₂.nodes := hcount
      have hcount' : s'.relationships = s₂.relationships + 1 := hcount'
      refine ⟨hlinked, ?_, ?_⟩
      · rw [nodeCount]
        omega
      · rw [edgeCount]
        omega

/-! ## Following levels -/

/-- An entity shows what the levels from the last one without an `_edge` on declare. -/
def Entity.DeclaredBy (introduced : List Introduction) (e : Entity) : Prop :=
  ∃ earlier first later, introduced = earlier ++ first :: later ∧ first.edge = none ∧
    (∀ x ∈ later, x.edge.isSome) ∧
    e.Shows (marksFrom (nodesIn earlier) (first :: later))
      (jointsFrom (nodesIn earlier) (edgesIn earlier) [] (first :: later))

/-- A level without an `_edge` starts anew. -/
theorem Entity.declaredBy_fresh {introduced : List Introduction} {spec : NodeSpec} {e : Entity}
    (h : e.Shows (spec.marks (nodesIn introduced))
      (spec.joints (nodesIn introduced) (edgesIn introduced))) :
    e.DeclaredBy (introduced ++ [⟨spec, none⟩]) := by
  refine ⟨introduced, ⟨spec, none⟩, [], rfl, rfl, fun x hx => absurd hx List.not_mem_nil, ?_⟩
  simpa [marksFrom, jointsFrom] using h

/-- A level with an `_edge` is linked to the levels before it. -/
theorem Entity.DeclaredBy.link {introduced : List Introduction} {s₁ s₂ s₃ : Numbering}
    {a b e : Entity} {spec : NodeSpec} {edge : EdgeSpec} {token : String}
    (ha : a.DeclaredBy introduced)
    (hb : b.Shows (spec.marks (nodesIn introduced))
      (spec.joints (nodesIn introduced) (edgesIn introduced)))
    (hbefore : a.BuiltBetween .start s₁) (hafter : b.BuiltBetween s₁ s₂)
    (hs : s₂.relationships = edgesIn introduced + spec.edgeCount)
    (h : CypherRoutes.link (edge.build s₂).2 a (edge.build s₂).1 b token = .ok (e, s₃)) :
    e.DeclaredBy (introduced ++ [⟨spec, some edge⟩]) := by
  obtain ⟨earlier, first, later, rfl, hfirst, hlater, hshows⟩ := ha
  refine ⟨earlier, first, later ++ [⟨spec, some edge⟩], by simp, hfirst, ?_, ?_⟩
  · intro x hx
    rcases List.mem_append.mp hx with hx | hx
    · exact hlater x hx
    · rw [List.mem_singleton.mp hx]
      rfl
  · have hlinked := hshows.link hb hbefore hafter h
    rw [hs] at hlinked
    rw [← List.cons_append, marksFrom_append, jointsFrom_append, ← nodesIn_append,
      ← edgesIn_append, List.nil_append]
    simpa [marksFrom, jointsFrom] using hlinked

namespace Trail

/-- The entity of a trail is declared by the levels that were followed, which have used up the
numbers so far. -/
structure Declares (introduced : List Introduction) (trail : Trail) : Prop where
  nodes : trail.numbering.nodes = nodesIn introduced
  relationships : trail.numbering.relationships = edgesIn introduced
  entity : ∀ e, trail.entity = some e → e.DeclaredBy introduced

/-- The property of a token declares nothing. -/
theorem declaredBy_attachGiven {introduced : List Introduction} {entity entity' : Option Entity}
    {p : Option Property} {step : Step} {token : String}
    (h : ∀ e, entity = some e → e.DeclaredBy introduced)
    (hattach : attachGiven entity p step token = .ok entity') :
    ∀ e, entity' = some e → e.DeclaredBy introduced := by
  cases p with
  | none => exact Except.ok.inj hattach ▸ h
  | some p =>
      obtain ⟨e', hgained, rfl⟩ := map_eq_ok_iff.mp hattach
      obtain ⟨e, rfl, hgains⟩ := attach_eq_ok hgained
      intro e'' he''
      obtain rfl := Option.some.inj he''
      obtain ⟨earlier, first, later, hsplit, hfirst, hlater, hshows⟩ := h e rfl
      exact ⟨earlier, first, later, hsplit, hfirst, hlater, hshows.gains hgains⟩

/-- A step declares what it introduces. -/
theorem Declares.follow {introduced : List Introduction} {trail trail' : Trail} {token : String}
    {step : Step} {param : Option String} (h : trail.Declares introduced) (hsound : trail.Sound)
    (hfollow : trail.follow token step param = .ok trail') :
    trail'.Declares (introduced ++ step.introduces) := by
  obtain ⟨entity, built, connected, hattach, hbuilt, hconnect, rfl⟩ :=
    follow_eq_ok_iff.mp hfollow
  obtain ⟨hnodes, hrelationships⟩ := counts_propOf trail.numbering token step param
  rw [h.nodes] at hnodes
  rw [h.relationships] at hrelationships
  have hentity := declaredBy_attachGiven h.entity hattach
  have hbetween := builtBetween_attachGiven hsound.entity hattach
  cases hnode : step.node with
  | none =>
      rw [hnode] at hbuilt
      obtain rfl := Except.ok.inj hbuilt
      obtain rfl := eq_of_connect_none hconnect
      rw [Step.introduces, hnode, Option.map_none, Option.toList_none, List.append_nil]
      exact ⟨hnodes, hrelationships, hentity⟩
  | some spec =>
      rw [hnode] at hbuilt
      obtain ⟨⟨e, s⟩, hbuild, rfl⟩ := map_eq_ok_iff.mp hbuilt
      obtain ⟨hshows, hnodes', hrelationships'⟩ := NodeSpec.shows_build hbuild
      rw [hnodes, hrelationships] at hshows
      rw [hnodes] at hnodes'
      rw [hrelationships] at hrelationships'
      have hcount : nodesIn [⟨spec, step.edge⟩] = spec.nodeCount := by
        rw [nodesIn_cons]
        rfl
      rw [Step.introduces, hnode, Option.map_some, Option.toList_some]
      rcases connect_eq_ok hconnect with
        ⟨hnone, rfl⟩ | ⟨edge, incoming, new, linked, s', hsome, rfl, hnew, hlink, rfl⟩
      · rw [hnone] at hcount ⊢
        refine ⟨?_, ?_, fun e' he' => ?_⟩
        · rw [nodesIn_append, hcount]
          exact hnodes'
        · rw [edgesIn_append]
          exact hrelationships'
        · obtain rfl : e = e' := Option.some.inj he'
          exact Entity.declaredBy_fresh hshows
      · obtain rfl : e = new := Option.some.inj hnew
        rw [hsome] at hcount ⊢
        obtain ⟨hlinked, hlinked'⟩ := counts_link hlink
        have hlinked' : s'.relationships = s.relationships + 1 := hlinked'
        refine ⟨?_, ?_, fun e' he' => ?_⟩
        · rw [nodesIn_append, hcount]
          exact hlinked.trans hnodes'
        · rw [edgesIn_append]
          have hone : edgesIn [⟨spec, some edge⟩] = spec.edgeCount + 1 := rfl
          exact hlinked'.trans (by omega)
        · obtain rfl : linked = e' := Option.some.inj he'
          exact (hentity incoming rfl).link hshows (hbetween incoming rfl)
            (NodeSpec.builtBetween_build hbuild) hrelationships' hlink

theorem declares_start : Declares [] {} := ⟨rfl, rfl, fun _ he => nomatch he⟩

/-- A list of visits declares what it introduces. -/
theorem Declares.followVisits {introduced : List Introduction} {trail trail' : Trail}
    {visits : List Visit} (h : trail.Declares introduced) (hsound : trail.Sound)
    (hfollow : trail.followVisits visits = .ok trail') :
    trail'.Declares (introduced ++ introductions visits) := by
  induction visits generalizing trail introduced with
  | nil =>
      obtain rfl := Except.ok.inj hfollow
      rwa [introductions, List.flatMap_nil, List.append_nil]
  | cons v rest ih =>
      obtain ⟨middle, hmiddle, hrest⟩ := bind_eq_ok_iff.mp hfollow
      have hlater := ih (h.follow hsound hmiddle) (hsound.follow hmiddle).1 hrest
      rwa [List.append_assoc] at hlater

end Trail

/-! ## Compiled requests -/

namespace RouteTable

/-- The entity of a compiled request has exactly the nodes and the relationships that are declared
by the levels from the last one with a `_node` and no `_edge` on, each with its label or type. The
declared nodes have different variables, and so have the relationships; each `_edge` joins a node
of the levels before it to a node of its own level, in its direction. -/
theorem declared_of_compile {table : RouteTable} {options : StatementOptions}
    {tokens : List String} {visits : List Visit} {c : Compiled}
    (hvisit : table.root.visit tokens = some visits)
    (h : table.compile options tokens = .ok c) :
    ∃ entity returned earlier first later,
      c.statement.clauses = [.matching [.entity entity], .returning returned] ∧
      introductions visits = earlier ++ first :: later ∧ first.edge = none ∧
      (∀ x ∈ later, x.edge.isSome) ∧
      (∀ k, k ∈ marksFrom (nodesIn earlier) (first :: later) ↔
        ∃ n ∈ entity.nodeCopies, n.mark = k) ∧
      ((marksFrom (nodesIn earlier) (first :: later)).map NodeMark.var).Nodup ∧
      List.Forall₂ Joint.DrawnAs
        (jointsFrom (nodesIn earlier) (edgesIn earlier) [] (first :: later)) entity.arcs ∧
      (entity.arcs.map Arc.edge).Nodup := by
  obtain ⟨visits', v, trail, hvisit', hfollow, hfinish⟩ := compile_eq_ok_iff.mp h
  obtain rfl := Option.some.inj (hvisit.symm.trans hvisit')
  have hstart : Trail.Declares [] {} := ⟨rfl, rfl, fun e he => nomatch he⟩
  have hdeclares := hstart.followVisits Trail.sound_start hfollow
  obtain ⟨ret, entity, terms, func, pathId, -, hentity, -, rfl⟩ :=
    Trail.finish_eq_ok_iff.mp hfinish
  obtain ⟨earlier, first, later, hsplit, hfirst, hlater, hshows⟩ :=
    hdeclares.entity entity hentity
  exact ⟨entity, FuncSpec.wrap func terms, earlier, first, later, rfl, hsplit, hfirst, hlater,
    hshows.nodes, nodup_marksFrom _ _, hshows.arcs, hshows.nodup⟩

/-- The table of `/x/a/b`, where `a` starts anew and `b` is joined to it by labels. -/
def nested : RouteTable where
  root := ⟨[("x", ⟨{ node := some (.label "X") },
    ⟨[("a", ⟨{ node := some (.linked "A" none ⟨"q", .right, none⟩ (.label "B")) },
      ⟨[("b", ⟨{ node := some (.linked "C" none ⟨"s", .right, none⟩ (.label "D"))
                 edge := some ⟨"r", .left, some ⟨"A", "C"⟩⟩
                 ret := some .items }, .empty⟩)], none⟩⟩)], none⟩⟩)], none⟩

/-- The nodes and relationships of `a` and `b` are matched, and `x` is not. -/
theorem declared_of_compile_nested :
    ∃ c visits, nested.compile {} ["x", "a", "b"] = .ok c ∧
      nested.root.visit ["x", "a", "b"] = some visits ∧
      ∃ entity returned earlier first later,
        c.statement.clauses = [.matching [.entity entity], .returning returned] ∧
        introductions visits = earlier ++ first :: later ∧ first.edge = none ∧
        (∀ x ∈ later, x.edge.isSome) ∧
        (∀ k, k ∈ marksFrom (nodesIn earlier) (first :: later) ↔
          ∃ n ∈ entity.nodeCopies, n.mark = k) ∧
        ((marksFrom (nodesIn earlier) (first :: later)).map NodeMark.var).Nodup ∧
        List.Forall₂ Joint.DrawnAs
          (jointsFrom (nodesIn earlier) (edgesIn earlier) [] (first :: later)) entity.arcs ∧
        (entity.arcs.map Arc.edge).Nodup := by
  obtain ⟨c, hc, -⟩ := exists_ok_of_observed (f := fun _ => ()) (b := ())
    (x := nested.compile {} ["x", "a", "b"]) (by decide +kernel)
  have hvisit : nested.root.visit ["x", "a", "b"] = some _ := rfl
  exact ⟨c, _, hc, hvisit, declared_of_compile hvisit hc⟩

/-- What the levels of `/x/a/b` declare from `a` on: the relationship of `b` joins one of the nodes
of `a` to one of its own. -/
example :
    let later : List Introduction := [⟨.linked "A" none ⟨"q", .right, none⟩ (.label "B"), none⟩,
      ⟨.linked "C" none ⟨"s", .right, none⟩ (.label "D"), some ⟨"r", .left, some ⟨"A", "C"⟩⟩⟩]
    marksFrom 1 later = [⟨"n1", some "A"⟩, ⟨"n2", some "B"⟩, ⟨"n3", some "C"⟩, ⟨"n4", some "D"⟩] ∧
      (jointsFrom 1 0 [] later).map (fun j => (j.edge.kind, j.index, j.before.map NodeMark.var,
        j.added.map NodeMark.var)) =
        [("q", 0, ["n1"], ["n2"]), ("r", 2, ["n1", "n2"], ["n3", "n4"]),
          ("s", 1, ["n3"], ["n4"])] := by
  decide +kernel

end RouteTable

end CypherRoutes
