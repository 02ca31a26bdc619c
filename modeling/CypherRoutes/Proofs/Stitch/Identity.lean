/-
# Paths go by identity

A path has triples and walks, and both go by variables: the walks of two lists of triples that are
related node by node and edge by edge are related walk by walk (`Path.walks_related`). So a list of
entities makes the same path, up to what its nodes and edges carry, when some of them lose their
properties or are made anonymous; and if it makes none, it is refused for the same reason at the
same position (`Path.ofEntities_disguised`).
-/
import CypherRoutes.Proofs.Stitch.Merge
import CypherRoutes.Proofs.Stitch.Related
import CypherRoutes.Graph.Walk

namespace CypherRoutes

/-! ## Walks in step -/

/-- Two steps of walks with related edges and nodes and one direction. -/
structure Hop.Related (R : Node → Node → Prop) (S : Relationship → Relationship → Prop)
    (a b : Hop) : Prop where
  edge : S a.edge b.edge
  direction : a.direction = b.direction
  node : R a.node b.node

/-- Two walks with related nodes and steps. -/
structure Walk.Related (R : Node → Node → Prop) (S : Relationship → Relationship → Prop)
    (w x : Walk) : Prop where
  first : R w.first x.first
  hops : List.Forall₂ (Hop.Related R S) w.hops x.hops

variable {R : Node → Node → Prop} {S : Relationship → Relationship → Prop}

namespace Walk

theorem ofTriple_related {t u : Triple} (h : t.Related R S u) :
    (ofTriple t).Related R S (ofTriple u) :=
  ⟨h.source, .cons ⟨h.edge, rfl, h.target⟩ .nil⟩

theorem Related.prepend {w x : Walk} (h : w.Related R S x) {n m : Node} (hn : R n m)
    {r q : Relationship} (hr : S r q) (d : Direction) :
    (w.prepend n r d).Related R S (x.prepend m q d) :=
  ⟨hn, .cons ⟨hr, rfl, h.first⟩ h.hops⟩

theorem Related.append {w x : Walk} (h : w.Related R S x) {r q : Relationship} (hr : S r q)
    (d : Direction) {n m : Node} (hn : R n m) :
    (w.append r d n).Related R S (x.append q d m) :=
  ⟨h.first, List.rel_append h.hops (.cons ⟨hr, rfl, hn⟩ .nil)⟩

/-- The nodes at which related walks end. -/
theorem Related.last {w x : Walk} (h : w.Related R S x) : R w.last x.last := by
  obtain ⟨n, hops⟩ := w
  obtain ⟨m, hops'⟩ := x
  obtain ⟨hfirst, hhops⟩ := h
  simp only [Walk.last] at hfirst hhops ⊢
  induction hhops generalizing n m with
  | nil => exact hfirst
  | cons hhop _ ih => exact ih _ _ hhop.node

/-- Related walks are lengthened at the same end by related triples, or by neither. -/
theorem extend?_related (k : KeepsIdentity R S) {w x : Walk} (h : w.Related R S x)
    {t u : Triple} (htu : t.Related R S u) :
    Option.Rel (Walk.Related R S) (w.extend? t) (x.extend? u) := by
  rw [extend?, extend?, k.sameEndpoint htu.source h.first, k.sameEndpoint htu.source h.last,
    k.sameEndpoint htu.target h.first, k.sameEndpoint htu.target h.last]
  split_ifs
  · exact .some (h.prepend htu.target htu.edge .left)
  · exact .some (h.append htu.edge .right htu.target)
  · exact .some (h.prepend htu.source htu.edge .right)
  · exact .some (h.append htu.edge .left htu.source)
  · exact .none

/-- The walks that related triples are gathered into. -/
theorem gather_related (k : KeepsIdentity R S) {ts us : List Triple}
    (h : List.Forall₂ (Triple.Related R S) ts us) {w x : Walk} (hwx : w.Related R S x) :
    List.Forall₂ (Walk.Related R S) (gather w ts) (gather x us) := by
  induction h generalizing w x with
  | nil => exact .cons hwx .nil
  | @cons t u ts us htu _ ih =>
      have hextend := extend?_related k hwx htu
      rw [gather, gather]
      generalize w.extend? t = longer at hextend ⊢
      generalize x.extend? u = longer' at hextend ⊢
      cases hextend with
      | none => exact .cons hwx (ih (ofTriple_related htu))
      | some hlonger => exact ih hlonger

end Walk

/-- The walks of paths with related triples. -/
theorem Path.walks_related (k : KeepsIdentity R S) {g h : Path}
    (hgh : List.Forall₂ (Triple.Related R S) g.triples h.triples) :
    List.Forall₂ (Walk.Related R S) g.walks h.walks := by
  rw [walks, walks]
  generalize g.triples = ts at hgh ⊢
  generalize h.triples = us at hgh ⊢
  cases hgh with
  | nil => exact .nil
  | cons htu hrest => exact Walk.gather_related k hrest (Walk.ofTriple_related htu)

/-! ## What walks visit -/

/-- The variable of a walk's first node, and for every step that of the edge, the direction of its
arrow and the variable of the node behind it. -/
def Walk.course (w : Walk) : String × List (String × Direction × String) :=
  (w.first.var, w.hops.map fun hop => (hop.edge.var, hop.direction, hop.node.var))

/-- Two lists that are related by relations with equal images have equal images. -/
theorem map_eq_of_forall₂ {α β γ : Type} {P : α → β → Prop} {f : α → γ} {g : β → γ}
    {l : List α} {l' : List β} (h : List.Forall₂ P l l') (hfg : ∀ a b, P a b → f a = g b) :
    l.map f = l'.map g := by
  rw [← List.forall₂_eq_eq_eq, List.forall₂_map_left_iff, List.forall₂_map_right_iff]
  exact h.imp hfg

/-- Related triples have the same ends. -/
theorem KeepsIdentity.ends (k : KeepsIdentity R S) {t u : Triple} (h : t.Related R S u) :
    t.ends = u.ends := by
  rw [Triple.ends, Triple.ends, k.var h.source, k.edgeVar h.edge, k.var h.target]

/-- Related walks visit the same variables. -/
theorem KeepsIdentity.course (k : KeepsIdentity R S) {w x : Walk} (h : w.Related R S x) :
    w.course = x.course := by
  rw [Walk.course, Walk.course, k.var h.first]
  refine congrArg (x.first.var, ·) (map_eq_of_forall₂ h.hops fun a b hab => ?_)
  rw [k.edgeVar hab.edge, hab.direction, k.var hab.node]

/-- Two paths with the same ends in order, whose walks visit the same variables. -/
structure Path.SameCourse (g h : Path) : Prop where
  ends : g.triples.map Triple.ends = h.triples.map Triple.ends
  walks : g.walks.map Walk.course = h.walks.map Walk.course

theorem Path.sameCourse_of_related (k : KeepsIdentity R S) {g h : Path}
    (hgh : List.Forall₂ (Triple.Related R S) g.triples h.triples) : g.SameCourse h where
  ends := map_eq_of_forall₂ hgh fun _ _ => k.ends
  walks := map_eq_of_forall₂ (Path.walks_related k hgh) fun _ _ => k.course

/-! ## Disguised entities -/

/-- What may be taken from an entity before it is stitched: nothing, its properties, or its
variable in the text. -/
inductive Disguise where
  | nothing
  | plain
  | anon
deriving DecidableEq

/-- The entity with this taken from it. -/
def Entity.disguised (e : Entity) : Disguise → Entity
  | .nothing => e
  | .plain => e.plain
  | .anon => e.anon

/-- Nodes that are alike to stitching. -/
def Node.Alike (n m : Node) : Prop := n.var = m.var ∧ n.label = m.label

/-- Relationships that are alike to stitching. -/
structure Relationship.Alike (r q : Relationship) : Prop where
  var : r.var = q.var
  direction : r.direction = q.direction
  hint : r.hint = q.hint

theorem keepsIdentity_alike : KeepsIdentity Node.Alike Relationship.Alike where
  var h := h.1
  label h := h.2
  edgeVar h := h.var
  direction h := h.direction
  hint h := h.hint

/-- A path is related to itself with changed members if every member is. -/
theorem Path.related_map {f : Node → Node} {g : Relationship → Relationship}
    (hf : ∀ n, R n (f n)) (hg : ∀ r, S r (g r)) (p : Path) :
    List.Forall₂ (Triple.Related R S) p.triples (p.map (·.map f g)).triples := by
  rw [Path.map, List.forall₂_map_right_iff]
  exact List.forall₂_same.mpr fun t _ => ⟨hf _, hg _, hf _⟩

/-- A disguise hides nothing that stitching sees. -/
theorem Entity.related_disguised (e : Entity) (d : Disguise) :
    e.Related Node.Alike Relationship.Alike (e.disguised d) := by
  have hnode : ∀ n : Node, n.Alike n := fun n => ⟨rfl, rfl⟩
  have hedge : ∀ r : Relationship, r.Alike r := fun r => ⟨rfl, rfl, rfl⟩
  have hsame : ∀ e : Entity, e.Related Node.Alike Relationship.Alike e := by
    intro e
    cases e with
    | node n => exact .node (hnode n)
    | relationship r => exact .relationship (hedge r)
    | property p => exact .property p p
    | triple t => exact .triple ⟨hnode _, hedge _, hnode _⟩
    | path g => exact .path (List.forall₂_same.mpr fun t _ => ⟨hnode _, hedge _, hnode _⟩)
  cases d with
  | nothing => exact hsame e
  | plain =>
      cases e with
      | node n => exact .node ⟨rfl, rfl⟩
      | relationship r => exact .relationship ⟨rfl, rfl, rfl⟩
      | property p => exact .property p p.plain
      | triple t => exact .triple ⟨⟨rfl, rfl⟩, ⟨rfl, rfl, rfl⟩, ⟨rfl, rfl⟩⟩
      | path g => exact .path (Path.related_map (fun _ => ⟨rfl, rfl⟩) (fun _ => ⟨rfl, rfl, rfl⟩) g)
  | anon =>
      cases e with
      | node n => exact .node ⟨rfl, rfl⟩
      | relationship r => exact .relationship ⟨rfl, rfl, rfl⟩
      | property p => exact hsame _
      | triple t => exact hsame _
      | path g => exact hsame _

namespace Path

/-- Entities are stitched as they are when each of them is disguised or not: both lists are
refused, for one reason at one position, or both make paths whose triples have the same variables
one by one and whose walks visit the same variables with the same arrows. -/
theorem ofEntities_disguised (s s' : Numbering) (args : List (Entity × Disguise)) :
    SameOutcome PathError.Alike (fun x y => x.1.SameCourse y.1)
      (ofEntities s (args.map fun arg => arg.1))
      (ofEntities s' (args.map fun arg => arg.1.disguised arg.2)) := by
  have hargs : List.Forall₂ (Entity.Related Node.Alike Relationship.Alike)
      (args.map fun arg => arg.1) (args.map fun arg => arg.1.disguised arg.2) := by
    rw [List.forall₂_map_left_iff, List.forall₂_map_right_iff]
    exact List.forall₂_same.mpr fun arg _ => arg.1.related_disguised arg.2
  exact (stitch_related keepsIdentity_alike hargs).bind fun _ _ htriples =>
    .ok (sameCourse_of_related keepsIdentity_alike htriples)

end Path

end CypherRoutes
