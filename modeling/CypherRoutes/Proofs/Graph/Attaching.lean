/-
# Attaching a property to a member

An entity whose copies agree is asked for its first member of a label or a type, and gives a
property to every copy of that member and to nothing else. The list of properties of the member
keeps its order: a property of the same handle is replaced where it stood, and a new one comes last
(`Property.put_attach`). The entity keeps its triples and walks, and its copies agree as before
(`Entity.addProp_first`).
-/
import CypherRoutes.Proofs.Graph.Coherent
import CypherRoutes.Proofs.Stitch.Identity

namespace CypherRoutes

/-! ## Putting a property among others -/

/-- What becomes of a list of properties when one is put in it: the first of the same handle is
replaced where it stands, and if there is none, the property comes last. -/
inductive Property.Put (p : Property) : List Property → List Property → Prop where
  | instead {before after : List Property} {old : Property}
      (hbefore : ∀ q ∈ before, q.handle ≠ p.handle) (hold : old.handle = p.handle) :
      Put p (before ++ old :: after) (before ++ p :: after)
  | last {props : List Property} (hnone : ∀ q ∈ props, q.handle ≠ p.handle) :
      Put p props (props ++ [p])

namespace Property

variable {p : Property} {props props' : List Property}

/-- A property of another handle in front stays there. -/
theorem Put.cons (h : p.Put props props') {q : Property} (hq : q.handle ≠ p.handle) :
    p.Put (q :: props) (q :: props') := by
  cases h with
  | @instead before after old hbefore hold =>
      exact @Put.instead p (q :: before) after old (List.forall_mem_cons.mpr ⟨hq, hbefore⟩) hold
  | last hnone => exact .last (List.forall_mem_cons.mpr ⟨hq, hnone⟩)

/-- A property that is put in a list is found under its handle. -/
theorem Put.find? (h : p.Put props props') : Property.find? p.handle props' = some p := by
  have hskip : ∀ l : List Property, (∀ q ∈ l, q.handle ≠ p.handle) →
      l.find? (·.handle == p.handle) = none := by
    intro l hl
    exact List.find?_eq_none.mpr fun q hq => by simpa using hl q hq
  cases h with
  | instead hbefore _ => simp [Property.find?, List.find?_append, hskip _ hbefore]
  | last hnone => simp [Property.find?, List.find?_append, hskip _ hnone]

/-- A property that is put among others adds its handle if that is not there. -/
theorem Put.map_handle (h : p.Put props props') :
    props'.map handle =
      if p.handle ∈ props.map handle then props.map handle
      else props.map handle ++ [p.handle] := by
  cases h with
  | @instead before after old _ hold =>
      have hthere : p.handle ∈ (before ++ old :: after).map handle :=
        hold ▸ List.mem_map_of_mem (by simp)
      rw [if_pos hthere, List.map_append, List.map_append, List.map_cons, List.map_cons, hold]
  | last hnone =>
      have hnew : p.handle ∉ props.map handle := by
        intro hmem
        obtain ⟨q, hq, hqp⟩ := List.mem_map.mp hmem
        exact hnone q hq hqp
      rw [if_neg hnew, List.map_append, List.map_singleton]

/-- The handles stay different. -/
theorem Put.nodup_handles (h : p.Put props props') (hnodup : (props.map handle).Nodup) :
    (props'.map handle).Nodup := by
  rw [h.map_handle]
  split_ifs with hmem
  · exact hnodup
  · rw [← List.concat_eq_append]
    exact hnodup.concat hmem

/-- A property that is put among others takes the place of the one of its handle. -/
theorem Put.mem_iff (h : p.Put props props') (hnodup : (props.map handle).Nodup) {q : Property} :
    q ∈ props' ↔ q = p ∨ q ∈ props ∧ q.handle ≠ p.handle := by
  cases h with
  | @instead before after old hbefore hold =>
      rw [List.map_append, List.map_cons, List.nodup_append, List.nodup_cons] at hnodup
      obtain ⟨-, ⟨hold', -⟩, -⟩ := hnodup
      have hafter : q ∈ after → q.handle ≠ p.handle := fun hq hqp =>
        hold' (hold.trans hqp.symm ▸ List.mem_map_of_mem hq)
      have hself : q = old → q.handle = p.handle := fun hq => hq ▸ hold
      have hfront := hbefore q
      simp only [List.mem_append, List.mem_cons]
      tauto
  | last hnone =>
      have hall := hnone q
      simp only [List.mem_append, List.mem_singleton]
      tauto

theorem put_replace (p : Property) (props : List Property) : p.Put props (p.replace props) := by
  induction props with
  | nil => exact @Put.last p [] fun _ hq => absurd hq List.not_mem_nil
  | cons q rest ih =>
      rw [replace]
      split_ifs with hq
      · have hnone : ∀ q ∈ ([] : List Property), q.handle ≠ p.handle :=
          fun _ hq => absurd hq List.not_mem_nil
        exact @Put.instead p [] rest q hnone (eq_of_beq hq)
      · exact ih.cons fun h => hq (beq_iff_eq.mpr h)

/-- An attached property is put among the others as one of its owner. -/
theorem put_attach (owner : String) (props : List Property) (p : Property) :
    (p.ownedBy owner).Put props (attach owner props p) := put_replace _ _

end Property

/-! ## Members that take a property -/

/-- The node with a property of its own put among its properties, and otherwise as it was. -/
structure Node.Takes (p : Property) (n n' : Node) : Prop where
  rest : n' = { n with props := n'.props }
  put : (p.ownedBy n.var).Put n.props n'.props
  found : n'.prop? p.handle = some (p.ownedBy n.var)

/-- A node takes a property if it has the given variable, and stays as it was if not. -/
structure Node.TakesAt (var : String) (p : Property) (n n' : Node) : Prop where
  there : n.var = var → n.Takes p n'
  elsewhere : n.var ≠ var → n' = n

theorem Node.takes_attach (n : Node) (p : Property) : n.Takes p (n.attach p) where
  rest := rfl
  put := Property.put_attach _ _ _
  found := (Property.put_attach _ _ _).find?

theorem Node.takesAt_attachIf (n : Node) (var : String) (p : Property) :
    n.TakesAt var p (n.attachIf var p) where
  there h := by
    rw [attachIf, if_pos (beq_iff_eq.mpr h)]
    exact n.takes_attach p
  elsewhere h := by rw [attachIf, if_neg (h ∘ eq_of_beq)]

/-- The relationship with a property of its own put among its properties, and otherwise as it
was. -/
structure Relationship.Takes (p : Property) (r r' : Relationship) : Prop where
  rest : r' = { r with props := r'.props }
  put : (p.ownedBy r.var).Put r.props r'.props
  found : r'.prop? p.handle = some (p.ownedBy r.var)

/-- A relationship takes a property if it has the given variable, and stays as it was if not. -/
structure Relationship.TakesAt (var : String) (p : Property) (r r' : Relationship) : Prop where
  there : r.var = var → r.Takes p r'
  elsewhere : r.var ≠ var → r' = r

theorem Relationship.takes_attach (r : Relationship) (p : Property) : r.Takes p (r.attach p) where
  rest := rfl
  put := Property.put_attach _ _ _
  found := (Property.put_attach _ _ _).find?

theorem Relationship.takesAt_attachIf (r : Relationship) (var : String) (p : Property) :
    r.TakesAt var p (r.attachIf var p) where
  there h := by
    rw [attachIf, if_pos (beq_iff_eq.mpr h)]
    exact r.takes_attach p
  elsewhere h := by rw [attachIf, if_neg (h ∘ eq_of_beq)]

/-- A node that may take a property is alike to stitching. -/
theorem Node.TakesAt.alike {var : String} {p : Property} {n n' : Node} (h : n.TakesAt var p n') :
    n.Alike n' := by
  by_cases hv : n.var = var
  · rw [(h.there hv).rest]
    exact ⟨rfl, rfl⟩
  · rw [h.elsewhere hv]
    exact ⟨rfl, rfl⟩

/-- A relationship that may take a property is alike to stitching. -/
theorem Relationship.TakesAt.alike {var : String} {p : Property} {r r' : Relationship}
    (h : r.TakesAt var p r') : r.Alike r' := by
  by_cases hv : r.var = var
  · rw [(h.there hv).rest]
    exact ⟨rfl, rfl, rfl⟩
  · rw [h.elsewhere hv]
    exact ⟨rfl, rfl, rfl⟩

/-- Relations that imply others which keep what stitching looks at keep it too. -/
theorem KeepsIdentity.mono {R R' : Node → Node → Prop} {S S' : Relationship → Relationship → Prop}
    (k : KeepsIdentity R S) (hR : ∀ {n m}, R' n m → R n m) (hS : ∀ {r q}, S' r q → S r q) :
    KeepsIdentity R' S' where
  var h := k.var (hR h)
  label h := k.label (hR h)
  edgeVar h := k.edgeVar (hS h)
  direction h := k.direction (hS h)
  hint h := k.hint (hS h)

/-! ## Entities whose copies agree -/

/-- All copies of a node carry one label and the same properties, and all copies of a relationship
one type and the same properties. -/
structure Entity.Agrees (e : Entity) : Prop where
  nodes : ∀ n ∈ e.nodeCopies, ∀ m ∈ e.nodeCopies, n.var = m.var →
    n.label = m.label ∧ n.props = m.props
  edges : ∀ r ∈ e.edgeCopies, ∀ q ∈ e.edgeCopies, r.var = q.var →
    r.kind = q.kind ∧ r.props = q.props

/-- The walks in which an entity is written; a node alone is one without steps. -/
def Entity.walks : Entity → List Walk
  | node n => [⟨n, []⟩]
  | triple t => [.ofTriple t]
  | path g => g.walks
  | relationship _ => []
  | property _ => []

/-- The variable of a path itself. -/
def Entity.pathVar : Entity → Option String
  | path g => some g.var
  | _ => none

/-- What becomes of an entity when only its nodes and its relationships change, each in the given
way: the triples stay in order, the walks visit the same variables with the same arrows, and the
copies agree. -/
structure Entity.Becomes (R : Node → Node → Prop) (S : Relationship → Relationship → Prop)
    (e e' : Entity) : Prop where
  members : e.Related R S e'
  pathVar : e'.pathVar = e.pathVar
  walks : e'.walks.map Walk.course = e.walks.map Walk.course
  agrees : e'.Agrees

namespace Entity

variable {R : Node → Node → Prop} {S : Relationship → Relationship → Prop} {e e' : Entity}
  {var name : String} {p : Property}

/-- The walks of related entities visit the same variables. -/
theorem Related.courses (k : KeepsIdentity R S) (h : e.Related R S e') :
    e'.walks.map Walk.course = e.walks.map Walk.course := by
  refine (map_eq_of_forall₂ (?_ : List.Forall₂ (Walk.Related R S) e.walks e'.walks)
    fun _ _ => k.course).symm
  cases h with
  | node hn => exact .cons ⟨hn, .nil⟩ .nil
  | triple ht => exact .cons (Walk.ofTriple_related ht) .nil
  | path hg => exact Path.walks_related k hg
  | relationship => exact .nil
  | property => exact .nil

/-! ## The first member of a name -/

/-- A search that cannot tell copies apart finds the same among the first copies. -/
theorem find?_distinctBy {α : Type} {var : α → String} {q : α → Bool} {l : List α}
    (hq : ∀ a ∈ l, ∀ b ∈ l, var a = var b → q a = q b) {seen : List String}
    (hseen : ∀ a ∈ l, var a ∈ seen → q a = false) :
    (distinctBy var seen l).find? q = l.find? q := by
  induction l generalizing seen with
  | nil => rfl
  | cons a rest ih =>
      have hrest : ∀ b ∈ rest, ∀ c ∈ rest, var b = var c → q b = q c := fun b hb c hc =>
        hq b (List.mem_cons_of_mem _ hb) c (List.mem_cons_of_mem _ hc)
      rw [distinctBy]
      split_ifs with ha
      · rw [List.find?_cons_of_neg (by simp [hseen a List.mem_cons_self (by simpa using ha)])]
        exact ih hrest fun b hb => hseen b (List.mem_cons_of_mem _ hb)
      · by_cases hqa : q a = true
        · rw [List.find?_cons_of_pos hqa, List.find?_cons_of_pos hqa]
        · rw [List.find?_cons_of_neg hqa, List.find?_cons_of_neg hqa]
          refine ih hrest fun b hb hvar => ?_
          -- a later copy of `a` is refused as `a` was
          rcases List.mem_cons.mp hvar with hvar | hvar
          · rw [hq b (List.mem_cons_of_mem _ hb) a List.mem_cons_self hvar]
            exact Bool.eq_false_of_not_eq_true hqa
          · exact hseen b (List.mem_cons_of_mem _ hb) hvar

/-- The first node of a label is the first of all copies. -/
theorem Agrees.find?_nodes (h : e.Agrees) (label : String) :
    e.nodes.find? (·.hasLabel label) = e.nodeCopies.find? (·.hasLabel label) := by
  cases e with
  | path g =>
      refine find?_distinctBy (fun n hn m hm hnm => ?_) fun _ _ h => absurd h List.not_mem_nil
      rw [Node.hasLabel, Node.hasLabel, (h.nodes n hn m hm hnm).1]
  | node => rfl
  | triple => rfl
  | relationship => rfl
  | property => rfl

/-- The first relationship of a type is the first of all copies. -/
theorem Agrees.find?_edges (h : e.Agrees) (kind : String) :
    e.edges.find? (·.hasKind kind) = e.edgeCopies.find? (·.hasKind kind) := by
  cases e with
  | path g =>
      refine find?_distinctBy (fun r hr q hq hrq => ?_) fun _ _ h => absurd h List.not_mem_nil
      rw [Relationship.hasKind, Relationship.hasKind, (h.edges r hr q hq hrq).1]
  | node => rfl
  | triple => rfl
  | relationship => rfl
  | property => rfl

/-! ## What attaching changes -/

/-- A property attached to a node is taken by its copies. -/
theorem related_attachToNode (e : Entity) (var : String) (p : Property) :
    e.Related (Node.TakesAt var p) Eq (e.attachToNode var p) := by
  have htriple : ∀ t : Triple, t.Related (Node.TakesAt var p) Eq (t.attachToNode var p) := fun t =>
    ⟨Node.takesAt_attachIf .., rfl, Node.takesAt_attachIf ..⟩
  cases e with
  | node n => exact .node (n.takesAt_attachIf var p)
  | relationship r => exact .relationship rfl
  | property q => exact .property q q
  | triple t => exact .triple (htriple t)
  | path g =>
      exact .path (List.forall₂_map_right_iff.mpr (List.forall₂_same.mpr fun t _ => htriple t))

/-- A property attached to a relationship is taken by its copies. -/
theorem related_attachToEdge (e : Entity) (var : String) (p : Property) :
    e.Related Eq (Relationship.TakesAt var p) (e.attachToEdge var p) := by
  have htriple : ∀ t : Triple, t.Related Eq (Relationship.TakesAt var p) (t.attachToEdge var p) :=
    fun t => ⟨rfl, Relationship.takesAt_attachIf .., rfl⟩
  cases e with
  | node n => exact .node rfl
  | relationship r => exact .relationship (r.takesAt_attachIf var p)
  | property q => exact .property q q
  | triple t => exact .triple (htriple t)
  | path g =>
      exact .path (List.forall₂_map_right_iff.mpr (List.forall₂_same.mpr fun t _ => htriple t))

/-- Copies that agree take the same. -/
theorem Agrees.attachToNode (h : e.Agrees) (var : String) (p : Property) :
    (e.attachToNode var p).Agrees where
  nodes := by
    rw [nodeCopies_attachToNode]
    intro n hn m hm hnm
    obtain ⟨n, hn', rfl⟩ := List.mem_map.mp hn
    obtain ⟨m, hm', rfl⟩ := List.mem_map.mp hm
    rw [Node.attachIf_var, Node.attachIf_var] at hnm
    obtain ⟨hlabel, hprops⟩ := h.nodes n hn' m hm' hnm
    rw [Node.attachIf, Node.attachIf, hnm]
    split_ifs
    · exact ⟨hlabel, by rw [Node.attach, Node.attach, hprops, hnm]⟩
    · exact ⟨hlabel, hprops⟩
  edges := by
    rw [edgeCopies_attachToNode]
    exact h.edges

/-- Copies that agree take the same. -/
theorem Agrees.attachToEdge (h : e.Agrees) (var : String) (p : Property) :
    (e.attachToEdge var p).Agrees where
  nodes := by
    rw [nodeCopies_attachToEdge]
    exact h.nodes
  edges := by
    rw [edgeCopies_attachToEdge]
    intro r hr q hq hrq
    obtain ⟨r, hr', rfl⟩ := List.mem_map.mp hr
    obtain ⟨q, hq', rfl⟩ := List.mem_map.mp hq
    rw [Relationship.attachIf_var, Relationship.attachIf_var] at hrq
    obtain ⟨hkind, hprops⟩ := h.edges r hr' q hq' hrq
    rw [Relationship.attachIf, Relationship.attachIf, hrq]
    split_ifs
    · exact ⟨hkind, by rw [Relationship.attach, Relationship.attach, hprops, hrq]⟩
    · exact ⟨hkind, hprops⟩

/-- What an entity becomes when a property is attached to a node. -/
theorem Agrees.becomes_attachToNode (h : e.Agrees) (var : String) (p : Property) :
    e.Becomes (Node.TakesAt var p) Eq (e.attachToNode var p) where
  members := e.related_attachToNode var p
  pathVar := by cases e <;> rfl
  walks := (e.related_attachToNode var p).courses
    (keepsIdentity_alike.mono Node.TakesAt.alike fun {r q} (h : r = q) => h ▸ ⟨rfl, rfl, rfl⟩)
  agrees := h.attachToNode var p

/-- What an entity becomes when a property is attached to a relationship. -/
theorem Agrees.becomes_attachToEdge (h : e.Agrees) (var : String) (p : Property) :
    e.Becomes Eq (Relationship.TakesAt var p) (e.attachToEdge var p) where
  members := e.related_attachToEdge var p
  pathVar := by cases e <;> rfl
  walks := (e.related_attachToEdge var p).courses
    (keepsIdentity_alike.mono (fun {n m} (h : n = m) => h ▸ ⟨rfl, rfl⟩) Relationship.TakesAt.alike)
  agrees := h.attachToEdge var p

/-- A property is attached to a node of a label if the entity has one. Then every copy of the
first such node takes it and nothing else changes, and the copies agree as before; the same is
true of relationships of a type. -/
theorem addProp_first (h : e.Agrees) (name : String) (p : Property) :
    ((e.addPropToNode name p = none ↔ ∀ n ∈ e.nodeCopies, n.label ≠ some name) ∧
      ∀ e', e.addPropToNode name p = some e' →
        ∃ first, e.nodeCopies.find? (·.hasLabel name) = some first ∧
          e.Becomes (Node.TakesAt first.var p) Eq e') ∧
    ((e.addPropToEdge name p = none ↔ ∀ r ∈ e.edgeCopies, r.kind ≠ some name) ∧
      ∀ e', e.addPropToEdge name p = some e' →
        ∃ first, e.edgeCopies.find? (·.hasKind name) = some first ∧
          e.Becomes Eq (Relationship.TakesAt first.var p) e') := by
  rw [addPropToNode, addPropToEdge, h.find?_nodes, h.find?_edges]
  refine ⟨⟨?_, fun e' he' => ?_⟩, ?_, fun e' he' => ?_⟩
  · rw [Option.map_eq_none_iff, List.find?_eq_none]
    simp [Node.hasLabel]
  · obtain ⟨first, hfirst, rfl⟩ := Option.map_eq_some_iff.mp he'
    exact ⟨first, hfirst, h.becomes_attachToNode _ p⟩
  · rw [Option.map_eq_none_iff, List.find?_eq_none]
    simp [Relationship.hasKind]
  · obtain ⟨first, hfirst, rfl⟩ := Option.map_eq_some_iff.mp he'
    exact ⟨first, hfirst, h.becomes_attachToEdge _ p⟩

/-- A path that branches at a node and returns to it, with another node of the same label. -/
def branching : Entity :=
  let a : Node := { var := "n0", label := some "A" }
  let b : Node := { var := "n1", label := some "B", props := [⟨"p0", "k", none, none, some "n1"⟩] }
  let c : Node := { var := "n2", label := some "B" }
  .path ⟨"path0", [⟨a, { var := "r0", kind := some "r" }, b⟩,
    ⟨b, { var := "r1", kind := some "r" }, b⟩, ⟨c, { var := "r2", kind := some "s" }, b⟩]⟩

/-- A property of the handle that a node of the path has. -/
def another : Property := ⟨"p1", "k", none, none, none⟩

theorem addProp_first_branching :
    branching.Agrees ∧
      (∃ e', branching.addPropToNode "B" another = some e' ∧
        branching.Becomes (Node.TakesAt "n1" another) Eq e') ∧
      ∃ e', branching.addPropToEdge "r" another = some e' ∧
        branching.Becomes Eq (Relationship.TakesAt "r0" another) e' := by
  have h : branching.Agrees := by
    constructor
    · intro n hn m hm hnm
      simp only [branching, nodeCopies, Triple.nodes, List.flatMap_cons, List.flatMap_nil,
        List.cons_append, List.nil_append, List.mem_cons, List.not_mem_nil, or_false] at hn hm
      rcases hn with rfl | rfl | rfl | rfl | rfl | rfl <;>
        rcases hm with rfl | rfl | rfl | rfl | rfl | rfl <;> simp_all
    · intro r hr q hq hrq
      simp only [branching, edgeCopies, List.map_cons, List.map_nil, List.mem_cons,
        List.not_mem_nil, or_false] at hr hq
      rcases hr with rfl | rfl | rfl <;> rcases hq with rfl | rfl | rfl <;> simp_all
  obtain ⟨n, hn, hnode⟩ := (addProp_first h "B" another).1.2 _ rfl
  obtain ⟨r, hr, hedge⟩ := (addProp_first h "r" another).2.2 _ rfl
  obtain rfl : _ = n := Option.some.inj hn
  obtain rfl : _ = r := Option.some.inj hr
  exact ⟨h, ⟨_, rfl, hnode⟩, _, rfl, hedge⟩

end Entity

end CypherRoutes
