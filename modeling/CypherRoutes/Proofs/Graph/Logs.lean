/-
# Properties as the map of a log

The log of a node or of a relationship is the list of the properties that were attached to it since
it was last made plain, one behind the other. The properties that it holds are the map of this log:
for each handle the latest property of the log, in the order in which the handles came first
(`Property.MapOf`). This is true of every entity of a session and of every copy inside a triple or a
path, however the operations follow each other (`Session.ReachedWithResets.props_are_maps`).
-/
import CypherRoutes.Proofs.Graph.Attaching
import CypherRoutes.Proofs.Graph.Session
import CypherRoutes.Proofs.Stitch.Contents

namespace CypherRoutes

/-! ## The map of a log -/

namespace Property

/-- The properties of an owner that are the map of a log: no handle comes twice, handles stand in
the order in which they came first, and each property is the latest of its handle. -/
structure MapOf (owner : String) (log props : List Property) : Prop where
  nodup : (props.map handle).Nodup
  owned : ∀ p ∈ props, p.owner = some owner
  order : props.map handle = (log.map handle).eraseDups
  latest : ∀ p ∈ props, ∃ early q late, log = early ++ q :: late ∧
    (∀ a ∈ late, a.handle ≠ q.handle) ∧ p = q.ownedBy owner

variable {owner : String} {log props : List Property}

theorem mapOf_nil (owner : String) : MapOf owner [] [] where
  nodup := List.nodup_nil
  owned _ hp := absurd hp List.not_mem_nil
  order := rfl
  latest _ hp := absurd hp List.not_mem_nil

/-- A handle behind others is new or came before. -/
theorem eraseDups_concat (handles : List String) (handle : String) :
    (handles ++ [handle]).eraseDups =
      if handle ∈ handles then handles.eraseDups else handles.eraseDups ++ [handle] := by
  rw [List.eraseDups_append]
  split_ifs with h
  · simp [List.removeAll, h]
  · simp [List.removeAll, List.eraseDups_cons, h]

/-- A property that is attached to the map of a log leaves it the map of the log with that
property. -/
theorem MapOf.attach (h : MapOf owner log props) (p : Property) :
    MapOf owner (log ++ [p]) (Property.attach owner props p) := by
  have hput : (p.ownedBy owner).Put props (Property.attach owner props p) :=
    put_attach owner props p
  have hhandles := hput.map_handle
  have hthere : (p.ownedBy owner).handle ∈ props.map handle ↔ p.handle ∈ log.map handle := by
    rw [h.order, List.mem_eraseDups]
    rfl
  refine ⟨?_, fun q hq => ?_, ?_, fun q hq => ?_⟩
  · exact hput.nodup_handles h.nodup
  · rcases (hput.mem_iff h.nodup).mp hq with rfl | ⟨hq, -⟩
    · rfl
    · exact h.owned q hq
  · rw [hhandles, List.map_append, List.map_singleton, eraseDups_concat, h.order]
    simp only [← h.order, hthere]
    rfl
  · rcases (hput.mem_iff h.nodup).mp hq with rfl | ⟨hq, hne⟩
    · exact ⟨log, p, [], rfl, fun _ ha => absurd ha List.not_mem_nil, rfl⟩
    · -- the log has a new last property, which is of another handle
      obtain ⟨early, a, late, rfl, hlate, rfl⟩ := h.latest q hq
      refine ⟨early, a, late ++ [p], by simp, fun b hb => ?_, rfl⟩
      rcases List.mem_append.mp hb with hb | hb
      · exact hlate b hb
      · rw [List.mem_singleton.mp hb]
        exact hne.symm

end Property

/-! ## Members with a log -/

/-- The node with a property added to its properties, which are its log. -/
def Node.log (n : Node) (p : Property) : Node := { n with props := n.props ++ [p] }

/-- The relationship with a property added to its properties, which are its log. -/
def Relationship.log (r : Relationship) (p : Property) : Relationship :=
  { r with props := r.props ++ [p] }

/-- The properties of a node are the map of the log that another one, alike to stitching, has for
properties. -/
structure Node.Collects (n m : Node) : Prop where
  alike : n.Alike m
  mapOf : Property.MapOf n.var m.props n.props

/-- The properties of a relationship are the map of the log that another one, alike to stitching,
has for properties. -/
structure Relationship.Collects (r q : Relationship) : Prop where
  alike : r.Alike q
  mapOf : Property.MapOf r.var q.props r.props

theorem Node.Collects.attach {n m : Node} (h : n.Collects m) (p : Property) :
    (n.attach p).Collects (m.log p) := ⟨h.alike, h.mapOf.attach p⟩

theorem Relationship.Collects.attach {r q : Relationship} (h : r.Collects q) (p : Property) :
    (r.attach p).Collects (q.log p) := ⟨⟨h.alike.var, h.alike.direction, h.alike.hint⟩,
      h.mapOf.attach p⟩

/-- A log has the variable, the label and the direction of its member. -/
theorem keepsIdentity_collects : KeepsIdentity Node.Collects Relationship.Collects :=
  keepsIdentity_alike.mono Node.Collects.alike Relationship.Collects.alike

/-! ## Changes of related entities -/

section

variable {R : Node → Node → Prop} {S : Relationship → Relationship → Prop} {e f : Entity}
  {node node' : Node → Node} {edge edge' : Relationship → Relationship}

/-- Related triples whose members change alike. -/
theorem Triple.Related.map {t u : Triple} (h : t.Related R S u)
    (hnode : ∀ {n m}, R n m → R (node n) (node' m))
    (hedge : ∀ {r q}, S r q → S (edge r) (edge' q)) :
    (t.map node edge).Related R S (u.map node' edge') :=
  ⟨hnode h.source, hedge h.edge, hnode h.target⟩

/-- The entity with its nodes and its relationships changed. -/
def Entity.map (node : Node → Node) (edge : Relationship → Relationship) : Entity → Entity
  | .node n => .node (node n)
  | .relationship r => .relationship (edge r)
  | .property p => .property p
  | .triple t => .triple (t.map node edge)
  | .path g => .path (g.map (·.map node edge))

namespace Entity

/-- Related entities whose members change alike. -/
theorem Related.map (h : e.Related R S f) (hnode : ∀ {n m}, R n m → R (node n) (node' m))
    (hedge : ∀ {r q}, S r q → S (edge r) (edge' q)) :
    (e.map node edge).Related R S (f.map node' edge') := by
  cases h with
  | node hn => exact .node (hnode hn)
  | relationship hr => exact .relationship (hedge hr)
  | property p q => exact .property p q
  | triple ht => exact .triple (ht.map hnode hedge)
  | path hg =>
      refine .path ?_
      show List.Forall₂ _ (List.map _ _) (List.map _ _)
      rw [List.forall₂_map_left_iff, List.forall₂_map_right_iff]
      exact hg.imp fun _ _ ht => ht.map hnode hedge

/-- The copies of nodes in related entities are related one by one. -/
theorem Related.nodeCopies (h : e.Related R S f) : List.Forall₂ R e.nodeCopies f.nodeCopies := by
  cases h with
  | node hn => exact .cons hn .nil
  | relationship => exact .nil
  | property => exact .nil
  | triple ht => exact ht.nodes
  | path hg => exact List.rel_flatMap hg fun _ _ ht => ht.nodes

/-- So are the copies of relationships. -/
theorem Related.edgeCopies (h : e.Related R S f) : List.Forall₂ S e.edgeCopies f.edgeCopies := by
  cases h with
  | node => exact .nil
  | relationship hr => exact .cons hr .nil
  | property => exact .nil
  | triple ht => exact .cons ht.edge .nil
  | path hg =>
      show List.Forall₂ _ (List.map _ _) (List.map _ _)
      rw [List.forall₂_map_left_iff, List.forall₂_map_right_iff]
      exact hg.imp fun _ _ ht => ht.edge

end Entity

end

/-! ## Entities with logs -/

namespace Entity

/-- The entity with a property added to the log of every copy of the node `var`. -/
def logAtNode (var : String) (p : Property) (e : Entity) : Entity :=
  e.map (fun n => if n.var = var then n.log p else n) id

/-- The entity with a property added to the log of every copy of the relationship `var`. -/
def logAtEdge (var : String) (p : Property) (e : Entity) : Entity :=
  e.map id fun r => if r.var = var then r.log p else r

/-- An entity, and what the same operations make if nothing that is attached replaces anything:
where a property is attached to a member of the one, it is added to the log of the other's. -/
inductive Logged : Entity → Entity → Prop where
  | node (s : Numbering) (label : Option String) :
      Logged (.node (s.node label).1) (.node (s.node label).1)
  | relationship (s : Numbering) (kind : Option String) :
      Logged (.relationship (s.relationship kind).1) (.relationship (s.relationship kind).1)
  | property (p : Property) : Logged (.property p) (.property p)
  | attachedNode {n m : Node} (p : Property) : Logged (.node n) (.node m) →
      Logged (.node (n.attach p)) (.node (m.log p))
  | attachedEdge {r q : Relationship} (p : Property) : Logged (.relationship r) (.relationship q) →
      Logged (.relationship (r.attach p)) (.relationship (q.log p))
  | addPropToNode {e f : Entity} {n : Node} {label : String} (p : Property) : Logged e f →
      e.nodes.find? (·.hasLabel label) = some n →
      Logged (e.attachToNode n.var p) (f.logAtNode n.var p)
  | addPropToEdge {e f : Entity} {r : Relationship} {kind : String} (p : Property) : Logged e f →
      e.edges.find? (·.hasKind kind) = some r →
      Logged (e.attachToEdge r.var p) (f.logAtEdge r.var p)
  | named {e f : Entity} (name : String) : Logged e f → Logged (e.named name) (f.named name)
  | plain {e f : Entity} : Logged e f → Logged e.plain f.plain
  | anon {e f : Entity} : Logged e f → Logged e.anon f.anon
  | varOnly {e f : Entity} : Logged e f → Logged e.varOnly f.varOnly
  | directed {r q : Relationship} (d : Direction) : Logged (.relationship r) (.relationship q) →
      Logged (.relationship (r.directed d)) (.relationship (q.directed d))
  | hinted {r q : Relationship} (hint : Option JoinHint) :
      Logged (.relationship r) (.relationship q) →
      Logged (.relationship (r.hinted hint)) (.relationship (q.hinted hint))
  | triple {n n' m m' : Node} {r r' : Relationship} : Logged (.node n) (.node n') →
      Logged (.relationship r) (.relationship r') → Logged (.node m) (.node m') →
      Logged (.triple ⟨n, r, m⟩) (.triple ⟨n', r', m'⟩)
  | path {s t : Numbering} {pairs : List (Entity × Entity)} {g h : Path} :
      (∀ pair ∈ pairs, Logged pair.1 pair.2) →
      Path.ofEntities s (pairs.map Prod.fst) = .ok (g, t) →
      Path.ofEntities s (pairs.map Prod.snd) = .ok (h, t) → Logged (.path g) (.path h)
  | nodeOf {e f : Entity} {n m : Node} : Logged e f → (n, m) ∈ e.nodeCopies.zip f.nodeCopies →
      Logged (.node n) (.node m)
  | edgeOf {e f : Entity} {r q : Relationship} : Logged e f →
      (r, q) ∈ e.edgeCopies.zip f.edgeCopies → Logged (.relationship r) (.relationship q)
  | tripleOf {g h : Path} {t u : Triple} : Logged (.path g) (.path h) →
      (t, u) ∈ g.triples.zip h.triples → Logged (.triple t) (.triple u)

/-- What is attached to a node of an entity is added to the log of that node. -/
theorem Related.attachToNode {e f : Entity}
    (h : e.Related Node.Collects Relationship.Collects f) (var : String) (p : Property) :
    (e.attachToNode var p).Related Node.Collects Relationship.Collects (f.logAtNode var p) := by
  have hattach : e.attachToNode var p = e.map (·.attachIf var p) id := by
    cases e <;> rfl
  rw [hattach]
  refine h.map (fun {n m} hn => ?_) id
  rw [Node.attachIf, ← hn.alike.1]
  simp only [beq_iff_eq]
  split_ifs
  · exact hn.attach p
  · exact hn

/-- What is attached to a relationship of an entity is added to the log of that relationship. -/
theorem Related.attachToEdge {e f : Entity}
    (h : e.Related Node.Collects Relationship.Collects f) (var : String) (p : Property) :
    (e.attachToEdge var p).Related Node.Collects Relationship.Collects (f.logAtEdge var p) := by
  have hattach : e.attachToEdge var p = e.map id (·.attachIf var p) := by
    cases e <;> rfl
  rw [hattach]
  refine h.map id fun {r q} hr => ?_
  rw [Relationship.attachIf, ← hr.alike.var]
  simp only [beq_iff_eq]
  split_ifs
  · exact hr.attach p
  · exact hr

/-- Another name changes no property. -/
theorem Related.named {e f : Entity} (h : e.Related Node.Collects Relationship.Collects f)
    (name : String) :
    (e.named name).Related Node.Collects Relationship.Collects (f.named name) := by
  cases h with
  | node hn => exact .node ⟨hn.alike, hn.mapOf⟩
  | relationship hr =>
      exact .relationship ⟨⟨hr.alike.var, hr.alike.direction, hr.alike.hint⟩, hr.mapOf⟩
  | property p q => exact .property _ _
  | triple ht => exact .triple ht
  | path hg => exact .path hg

/-- Nor does hiding the variable. -/
theorem Related.anon {e f : Entity} (h : e.Related Node.Collects Relationship.Collects f) :
    e.anon.Related Node.Collects Relationship.Collects f.anon := by
  cases h with
  | node hn => exact .node ⟨hn.alike, hn.mapOf⟩
  | relationship hr =>
      exact .relationship ⟨⟨hr.alike.var, hr.alike.direction, hr.alike.hint⟩, hr.mapOf⟩
  | property p q => exact .property _ _
  | triple ht => exact .triple ht
  | path hg => exact .path hg

/-- Nor does taking away labels and types. -/
theorem Related.varOnly {e f : Entity} (h : e.Related Node.Collects Relationship.Collects f) :
    e.varOnly.Related Node.Collects Relationship.Collects f.varOnly := by
  have hnode : ∀ {n m : Node}, n.Collects m → n.varOnly.Collects m.varOnly :=
    fun hn => ⟨⟨hn.alike.1, rfl⟩, hn.mapOf⟩
  cases h with
  | relationship hr =>
      exact .relationship ⟨⟨hr.alike.var, hr.alike.direction, hr.alike.hint⟩, hr.mapOf⟩
  | node hn => exact (Related.node hn).map hnode id
  | property p q => exact .property _ _
  | triple ht => exact (Related.triple ht).map hnode id
  | path hg => exact (Related.path hg).map hnode id

/-- What is made plain has empty logs. -/
theorem Related.plain {e f : Entity} (h : e.Related Node.Collects Relationship.Collects f) :
    e.plain.Related Node.Collects Relationship.Collects f.plain := by
  have hnode : ∀ {n m : Node}, n.Collects m → n.plain.Collects m.plain :=
    fun hn => ⟨hn.alike, Property.mapOf_nil _⟩
  have hedge : ∀ {r q : Relationship}, r.Collects q → r.plain.Collects q.plain :=
    fun hr => ⟨⟨hr.alike.var, hr.alike.direction, hr.alike.hint⟩, Property.mapOf_nil _⟩
  cases h with
  | property p q => exact .property _ _
  | node hn => exact (Related.node hn).map hnode hedge
  | relationship hr => exact (Related.relationship hr).map hnode hedge
  | triple ht => exact (Related.triple ht).map hnode hedge
  | path hg => exact (Related.path hg).map hnode hedge

/-- Entities that are related one by one are stitched into related paths, or not at all. -/
theorem related_of_ofEntities {R : Node → Node → Prop} {S : Relationship → Relationship → Prop}
    (k : KeepsIdentity R S) {pairs : List (Entity × Entity)}
    (hpairs : ∀ pair ∈ pairs, pair.1.Related R S pair.2) {s t : Numbering} {g : Path}
    (hg : Path.ofEntities s (pairs.map Prod.fst) = .ok (g, t)) :
    ∃ h, Path.ofEntities s (pairs.map Prod.snd) = .ok (h, t) ∧
      (Entity.path g).Related R S (.path h) := by
  have hrelated : List.Forall₂ (Entity.Related R S) (pairs.map Prod.fst) (pairs.map Prod.snd) := by
    rw [List.forall₂_map_left_iff, List.forall₂_map_right_iff]
    exact List.forall₂_same.mpr hpairs
  obtain ⟨triples, hstitch, hpath⟩ := Path.ofEntities_eq_ok_iff.mp hg
  obtain ⟨rfl, rfl⟩ := Prod.mk.inj hpath
  obtain ⟨triples', hstitch', htriples⟩ := (stitch_related k hrelated).exists_ok hstitch
  exact ⟨_, Path.ofEntities_eq_ok_iff.mpr ⟨triples', hstitch', rfl⟩, .path htriples⟩

/-- Every copy of a node or a relationship holds the map of its log. -/
theorem Logged.collects {e f : Entity} (h : e.Logged f) :
    e.Related Node.Collects Relationship.Collects f := by
  induction h with
  | node s label => exact .node ⟨⟨rfl, rfl⟩, Property.mapOf_nil _⟩
  | relationship s kind => exact .relationship ⟨⟨rfl, rfl, rfl⟩, Property.mapOf_nil _⟩
  | property p => exact .property p p
  | attachedNode p _ ih =>
      cases ih with
      | node hn => exact .node (hn.attach p)
  | attachedEdge p _ ih =>
      cases ih with
      | relationship hr => exact .relationship (hr.attach p)
  | addPropToNode p _ _ ih => exact ih.attachToNode _ p
  | addPropToEdge p _ _ ih => exact ih.attachToEdge _ p
  | named name _ ih => exact ih.named name
  | plain _ ih => exact ih.plain
  | anon _ ih => exact ih.anon
  | varOnly _ ih => exact ih.varOnly
  | directed d _ ih =>
      cases ih with
      | relationship hr => exact .relationship ⟨⟨hr.alike.var, rfl, hr.alike.hint⟩, hr.mapOf⟩
  | hinted hint _ ih =>
      cases ih with
      | relationship hr => exact .relationship ⟨⟨hr.alike.var, hr.alike.direction, rfl⟩, hr.mapOf⟩
  | triple _ _ _ ihn ihr ihm =>
      cases ihn with
      | node hn =>
          cases ihr with
          | relationship hr =>
              cases ihm with
              | node hm => exact .triple ⟨hn, hr, hm⟩
  | path _ hg hh ih =>
      obtain ⟨_, hh', hrelated⟩ := related_of_ofEntities keepsIdentity_collects ih hg
      obtain ⟨rfl, -⟩ := Prod.mk.inj (Except.ok.inj (hh.symm.trans hh'))
      exact hrelated
  | nodeOf _ hmem ih => exact .node ((List.forall₂_iff_zip.mp ih.nodeCopies).2 hmem)
  | edgeOf _ hmem ih => exact .relationship ((List.forall₂_iff_zip.mp ih.edgeCopies).2 hmem)
  | tripleOf _ hmem ih =>
      cases ih with
      | path hg => exact .triple ((List.forall₂_iff_zip.mp hg).2 hmem)

/-! ## Every entity has logs -/

/-- An element of a list that is related to another one has a partner in it. -/
theorem exists_mem_zip {α β : Type} {P : α → β → Prop} {l : List α} {l' : List β}
    (h : List.Forall₂ P l l') {a : α} (ha : a ∈ l) : ∃ b, (a, b) ∈ l.zip l' := by
  rw [← List.map_fst_zip h.length_eq.le] at ha
  obtain ⟨⟨_, b⟩, hmem, rfl⟩ := List.mem_map.mp ha
  exact ⟨b, hmem⟩

/-- Entities that have logs can be paired with them. -/
theorem exists_pairs {entities : List Entity} (h : ∀ e ∈ entities, ∃ f, e.Logged f) :
    ∃ pairs : List (Entity × Entity), pairs.map Prod.fst = entities ∧
      ∀ pair ∈ pairs, pair.1.Logged pair.2 := by
  induction entities with
  | nil => exact ⟨[], rfl, fun _ hp => absurd hp List.not_mem_nil⟩
  | cons e rest ih =>
      obtain ⟨f, hf⟩ := h e List.mem_cons_self
      obtain ⟨pairs, rfl, hpairs⟩ := ih fun e he => h e (List.mem_cons_of_mem _ he)
      exact ⟨(e, f) :: pairs, rfl, List.forall_mem_cons.mpr ⟨hf, hpairs⟩⟩

/-- What comes of entities that have logs has logs. -/
theorem Derived.exists_logged {made : List Entity} {e : Entity} (h : e.Derived made)
    (hmade : ∀ e ∈ made, ∃ f, e.Logged f) : ∃ f, e.Logged f := by
  cases h with
  | named name he =>
      obtain ⟨f, hf⟩ := hmade _ he
      exact ⟨_, hf.named name⟩
  | plain he =>
      obtain ⟨f, hf⟩ := hmade _ he
      exact ⟨_, hf.plain⟩
  | anon he =>
      obtain ⟨f, hf⟩ := hmade _ he
      exact ⟨_, hf.anon⟩
  | varOnly he =>
      obtain ⟨f, hf⟩ := hmade _ he
      exact ⟨_, hf.varOnly⟩
  | ownedBy owner hp => exact ⟨_, .property _⟩
  | propOf he hp => exact ⟨_, .property _⟩
  | directed d hr =>
      obtain ⟨f, hf⟩ := hmade _ hr
      cases hf.collects with
      | relationship => exact ⟨_, hf.directed d⟩
  | hinted hint hr =>
      obtain ⟨f, hf⟩ := hmade _ hr
      cases hf.collects with
      | relationship => exact ⟨_, hf.hinted hint⟩
  | @attachedNode n p hn hp =>
      obtain ⟨f, hf⟩ := hmade _ hn
      cases hf.collects with
      | node => exact ⟨_, hf.attachedNode p⟩
  | @attachedEdge r p hr hp =>
      obtain ⟨f, hf⟩ := hmade _ hr
      cases hf.collects with
      | relationship => exact ⟨_, hf.attachedEdge p⟩
  | @addPropToNode e changed label p he hp hchanged =>
      obtain ⟨f, hf⟩ := hmade _ he
      obtain ⟨n, hn, rfl⟩ := Option.map_eq_some_iff.mp hchanged
      exact ⟨_, hf.addPropToNode p hn⟩
  | @addPropToEdge e changed kind p he hp hchanged =>
      obtain ⟨f, hf⟩ := hmade _ he
      obtain ⟨r, hr, rfl⟩ := Option.map_eq_some_iff.mp hchanged
      exact ⟨_, hf.addPropToEdge p hr⟩
  | triple hn hr hm =>
      obtain ⟨f, hf⟩ := hmade _ hn
      obtain ⟨f', hf'⟩ := hmade _ hr
      obtain ⟨f'', hf''⟩ := hmade _ hm
      cases hf.collects with
      | node =>
          cases hf'.collects with
          | relationship =>
              cases hf''.collects with
              | node => exact ⟨_, .triple hf hf' hf''⟩
  | nodeOf he hn =>
      obtain ⟨f, hf⟩ := hmade _ he
      obtain ⟨m, hm⟩ := exists_mem_zip hf.collects.nodeCopies hn
      exact ⟨_, hf.nodeOf hm⟩
  | edgeOf he hr =>
      obtain ⟨f, hf⟩ := hmade _ he
      obtain ⟨q, hq⟩ := exists_mem_zip hf.collects.edgeCopies hr
      exact ⟨_, hf.edgeOf hq⟩
  | tripleOf hg ht =>
      obtain ⟨f, hf⟩ := hmade _ hg
      cases hf.collects with
      | path htriples =>
          obtain ⟨u, hu⟩ := exists_mem_zip htriples ht
          exact ⟨_, hf.tripleOf hu⟩

end Entity

/-! ## Sessions -/

namespace Session

/-- Whatever is made next has logs. -/
theorem StepOrReset.exists_logged {s t : Session} (h : s.StepOrReset t)
    (hs : ∀ e ∈ s.made, ∃ f, e.Logged f) : ∀ e ∈ t.made, ∃ f, e.Logged f := by
  cases h with
  | reset => exact hs
  | step h =>
      cases h with
      | node label => exact List.forall_mem_cons.mpr ⟨⟨_, .node _ label⟩, hs⟩
      | relationship kind => exact List.forall_mem_cons.mpr ⟨⟨_, .relationship _ kind⟩, hs⟩
      | property handle given => exact List.forall_mem_cons.mpr ⟨⟨_, .property _⟩, hs⟩
      | path hentities hpath =>
          obtain ⟨pairs, rfl, hpairs⟩ := Entity.exists_pairs fun e he => hs e (hentities e he)
          obtain ⟨_, hlog, -⟩ := Entity.related_of_ofEntities keepsIdentity_collects
            (fun pair hpair => (hpairs pair hpair).collects) hpath
          exact List.forall_mem_cons.mpr ⟨⟨_, .path hpairs hpath hlog⟩, hs⟩
      | derived he => exact List.forall_mem_cons.mpr ⟨he.exists_logged hs, hs⟩

/-- Every entity of a session has logs. -/
theorem ReachedWithResets.exists_logged {s : Session} (h : s.ReachedWithResets) :
    ∀ e ∈ s.made, ∃ f, e.Logged f := by
  induction h with
  | refl => exact fun _ he => absurd he List.not_mem_nil
  | tail _ hstep ih => exact hstep.exists_logged ih

end Session

/-- A node with one more property made and attached, and the numbering behind it. -/
def Numbering.entered (made : Node × Numbering) (entry : String × Value) : Node × Numbering :=
  (made.1.attach (made.2.property entry.1 (some entry.2)).1,
    (made.2.property entry.1 (some entry.2)).2)

theorem Numbering.nodeWithProps_eq (s : Numbering) (label : String)
    (record : List (String × Value)) :
    s.nodeWithProps label record = record.foldl entered (s.node (some label)) := rfl

namespace Session

/-- A session goes on with properties that are made and attached to a node one after the other. -/
theorem ReachedWithResets.exists_entered (record : List (String × Value)) {n : Node}
    {numbering : Numbering} {made : List Entity} (h : ReachedWithResets ⟨numbering, made⟩)
    (hn : .node n ∈ made) :
    ∃ made', made ⊆ made' ∧ .node (record.foldl Numbering.entered (n, numbering)).1 ∈ made' ∧
      ReachedWithResets ⟨(record.foldl Numbering.entered (n, numbering)).2, made'⟩ := by
  induction record generalizing n numbering made with
  | nil => exact ⟨made, List.Subset.refl made, hn, h⟩
  | cons entry rest ih =>
      have hproperty := h.tail (.step (.property entry.1 (some entry.2)))
      have hattach := hproperty.tail (.step (.derived (.attachedNode
        (List.mem_cons_of_mem _ hn) List.mem_cons_self)))
      obtain ⟨made', hsubset, hnode, hreached⟩ := ih hattach List.mem_cons_self
      exact ⟨made', fun e he => hsubset (List.mem_cons_of_mem _ (List.mem_cons_of_mem _ he)),
        hnode, hreached⟩

/-- A node with the properties of a record is made in a session that goes on. -/
theorem ReachedWithResets.exists_nodeWithProps {s : Session} (h : s.ReachedWithResets)
    (label : String) (record : List (String × Value)) :
    ∃ made, s.made ⊆ made ∧ .node (s.numbering.nodeWithProps label record).1 ∈ made ∧
      ReachedWithResets ⟨(s.numbering.nodeWithProps label record).2, made⟩ := by
  rw [Numbering.nodeWithProps_eq]
  have hnode : ReachedWithResets ⟨(s.numbering.node (some label)).2,
      .node (s.numbering.node (some label)).1 :: s.made⟩ := h.tail (.step (.node (some label)))
  obtain ⟨made, hsubset, hentered, hreached⟩ := hnode.exists_entered record List.mem_cons_self
  exact ⟨made, fun e he => hsubset (List.mem_cons_of_mem _ he), hentered, hreached⟩

/-- The properties of nodes and relationships are maps. In every entity of a session, a triple or a
path as well as a node or a relationship by itself, each copy of a member holds the map of its log:
no handle twice, the handles that were attached since the copy was last made plain in the order in
which they came first, and each property as it was attached last, as one of the copy's own. Every
entity has logs, and nodes that are made with properties are made in sessions. -/
theorem ReachedWithResets.props_are_maps {s : Session} (h : s.ReachedWithResets) :
    (∀ e ∈ s.made, (∃ f, e.Logged f) ∧
      ∀ f, e.Logged f → e.Related Node.Collects Relationship.Collects f) ∧
    ∀ label record, ∃ made, s.made ⊆ made ∧
      .node (s.numbering.nodeWithProps label record).1 ∈ made ∧
      ReachedWithResets ⟨(s.numbering.nodeWithProps label record).2, made⟩ :=
  ⟨fun e he => ⟨h.exists_logged e he, fun _ hlogged => hlogged.collects⟩, h.exists_nodeWithProps⟩

/-- A property with a number for its value. -/
def numbered (var handle : String) (n : Int) (owner : Option String) : Property :=
  ⟨var, handle, some (.number (.integer n)), none, owner⟩

/-- A node with the given properties. -/
def loopNode (props : List Property) : Node := { var := "n0", label := some "A", props }

/-- A relationship from the node to itself. -/
def loop (props : List Property) : Triple :=
  ⟨loopNode props, { var := "r0", kind := some "r" }, loopNode props⟩

/-- The nodes, the relationship and the properties that are made first. -/
def loopParts : List Entity :=
  [.relationship (loop []).edge, .property (numbered "p2" "k" 3 none),
    .property (numbered "p1" "j" 2 none), .property (numbered "p0" "k" 1 none),
    .node (loopNode [])]

/-- The node with its first two properties. -/
def firstProps : List Property := [numbered "p0" "k" 1 (some "n0"), numbered "p1" "j" 2 (some "n0")]

/-- The node when a third property has replaced the first one. -/
def lastProps : List Property := [numbered "p2" "k" 3 (some "n0"), numbered "p1" "j" 2 (some "n0")]

/-- The properties that were attached. -/
def loopLog : List Property :=
  [numbered "p0" "k" 1 none, numbered "p1" "j" 2 none, numbered "p2" "k" 3 none]

/-- The session in which a node is given two properties and put on both ends of a triple, where a
third property replaces the first one. -/
def looped : Session where
  numbering := ⟨1, 1, 3, 0⟩
  made := .triple (loop lastProps) :: .triple (loop firstProps) :: .node (loopNode firstProps) ::
    .node (loopNode [numbered "p0" "k" 1 (some "n0")]) :: loopParts

theorem reached_looped : looped.ReachedWithResets := by
  have hparts : Session.Reached ⟨⟨1, 1, 3, 0⟩, loopParts⟩ :=
    .tail (.tail (.tail (.tail (.tail .refl (.node (some "A")))
      (.property "k" (some (.number (.integer 1)))))
      (.property "j" (some (.number (.integer 2)))))
      (.property "k" (some (.number (.integer 3))))) (.relationship (some "r"))
  have hfirst : Session.Reached ⟨⟨1, 1, 3, 0⟩,
      .node (loopNode [numbered "p0" "k" 1 (some "n0")]) :: loopParts⟩ :=
    hparts.tail (.derived (.attachedNode (n := loopNode []) (p := numbered "p0" "k" 1 none)
      (by simp [loopParts]) (by simp [loopParts])))
  have hboth : Session.Reached ⟨⟨1, 1, 3, 0⟩, .node (loopNode firstProps) ::
      .node (loopNode [numbered "p0" "k" 1 (some "n0")]) :: loopParts⟩ :=
    hfirst.tail (.derived (.attachedNode (n := loopNode [numbered "p0" "k" 1 (some "n0")])
      (p := numbered "p1" "j" 2 none) (by simp) (by simp [loopParts])))
  have htriple : Session.Reached ⟨⟨1, 1, 3, 0⟩, .triple (loop firstProps) ::
      .node (loopNode firstProps) :: .node (loopNode [numbered "p0" "k" 1 (some "n0")]) ::
      loopParts⟩ :=
    hboth.tail (.derived (.triple (n := loopNode firstProps) (r := (loop []).edge)
      (m := loopNode firstProps) (by simp) (by simp [loopParts]) (by simp)))
  have hadded : (Entity.triple (loop firstProps)).addPropToNode "A" (numbered "p2" "k" 3 none)
      = some (.triple (loop lastProps)) := rfl
  exact Reached.withResets
    (htriple.tail (.derived (.addPropToNode (by simp) (by simp [loopParts]) hadded)))

/-- Both copies of the node in the triple hold the map of the three properties that were
attached. -/
theorem props_are_maps_looped : looped.ReachedWithResets ∧ .triple (loop lastProps) ∈ looped.made ∧
    (Entity.triple (loop lastProps)).Logged (.triple (loop loopLog)) ∧
    (Entity.triple (loop lastProps)).Related Node.Collects Relationship.Collects
      (.triple (loop loopLog)) := by
  have hnode : (Entity.node (loopNode firstProps)).Logged
      (.node (loopNode [numbered "p0" "k" 1 none, numbered "p1" "j" 2 none])) :=
    .attachedNode (n := loopNode [numbered "p0" "k" 1 (some "n0")])
      (m := loopNode [numbered "p0" "k" 1 none]) (numbered "p1" "j" 2 none)
      (.attachedNode (n := loopNode []) (m := loopNode []) (numbered "p0" "k" 1 none)
        (.node .start (some "A")))
  have htriple : (Entity.triple (loop firstProps)).Logged
      (.triple (loop [numbered "p0" "k" 1 none, numbered "p1" "j" 2 none])) :=
    .triple hnode (.relationship .start (some "r")) hnode
  have hfound : (Entity.triple (loop firstProps)).nodes.find? (·.hasLabel "A")
      = some (loopNode firstProps) := rfl
  have hlogged : (Entity.triple (loop lastProps)).Logged (.triple (loop loopLog)) :=
    .addPropToNode (numbered "p2" "k" 3 none) htriple hfound
  have hmem : .triple (loop lastProps) ∈ looped.made := List.mem_cons_self
  exact ⟨reached_looped, hmem, hlogged,
    (ReachedWithResets.props_are_maps reached_looped).1 _ hmem |>.2 _ hlogged⟩

end Session

end CypherRoutes
