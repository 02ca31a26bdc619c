/-
# Stitching sees variables, labels, directions and hints

Stitching looks at the variables and labels of nodes and at the variables, directions and hints of
relationships, and at nothing else. So two lists of entities that are related node by node and
edge by edge, by relations that keep these, are both refused, for the same reason at the same
position, or make paths that are related triple by triple (`stitch_related`). With the relation of
a node to itself this says that a stitched path is made of the nodes and edges of its arguments.
-/
import CypherRoutes.Graph.Stitch
import CypherRoutes.Proofs.Outcome

namespace CypherRoutes

/-! ## Related entities -/

/-- Relations of nodes and of edges that keep what stitching looks at. -/
structure KeepsIdentity (R : Node → Node → Prop) (S : Relationship → Relationship → Prop) :
    Prop where
  var : ∀ {n m}, R n m → n.var = m.var
  label : ∀ {n m}, R n m → n.label = m.label
  edgeVar : ∀ {r q}, S r q → r.var = q.var
  direction : ∀ {r q}, S r q → r.direction = q.direction
  hint : ∀ {r q}, S r q → r.hint = q.hint

/-- Two triples with related nodes and edges. -/
structure Triple.Related (R : Node → Node → Prop) (S : Relationship → Relationship → Prop)
    (t u : Triple) : Prop where
  source : R t.source u.source
  edge : S t.edge u.edge
  target : R t.target u.target

/-- Two entities of one kind with related nodes and edges. -/
inductive Entity.Related (R : Node → Node → Prop) (S : Relationship → Relationship → Prop) :
    Entity → Entity → Prop where
  | node {n m : Node} : R n m → Related R S (.node n) (.node m)
  | relationship {r q : Relationship} : S r q → Related R S (.relationship r) (.relationship q)
  | property (p q : Property) : Related R S (.property p) (.property q)
  | triple {t u : Triple} : t.Related R S u → Related R S (.triple t) (.triple u)
  | path {g h : Path} : List.Forall₂ (Triple.Related R S) g.triples h.triples →
      Related R S (.path g) (.path h)

/-- Pending entities that are related. -/
inductive Pending.Related (R : Node → Node → Prop) (S : Relationship → Relationship → Prop) :
    Pending → Pending → Prop where
  | nothing : Related R S .nothing .nothing
  | node {n m : Node} : R n m → Related R S (.node n) (.node m)
  | nodeRel {n m : Node} {r q : Relationship} : R n m → S r q →
      Related R S (.nodeRel n r) (.nodeRel m q)
  | rel {r q : Relationship} : S r q → Related R S (.rel r) (.rel q)

/-- Paths in the making that are related. -/
structure Stitch.Related (R : Node → Node → Prop) (S : Relationship → Relationship → Prop)
    (s u : Stitch) : Prop where
  triples : List.Forall₂ (Triple.Related R S) s.triples u.triples
  tail : Option.Rel R s.tail u.tail
  pending : s.pending.Related R S u.pending

/-- Two failures of one kind at one position; only the entity at fault may differ. -/
inductive PathError.Alike : PathError → PathError → Prop where
  | same (e : PathError) : Alike e e
  | invalidArgument (a b : Entity) (position : Nat) :
      Alike (.invalidArgument a position) (.invalidArgument b position)

variable {R : Node → Node → Prop} {S : Relationship → Relationship → Prop}

/-! ## What is seen of related triples -/

theorem KeepsIdentity.sameEndpoint (k : KeepsIdentity R S) {n m n' m' : Node} (h : R n m)
    (h' : R n' m') : n.sameEndpoint n' = m.sameEndpoint m' := by
  rw [Node.sameEndpoint, Node.sameEndpoint, k.var h, k.var h']

theorem KeepsIdentity.hasLabel (k : KeepsIdentity R S) {n m : Node} (h : R n m)
    (label : String) : n.hasLabel label = m.hasLabel label := by
  rw [Node.hasLabel, Node.hasLabel, k.label h]

theorem KeepsIdentity.sameAs (k : KeepsIdentity R S) {t u t' u' : Triple}
    (h : t.Related R S u) (h' : t'.Related R S u') : t.sameAs t' = u.sameAs u' := by
  rw [Triple.sameAs, Triple.sameAs, k.edgeVar h.edge, k.edgeVar h'.edge,
    k.sameEndpoint h.source h'.source, k.sameEndpoint h.target h'.target]

theorem KeepsIdentity.touches (k : KeepsIdentity R S) {t u t' u' : Triple}
    (h : t.Related R S u) (h' : t'.Related R S u') : t.touches t' = u.touches u' := by
  simp only [Triple.touches, Triple.nodes, List.any_cons, List.any_nil,
    k.sameEndpoint h.source h'.source, k.sameEndpoint h.source h'.target,
    k.sameEndpoint h.target h'.source, k.sameEndpoint h.target h'.target]

theorem KeepsIdentity.relate (k : KeepsIdentity R S) {r q : Relationship} (hr : S r q)
    {n m n' m' : Node} (h : R n m) (h' : R n' m') :
    (r.relate n n').Related R S (q.relate m m') := by
  rw [Relationship.relate, Relationship.relate, k.direction hr]
  cases q.direction with
  | right => exact ⟨h, hr, h'⟩
  | left => exact ⟨h', hr, h⟩

theorem Triple.Related.nodes {t u : Triple} (h : t.Related R S u) :
    List.Forall₂ R t.nodes u.nodes :=
  .cons h.source (.cons h.target .nil)

/-- A test that does not tell related elements apart holds somewhere on both lists or on none. -/
theorem any_eq_of_forall₂ {α β : Type} {P : α → β → Prop} {f : α → Bool} {g : β → Bool}
    {l : List α} {l' : List β} (h : List.Forall₂ P l l') (hfg : ∀ a b, P a b → f a = g b) :
    l.any f = l'.any g := by
  induction h with
  | nil => rfl
  | cons hab _ ih => rw [List.any_cons, List.any_cons, hfg _ _ hab, ih]

/-- The first elements that pass such a test are related. -/
theorem find?_related {α β : Type} {P : α → β → Prop} {f : α → Bool} {g : β → Bool}
    {l : List α} {l' : List β} (h : List.Forall₂ P l l') (hfg : ∀ a b, P a b → f a = g b) :
    Option.Rel P (l.find? f) (l'.find? g) := by
  induction h with
  | nil => exact .none
  | @cons a b l l' hab _ ih =>
      rw [List.find?_cons, List.find?_cons, hfg _ _ hab]
      cases g b with
      | true => exact .some hab
      | false => exact ih

/-- The last elements of related lists are related. -/
theorem getLast?_related {α β : Type} {P : α → β → Prop} {l : List α} {l' : List β}
    (h : List.Forall₂ P l l') : Option.Rel P l.getLast? l'.getLast? := by
  induction h with
  | nil => exact .none
  | cons hab hrest ih =>
      cases hrest with
      | nil => exact .some hab
      | cons => rwa [List.getLast?_cons_cons, List.getLast?_cons_cons]

/-! ## Stitching in step -/

namespace Stitch

/-- A fragment merged into the triples so far. -/
theorem merge_related (k : KeepsIdentity R S) {ts us fs gs : List Triple}
    (h : List.Forall₂ (Triple.Related R S) ts us)
    (hf : List.Forall₂ (Triple.Related R S) fs gs) :
    List.Forall₂ (Triple.Related R S) (merge ts fs) (merge us gs) := by
  induction hf generalizing ts us with
  | nil => exact h
  | @cons t u fs gs htu _ ih =>
      -- a triple is new on both sides or on neither
      have hany : ts.any (·.sameAs t) = us.any (·.sameAs u) :=
        any_eq_of_forall₂ h fun a b hab => k.sameAs hab htu
      show List.Forall₂ _ (merge (if ts.any (·.sameAs t) then ts else ts ++ [t]) fs)
        (merge (if us.any (·.sameAs u) then us else us ++ [u]) gs)
      rw [hany]
      split_ifs
      · exact ih h
      · exact ih (List.rel_append h (.cons htu .nil))

/-- A fragment appended to the triples so far. -/
theorem append_related (k : KeepsIdentity R S) {ts us fs gs : List Triple}
    (h : List.Forall₂ (Triple.Related R S) ts us)
    (hf : List.Forall₂ (Triple.Related R S) fs gs) (position : Nat) :
    SameOutcome PathError.Alike (List.Forall₂ (Triple.Related R S))
      (append ts fs position) (append us gs position) := by
  have hlast := getLast?_related h
  rw [append, append]
  generalize ts.getLast? = before at hlast ⊢
  generalize us.getLast? = before' at hlast ⊢
  cases hlast with
  | none => exact .ok (merge_related k h hf)
  | @some last last' hlast =>
      have hany : (fs.any fun t => last.sameAs t || last.touches t)
          = gs.any fun t => last'.sameAs t || last'.touches t :=
        any_eq_of_forall₂ hf fun a b hab => by rw [k.sameAs hlast hab, k.touches hlast hab]
      simp only [hany]
      split_ifs
      · exact .ok (merge_related k h hf)
      · exact .error (.same _)

/-- The node from which a relationship continues behind a fragment. -/
theorem fragmentTail_related {fs gs : List Triple}
    (hf : List.Forall₂ (Triple.Related R S) fs gs) :
    Option.Rel R (fragmentTail fs) (fragmentTail gs) := by
  cases hf with
  | nil => exact .none
  | cons htu hrest =>
      cases hrest with
      | nil => exact .some htu.target
      | cons => exact .none

/-- A fragment added. -/
theorem addFragment_related (k : KeepsIdentity R S) {ts us fs gs : List Triple}
    (h : List.Forall₂ (Triple.Related R S) ts us)
    (hf : List.Forall₂ (Triple.Related R S) fs gs) (position : Nat) :
    SameOutcome PathError.Alike (Stitch.Related R S)
      (addFragment ts fs position) (addFragment us gs position) :=
  (append_related k h hf position).bind fun _ _ hab =>
    .ok ⟨hab, fragmentTail_related hf, .nothing⟩

/-- A relationship to a node added. -/
theorem addRelation_related (k : KeepsIdentity R S) {ts us : List Triple}
    (h : List.Forall₂ (Triple.Related R S) ts us) {r q : Relationship} (hr : S r q)
    {n m n' m' : Node} (hn : R n n') (hm : R m m') (position : Nat) :
    SameOutcome PathError.Alike (Stitch.Related R S)
      (addRelation ts r n m position) (addRelation us q n' m' position) :=
  (append_related k h (.cons (k.relate hr hn hm) .nil) position).bind fun _ _ hab =>
    .ok ⟨hab, .some hm, .nothing⟩

/-- A node, a relationship and a fragment added. -/
theorem addLeading_related (k : KeepsIdentity R S) {ts us fs gs : List Triple}
    (h : List.Forall₂ (Triple.Related R S) ts us) {r q : Relationship} (hr : S r q)
    {n n' : Node} (hn : R n n') {t u : Triple} (htu : t.Related R S u)
    (hf : List.Forall₂ (Triple.Related R S) fs gs) (position : Nat) :
    SameOutcome PathError.Alike (Stitch.Related R S)
      (addLeading ts n r t fs position) (addLeading us n' q u gs position) :=
  (append_related k h (.cons (k.relate hr hn htu.source) .nil) position).bind fun _ _ hab =>
    addFragment_related k hab hf position

/-- The nodes that a join hint names. -/
theorem joinEnds?_related (k : KeepsIdentity R S) (hint : JoinHint) {ts us fs gs : List Triple}
    (h : List.Forall₂ (Triple.Related R S) ts us)
    (hf : List.Forall₂ (Triple.Related R S) fs gs) :
    Option.Rel (fun p q => R p.1 q.1 ∧ R p.2 q.2) (joinEnds? hint ts fs)
      (joinEnds? hint us gs) := by
  have hnodes : List.Forall₂ R (fs.flatMap Triple.nodes) (gs.flatMap Triple.nodes) :=
    List.rel_flatMap hf fun _ _ htu => htu.nodes
  have hright := find?_related (f := (·.hasLabel hint.right)) (g := (·.hasLabel hint.right))
    hnodes fun _ _ hab => k.hasLabel hab hint.right
  have hlast := getLast?_related h
  rw [joinEnds?, joinEnds?]
  generalize ts.getLast? = before at hlast ⊢
  generalize us.getLast? = before' at hlast ⊢
  cases hlast with
  | none => exact .none
  | @some last last' hlast =>
      have hleft := find?_related (f := (·.hasLabel hint.left)) (g := (·.hasLabel hint.left))
        hlast.nodes fun _ _ hab => k.hasLabel hab hint.left
      simp only [Option.bind_eq_bind, Option.bind_some]
      generalize last.nodes.find? (·.hasLabel hint.left) = left at hleft ⊢
      generalize last'.nodes.find? (·.hasLabel hint.left) = left' at hleft ⊢
      generalize (fs.flatMap Triple.nodes).find? (·.hasLabel hint.right) = right at hright ⊢
      generalize (gs.flatMap Triple.nodes).find? (·.hasLabel hint.right) = right' at hright ⊢
      cases hleft with
      | none => exact .none
      | some hl =>
          cases hright with
          | none => exact .none
          | some hr => exact .some ⟨hl, hr⟩

/-- A relationship between the triples so far and a fragment. -/
theorem join_related (k : KeepsIdentity R S) {ts us fs gs : List Triple}
    (h : List.Forall₂ (Triple.Related R S) ts us) {r q : Relationship} (hr : S r q)
    (hf : List.Forall₂ (Triple.Related R S) fs gs) (position : Nat) :
    SameOutcome PathError.Alike (Stitch.Related R S)
      (join ts r fs position) (join us q gs position) := by
  rw [join, join, k.hint hr]
  cases q.hint with
  | none => exact .error (.same _)
  | some hint =>
      have hends := joinEnds?_related k hint h hf
      simp only
      generalize joinEnds? hint ts fs = ends at hends ⊢
      generalize joinEnds? hint us gs = ends' at hends ⊢
      cases hends with
      | none => exact .error (.same _)
      | some hlr =>
          exact (append_related k h (.cons (k.relate hr hlr.1 hlr.2) .nil) position).bind
            fun _ _ hab => addFragment_related k hab hf position

/-- One more entity. -/
theorem take_related (k : KeepsIdentity R S) {s u : Stitch} (h : s.Related R S u)
    {e f : Entity} (hef : e.Related R S f) (position : Nat) :
    SameOutcome PathError.Alike (Stitch.Related R S) (s.take e position) (u.take f position) := by
  obtain ⟨ts, tail, pending⟩ := s
  obtain ⟨us, tail', pending'⟩ := u
  obtain ⟨htriples, htail, hpending⟩ := h
  simp only at htriples htail hpending
  -- what is pending decides which entities may come next
  cases hpending with
  | nothing =>
      cases hef with
      | node hn => exact .ok ⟨htriples, htail, .node hn⟩
      | relationship hr =>
          simp only [take]
          cases htriples with
          | nil => exact .error (.invalidArgument _ _ _)
          | cons htu hrest => exact .ok ⟨.cons htu hrest, htail, .rel hr⟩
      | property => exact .error (.invalidArgument _ _ _)
      | triple htu => exact addFragment_related k htriples (.cons htu .nil) position
      | path hg => exact addFragment_related k htriples hg position
  | node hn =>
      cases hef with
      | relationship hr => exact .ok ⟨htriples, htail, .nodeRel hn hr⟩
      | node => exact .error (.invalidArgument _ _ _)
      | property => exact .error (.invalidArgument _ _ _)
      | triple => exact .error (.invalidArgument _ _ _)
      | path => exact .error (.invalidArgument _ _ _)
  | nodeRel hn hr =>
      cases hef with
      | node hm => exact addRelation_related k htriples hr hn hm position
      | triple htu => exact addLeading_related k htriples hr hn htu (.cons htu .nil) position
      | @path g g' hg =>
          obtain ⟨v, gs⟩ := g
          obtain ⟨v', gs'⟩ := g'
          simp only at hg
          simp only [take]
          -- only a path of one triple tells where the relationship leads
          cases hg with
          | nil => exact .error (.same _)
          | cons htu hrest =>
              cases hrest with
              | nil => exact addLeading_related k htriples hr hn htu (.cons htu .nil) position
              | cons => exact .error (.same _)
      | relationship => exact .error (.invalidArgument _ _ _)
      | property => exact .error (.invalidArgument _ _ _)
  | rel hr =>
      cases hef with
      | node hm =>
          simp only [take]
          cases htail with
          | none => exact .error (.same _)
          | some hn => exact addRelation_related k htriples hr hn hm position
      | triple htu => exact join_related k htriples hr (.cons htu .nil) position
      | path hg => exact join_related k htriples hr hg position
      | relationship => exact .error (.invalidArgument _ _ _)
      | property => exact .error (.invalidArgument _ _ _)

/-- All entities of two lists. -/
theorem takeAll_related (k : KeepsIdentity R S) {es fs : List Entity}
    (hef : List.Forall₂ (Entity.Related R S) es fs) {s u : Stitch} (h : s.Related R S u)
    (position : Nat) :
    SameOutcome PathError.Alike (Stitch.Related R S) (s.takeAll es position)
      (u.takeAll fs position) := by
  induction hef generalizing s u position with
  | nil => exact .ok h
  | cons hab _ ih =>
      exact (take_related k h hab position).bind fun _ _ hs => ih hs (position + 1)

/-- The triples of finished paths. -/
theorem finish_related {s u : Stitch} (h : s.Related R S u) :
    SameOutcome PathError.Alike (List.Forall₂ (Triple.Related R S)) s.finish u.finish := by
  obtain ⟨ts, tail, pending⟩ := s
  obtain ⟨us, tail', pending'⟩ := u
  obtain ⟨htriples, -, hpending⟩ := h
  simp only at htriples hpending
  cases hpending with
  | nothing =>
      simp only [finish]
      cases htriples with
      | nil => exact .error (.same _)
      | cons htu hrest => exact .ok (.cons htu hrest)
  | node => exact .error (.same _)
  | nodeRel => exact .error (.same _)
  | rel => exact .error (.same _)

end Stitch

/-- Related lists of entities are stitched in step. -/
theorem stitch_related (k : KeepsIdentity R S) {es fs : List Entity}
    (hef : List.Forall₂ (Entity.Related R S) es fs) :
    SameOutcome PathError.Alike (List.Forall₂ (Triple.Related R S)) (stitch es) (stitch fs) :=
  (Stitch.takeAll_related k hef ⟨.nil, .none, .nothing⟩ 1).bind fun _ _ h =>
    Stitch.finish_related h

end CypherRoutes
