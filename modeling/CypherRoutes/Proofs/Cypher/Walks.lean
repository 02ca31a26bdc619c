/-
# Reading walks

A path is written as walks, and every walk is written with nodes and edges in turn, a node at each
end. Reading the walks again, an edge with `>` from left to right and an edge with `<` from right
to left, gives every triple of the path once, with its source and its target
(`Path.perm_read_walks`).
-/
import CypherRoutes.Proofs.Cypher.Slots
import CypherRoutes.Proofs.Stitch.Merge

namespace CypherRoutes

/-! ## What is written -/

/-- A node of a written walk, or an edge with what is written before and behind its dashes. -/
inductive Sign where
  | node (n : Node)
  | edge (head : String) (r : Relationship) (point : String)

/-- A sign as it is written. -/
def Sign.phrase : Sign → Phrase
  | node n => n.pattern
  | edge head r point => .verbatim head :: (r.pattern ++ [.verbatim point])

/-- The arrow and the node of a hop. -/
def Hop.signs (hop : Hop) : List Sign :=
  [.edge hop.direction.head hop.edge hop.direction.point, .node hop.node]

/-- The nodes and edges of a walk, from left to right. -/
def Walk.signs (w : Walk) : List Sign := .node w.first :: w.hops.flatMap Hop.signs

/-- Nodes and edges in turn, a node at each end. -/
inductive Alternates : List Sign → Prop where
  | node (n : Node) : Alternates [.node n]
  | edge (n : Node) (head : String) (r : Relationship) (point : String) {rest : List Sign} :
      Alternates rest → Alternates (.node n :: .edge head r point :: rest)

/-- A walk is written sign by sign. -/
theorem Walk.pattern_eq (w : Walk) : w.pattern = w.signs.flatMap Sign.phrase := by
  have hhop : ∀ hop : Hop, hop.pattern = hop.signs.flatMap Sign.phrase := by
    intro hop
    simp [Hop.pattern, Hop.signs, Sign.phrase, Relationship.arrow]
  rw [pattern, signs, List.flatMap_cons, Sign.phrase, List.flatMap_assoc]
  exact congrArg (w.first.pattern ++ ·) (List.flatMap_congr fun hop _ => hhop hop)

/-- Every walk is written with nodes and edges in turn. -/
theorem Walk.alternates_signs (w : Walk) : Alternates w.signs := by
  obtain ⟨first, hops⟩ := w
  rw [signs]
  induction hops generalizing first with
  | nil => exact .node first
  | cons hop rest ih => exact .edge first _ _ _ (ih hop.node)

/-! ## What is read -/

/-- An edge between a node on its left and a node on its right. -/
def Direction.ends (d : Direction) (left : Node) (r : Relationship) (right : Node) : Ends :=
  ⟨(d.orient left.var right.var).1, r.var, (d.orient left.var right.var).2⟩

/-- The direction of an arrow: `>` behind the dashes points to the right, and `<` before them to
the left. -/
def Direction.read? (head point : String) : Option Direction :=
  if head = "" ∧ point = ">" then some right
  else if head = "<" ∧ point = "" then some left
  else none

/-- The edges that signs behind the node `n` are read as. -/
def readFrom (n : Node) : List Sign → List Ends
  | .edge head r point :: .node m :: rest =>
    ((Direction.read? head point).map fun d => d.ends n r m).toList ++ readFrom m rest
  | _ => []

/-- The edges that the signs of a walk are read as. -/
def readSigns : List Sign → List Ends
  | .node n :: rest => readFrom n rest
  | _ => []

theorem Direction.read?_arrow (d : Direction) : read? d.head d.point = some d := by
  cases d <;> decide

namespace Walk

/-- The edges that a walk is read as. -/
def read (w : Walk) : List Ends := readSigns w.signs

@[simp] theorem read_nil (n : Node) : read ⟨n, []⟩ = [] := rfl

@[simp] theorem read_cons (n : Node) (hop : Hop) (rest : List Hop) :
    read ⟨n, hop :: rest⟩ = hop.direction.ends n hop.edge hop.node :: read ⟨hop.node, rest⟩ := by
  show ((Direction.read? hop.direction.head hop.direction.point).map fun d =>
    d.ends n hop.edge hop.node).toList ++ readFrom hop.node (rest.flatMap Hop.signs) = _
  rw [Direction.read?_arrow]
  rfl

theorem read_ofTriple (t : Triple) : (ofTriple t).read = [t.ends] := by
  rw [ofTriple, read_cons, read_nil]
  rfl

theorem read_prepend (w : Walk) (n : Node) (r : Relationship) (d : Direction) :
    (w.prepend n r d).read = d.ends n r w.first :: w.read := by
  rw [prepend, read_cons]

theorem read_append (w : Walk) (r : Relationship) (d : Direction) (n : Node) :
    (w.append r d n).read = w.read ++ [d.ends w.last r n] := by
  obtain ⟨first, hops⟩ := w
  rw [append, last]
  induction hops generalizing first with
  | nil => rw [List.nil_append, read_cons, read_nil, read_nil, lastAfter, List.nil_append]
  | cons hop rest ih =>
      rw [List.cons_append, read_cons, read_cons, ih hop.node]
      rfl

/-- A walk lengthened by a triple is read as before, with the triple. -/
theorem perm_read_extend? {w w' : Walk} {t : Triple} (h : w.extend? t = some w') :
    w'.read.Perm (t.ends :: w.read) := by
  have hswap : ∀ {e : Ends}, e = t.ends → (w.read ++ [e]).Perm (t.ends :: w.read) :=
    fun he => he ▸ List.perm_append_singleton _ _
  rw [extend?] at h
  -- the end that the triple touches has the variable of the triple's source or target
  split_ifs at h with hsf hsl htf htl <;> obtain rfl := Option.some.inj h
  · rw [read_prepend, Direction.ends, var_eq_of_sameEndpoint hsf]
    exact .refl _
  · rw [read_append, Direction.ends, var_eq_of_sameEndpoint hsl]
    exact hswap rfl
  · rw [read_prepend, Direction.ends, var_eq_of_sameEndpoint htf]
    exact .refl _
  · rw [read_append, Direction.ends, var_eq_of_sameEndpoint htl]
    exact hswap rfl

/-- The walks of a list of triples are read as the walk at hand and the triples. -/
theorem perm_read_gather (w : Walk) (triples : List Triple) :
    ((gather w triples).flatMap read).Perm (w.read ++ triples.map Triple.ends) := by
  induction triples generalizing w with
  | nil => rw [gather, List.flatMap_singleton, List.map_nil, List.append_nil]
  | cons t rest ih =>
      rw [gather, List.map_cons]
      cases hextend : w.extend? t with
      | some w' =>
          have hlonger : (w'.read ++ rest.map Triple.ends).Perm
              (t.ends :: (w.read ++ rest.map Triple.ends)) :=
            (perm_read_extend? hextend).append_right _
          exact ((ih w').trans hlonger).trans List.perm_middle.symm
      | none =>
          rw [List.flatMap_cons, ← List.singleton_append, ← read_ofTriple]
          exact (ih (ofTriple t)).append_left w.read

end Walk

/-! ## Paths -/

/-- A path is written as its walks. Each has nodes and edges in turn, with a node at each end; and
all of them together are read as the triples of the path, each once. -/
theorem Path.perm_read_walks (g : Path) :
    g.pattern = Phrase.joined ", " (g.walks.map fun w => w.signs.flatMap Sign.phrase) ∧
      (∀ w ∈ g.walks, Alternates w.signs) ∧
      (g.walks.flatMap fun w => readSigns w.signs).Perm (g.triples.map Triple.ends) := by
  refine ⟨?_, fun w _ => w.alternates_signs, ?_⟩
  · rw [pattern, List.map_congr_left fun w _ => w.pattern_eq]
  · rw [walks]
    cases g.triples with
    | nil => exact .refl _
    | cons t rest =>
        have hread := Walk.perm_read_gather (.ofTriple t) rest
        rwa [Walk.read_ofTriple] at hread

end CypherRoutes
