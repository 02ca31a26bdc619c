/-
# Chains of triples

Triples form a chain if they join pairwise different variables in a row, each in either orientation.
A chain is stitched from its first triple on and from its last one on. No other order is let
through, up to repetitions: a triple has to touch the last one that is there, so what is stitched is
a part of the chain in one of its two directions (`Stitch.runs_of_append`). A chain is written as
one walk over its variables in a row (`Path.walk_of_chain`).
-/
import CypherRoutes.Proofs.Cypher.Walks
import CypherRoutes.Proofs.Stitch.Contents

namespace CypherRoutes

/-! ## Chains -/

namespace Ends

/-- An end at a variable. -/
def At (e : Ends) (v : String) : Prop := e.source = v ∨ e.target = v

/-- The ends at two variables, in either orientation. -/
def Joins (e : Ends) (v w : String) : Prop :=
  (e.source = v ∧ e.target = w) ∨ (e.source = w ∧ e.target = v)

theorem Joins.symm {e : Ends} {v w : String} (h : e.Joins v w) : e.Joins w v := Or.symm h

theorem Joins.at_iff {e : Ends} {v w x : String} (h : e.Joins v w) : e.At x ↔ x = v ∨ x = w := by
  rcases h with ⟨rfl, rfl⟩ | ⟨rfl, rfl⟩
  · exact or_congr eq_comm eq_comm
  · exact or_comm.trans (or_congr eq_comm eq_comm)

end Ends

/-- The ends of a triple are at the variables of its nodes. -/
theorem Triple.at_ends_iff {t : Triple} {v : String} : t.ends.At v ↔ ∃ n ∈ t.nodes, n.var = v := by
  simp [Ends.At, ends, nodes]

/-- Triples touch each other at a variable. -/
theorem Triple.touches_iff_at {t u : Triple} :
    t.touches u = true ↔ ∃ v, t.ends.At v ∧ u.ends.At v := by
  simp only [touches_iff, at_ends_iff]
  constructor
  · rintro ⟨n, hn, m, hm, hvar⟩
    exact ⟨n.var, ⟨n, hn, rfl⟩, m, hm, hvar.symm⟩
  · rintro ⟨v, ⟨n, hn, rfl⟩, m, hm, hvar⟩
    exact ⟨n, hn, m, hm, hvar.symm⟩

/-- Edges in a row, each between two variables that follow each other. -/
inductive Links : (vars : List String) → (row : List Ends) → Prop where
  | nil (v : String) : Links [v] []
  | cons {v w : String} {vars : List String} {e : Ends} {row : List Ends} : e.Joins v w →
      Links (w :: vars) row → Links (v :: w :: vars) (e :: row)

namespace Links

variable {vars : List String} {row : List Ends}

/-- The edges are at the variables of the row. -/
theorem mem_of_at (h : Links vars row) {e : Ends} (he : e ∈ row) {v : String} (hv : e.At v) :
    v ∈ vars := by
  induction h with
  | nil => exact absurd he List.not_mem_nil
  | cons hjoins _ ih =>
      rcases List.mem_cons.mp he with rfl | he
      · rcases hjoins.at_iff.mp hv with rfl | rfl <;> simp
      · exact List.mem_cons_of_mem _ (ih he)

/-- A row goes on behind its last variable. -/
theorem concat {v w : String} {e : Ends} (h : Links (vars ++ [v]) row) (he : e.Joins v w) :
    Links (vars ++ [v, w]) (row ++ [e]) := by
  generalize hall : vars ++ [v] = all at h
  induction h generalizing vars with
  | nil x =>
      obtain ⟨rfl, hx⟩ := List.append_eq_singleton_iff.mp hall |>.resolve_right (by simp)
      obtain rfl := (List.cons.inj hx).1
      exact .cons he (.nil w)
  | @cons x y more e' row hjoins _ ih =>
      cases vars with
      | nil => cases hall
      | cons z vars =>
          obtain ⟨rfl, hmore⟩ := List.cons.inj hall
          have hrest := ih hmore
          cases vars with
          | nil =>
              obtain ⟨rfl, -⟩ := List.cons.inj hmore
              exact .cons hjoins hrest
          | cons y' vars =>
              obtain ⟨rfl, -⟩ := List.cons.inj hmore
              exact .cons hjoins hrest

/-- A row read from its end. -/
theorem reverse (h : Links vars row) : Links vars.reverse row.reverse := by
  induction h with
  | nil v => exact .nil v
  | @cons v w vars e row hjoins _ ih =>
      rw [List.reverse_cons] at ih
      rw [List.reverse_cons, List.reverse_cons, List.reverse_cons, List.append_assoc]
      exact ih.concat hjoins.symm

/-- A row split at one of its edges. -/
theorem split {front back : List Ends} {e : Ends} (h : Links vars (front ++ e :: back)) :
    ∃ before v w after, vars = before ++ v :: w :: after ∧ Links (before ++ [v]) front ∧
      e.Joins v w ∧ Links (w :: after) back := by
  induction front generalizing vars with
  | nil =>
      cases h with
      | @cons v w after _ _ hjoins hrest => exact ⟨[], v, w, after, rfl, .nil v, hjoins, hrest⟩
  | cons f front ih =>
      cases h with
      | @cons x y more _ _ hjoins hrest =>
          obtain ⟨before, v, w, after, hvars, hfront, he, hback⟩ := ih hrest
          refine ⟨x :: before, v, w, after, by rw [hvars, List.cons_append], ?_, he, hback⟩
          cases before with
          | nil =>
              obtain ⟨rfl, -⟩ := List.cons.inj hvars
              exact .cons hjoins hfront
          | cons z before =>
              obtain ⟨rfl, -⟩ := List.cons.inj hvars
              exact .cons hjoins hfront

/-- Only the first edge of a row is at the first variable. -/
theorem exists_eq_cons {v : String} (h : Links (v :: vars) row) (hnodup : (v :: vars).Nodup)
    {e : Ends} (he : e ∈ row) (hv : e.At v) : ∃ rest, row = e :: rest := by
  cases h with
  | nil => exact absurd he List.not_mem_nil
  | @cons _ w vars _ rest hjoins hrest =>
      rcases List.mem_cons.mp he with rfl | he
      · exact ⟨rest, rfl⟩
      · exact absurd (hrest.mem_of_at he hv) (List.nodup_cons.mp hnodup).1

/-- Only the last edge of a row is at the last variable. -/
theorem exists_eq_concat {v : String} (h : Links (vars ++ [v]) row) (hnodup : (vars ++ [v]).Nodup)
    {e : Ends} (he : e ∈ row) (hv : e.At v) : ∃ init, row = init ++ [e] := by
  have hreverse := h.reverse
  rw [List.reverse_append, List.reverse_singleton, List.singleton_append] at hreverse
  have hnodup' : (v :: vars.reverse).Nodup := by
    rwa [← List.nodup_reverse, List.reverse_cons, List.reverse_reverse]
  obtain ⟨rest, hrest⟩ := hreverse.exists_eq_cons hnodup' (List.mem_reverse.mpr he) hv
  exact ⟨rest.reverse, by rw [← List.reverse_cons, ← hrest, List.reverse_reverse]⟩

/-- An edge touches itself and the edges before and behind it, and no others. -/
theorem neighbours {front back : List Ends} {e e' : Ends} (h : Links vars (front ++ e :: back))
    (hnodup : vars.Nodup) (he' : e' ∈ front ++ e :: back) {x : String} (hx : e.At x)
    (hx' : e'.At x) :
    e' = e ∨ (∃ init, front = init ++ [e']) ∨ ∃ rest, back = e' :: rest := by
  obtain ⟨before, v, w, after, rfl, hfront, hjoins, hback⟩ := h.split
  have hsplit : before ++ v :: w :: after = (before ++ [v]) ++ w :: after := by simp
  rw [hsplit, List.nodup_append] at hnodup
  obtain ⟨hbefore, hafter, hapart⟩ := hnodup
  -- the edges before stay clear of `w`, and those behind of `v`
  rcases List.mem_append.mp he' with hmem | hmem
  · obtain rfl : x = v := (hjoins.at_iff.mp hx).resolve_right fun hxw =>
      hapart x (hfront.mem_of_at hmem hx') w List.mem_cons_self hxw
    exact .inr (.inl (hfront.exists_eq_concat hbefore hmem hx'))
  · rcases List.mem_cons.mp hmem with rfl | hmem
    · exact .inl rfl
    · obtain rfl : x = w := (hjoins.at_iff.mp hx).resolve_left fun hxv =>
        hapart v (by simp) x (hback.mem_of_at hmem hx') hxv.symm
      exact .inr (.inr (hback.exists_eq_cons hafter hmem hx'))

/-- Edges that follow each other meet at a variable. -/
theorem exists_at {front back : List Ends} {e e' : Ends}
    (h : Links vars (front ++ e :: e' :: back)) : ∃ v, e.At v ∧ e'.At v := by
  obtain ⟨before, v, w, after, -, -, hjoins, hback⟩ := h.split
  cases hback with
  | cons hjoins' _ => exact ⟨w, hjoins.at_iff.mpr (.inr rfl), hjoins'.at_iff.mpr (.inl rfl)⟩

end Links

/-! ## Stitching along a chain -/

/-- Edges that are a part of a row, in its order or from its end. -/
def Runs (row kept : List Ends) : Prop := kept <:+: row ∨ kept <:+: row.reverse

/-- A part of a row is lengthened by an edge that touches its last one, if it is not there. -/
theorem Links.runs_concat {vars : List String} {row kept : List Ends} {e e' : Ends}
    (h : Links vars row) (hnodup : vars.Nodup) (hkept : kept ++ [e] <:+: row) (he' : e' ∈ row)
    {x : String} (hx : e.At x) (hx' : e'.At x) :
    e' ∈ kept ++ [e] ∨ Runs row (kept ++ [e] ++ [e']) := by
  obtain ⟨front, back, rfl⟩ := hkept
  have hsplit : front ++ (kept ++ [e]) ++ back = (front ++ kept) ++ e :: back := by simp
  rw [hsplit] at h he'
  rcases h.neighbours hnodup he' hx hx' with rfl | ⟨init, hinit⟩ | ⟨rest, rfl⟩
  · exact .inl (by simp)
  · -- the edge before is there already, unless the part has only one edge
    rcases List.eq_nil_or_concat' kept with rfl | ⟨kept, last, rfl⟩
    · rw [List.append_nil] at hinit
      exact .inr (.inr ⟨back.reverse, init.reverse, by simp [hinit]⟩)
    · rw [← List.append_assoc] at hinit
      have hlast : [last] = [e'] := List.append_inj_right' hinit rfl
      exact .inl (by simp [(List.cons.inj hlast).1])
  · exact .inr (.inl ⟨front, rest, by simp⟩)

/-- A part of a row is one of the row read from its end. -/
theorem Runs.of_reverse {row kept : List Ends} (h : Runs row.reverse kept) : Runs row kept := by
  rw [Runs, List.reverse_reverse] at h
  exact Or.symm h

/-- A part of a row that has all its edges is the row, in one of its directions. -/
theorem Runs.eq_or_eq_reverse {row kept : List Ends} (h : Runs row kept) (hnodup : row.Nodup)
    (hall : row ⊆ kept) : kept = row ∨ kept = row.reverse := by
  have hlength : row.length ≤ kept.length := (hnodup.subperm hall).length_le
  rcases h with h | h
  · exact .inl (h.eq_of_length_le hlength)
  · exact .inr (h.eq_of_length_le (by rwa [List.length_reverse]))

namespace Stitch

variable {vars : List String} {row : List Ends}

/-- A triple of a chain leaves a part of the chain a part of it. -/
theorem runs_of_append (h : Links vars row) (hnodup : vars.Nodup) {kept added : List Triple}
    (hkept : Runs row (kept.map Triple.ends)) {t : Triple} (ht : t.ends ∈ row) {position : Nat}
    (happend : append kept [t] position = .ok added) : Runs row (added.map Triple.ends) := by
  obtain ⟨rfl, -⟩ := adds_of_append happend
  rw [merge_cons, merge_nil]
  split_ifs with hthere
  · exact hkept
  · rw [any_sameAs_iff] at hthere
    rw [List.map_append, List.map_singleton]
    rcases List.eq_nil_or_concat' kept with rfl | ⟨init, last, rfl⟩
    · -- one triple is a part of the chain
      obtain ⟨front, back, hrow⟩ := List.append_of_mem ht
      exact .inl ⟨front, back, by simp [hrow]⟩
    · -- the triple touches the last one
      have htouch : last.touches t = true := by
        rw [append_eq List.getLast?_concat] at happend
        split_ifs at happend with hany
        simpa using hany
      obtain ⟨v, hv, hv'⟩ := Triple.touches_iff_at.mp htouch
      rw [List.map_append, List.map_singleton] at hkept hthere ⊢
      rcases hkept with hkept | hkept
      · exact (h.runs_concat hnodup hkept ht hv hv').resolve_left hthere
      · have hreverse := h.reverse.runs_concat (List.nodup_reverse.mpr hnodup) hkept
          (List.mem_reverse.mpr ht) hv hv'
        exact (hreverse.resolve_left hthere).of_reverse

/-- Triples of a chain leave a part of it a part of it. -/
theorem runs_of_takeAll (h : Links vars row) (hnodup : vars.Nodup) {triples : List Triple}
    (htriples : ∀ t ∈ triples, t.ends ∈ row) {s s' : Stitch} (hs : s.pending = .nothing)
    (hkept : Runs row (s.triples.map Triple.ends)) {position : Nat}
    (htake : s.takeAll (triples.map .triple) position = .ok s') :
    Runs row (s'.triples.map Triple.ends) := by
  induction triples generalizing s position with
  | nil => exact Except.ok.inj htake ▸ hkept
  | cons t rest ih =>
      obtain ⟨kept, tail, pending⟩ := s
      obtain rfl : pending = .nothing := hs
      obtain ⟨middle, hfragment, hrest⟩ := bind_eq_ok_iff.mp htake
      obtain ⟨added, happend, hmiddle⟩ := bind_eq_ok_iff.mp hfragment
      obtain rfl := Except.ok.inj hmiddle
      have hadded := runs_of_append h hnodup hkept (htriples t List.mem_cons_self) happend
      exact ih (fun u hu => htriples u (List.mem_cons_of_mem t hu)) rfl hadded hrest

/-- The triples of a chain are taken one after the other. -/
theorem takeAll_of_links {kept triples : List Triple}
    (h : Links vars ((kept ++ triples).map Triple.ends))
    (hnodup : ((kept ++ triples).map Triple.ends).Nodup) (tail : Option Node) (position : Nat) :
    ∃ tail', takeAll ⟨kept, tail, .nothing⟩ (triples.map .triple) position =
      .ok ⟨kept ++ triples, tail', .nothing⟩ := by
  induction triples generalizing kept tail position with
  | nil => exact ⟨tail, by rw [List.append_nil]; rfl⟩
  | cons t rest ih =>
      have hsplit : kept ++ t :: rest = (kept ++ [t]) ++ rest := by simp
      have hmerge : merge kept [t] = kept ++ [t] := by
        rw [hsplit, List.map_append] at hnodup
        exact merge_eq_append (List.nodup_append.mp hnodup).1
      have happend : append kept [t] position = .ok (kept ++ [t]) := by
        rcases List.eq_nil_or_concat' kept with rfl | ⟨init, last, rfl⟩
        · rfl
        · simp only [List.append_assoc, List.map_append, List.map_cons, List.cons_append,
            List.nil_append] at h
          rw [← hmerge]
          exact append_eq_ok List.getLast?_concat (List.mem_singleton_self t)
            (Triple.touches_iff_at.mpr h.exists_at) position
      rw [hsplit] at h hnodup ⊢
      obtain ⟨tail', hrest⟩ := ih h hnodup (fragmentTail [t]) (position + 1)
      refine ⟨tail', bind_eq_ok_iff.mpr ⟨⟨kept ++ [t], fragmentTail [t], .nothing⟩, ?_, hrest⟩⟩
      exact bind_eq_ok_iff.mpr ⟨kept ++ [t], happend, rfl⟩

end Stitch

/-! ## Walking along a chain -/

namespace Walk

theorem nodes_append (w : Walk) (r : Relationship) (d : Direction) (n : Node) :
    (w.append r d n).nodes = w.nodes ++ [n] := by
  simp [append, nodes]

theorem nodes_prepend (w : Walk) (n : Node) (r : Relationship) (d : Direction) :
    (w.prepend n r d).nodes = n :: w.nodes := rfl

/-- A walk ends at the last of its nodes. -/
theorem getLast?_nodes (w : Walk) : w.nodes.getLast? = some w.last := by
  obtain ⟨first, hops⟩ := w
  rw [nodes, last]
  induction hops generalizing first with
  | nil => rfl
  | cons hop rest ih =>
      rw [List.map_cons, List.getLast?_cons_cons]
      exact ih hop.node

/-- The variables of the nodes of a walk, in order. -/
def vars (w : Walk) : List String := w.nodes.map Node.var

/-- The edges of a walk are read in order. -/
theorem map_edge_read (w : Walk) : w.read.map Ends.edge = w.edges.map Relationship.var := by
  obtain ⟨first, hops⟩ := w
  rw [edges]
  induction hops generalizing first with
  | nil => rfl
  | cons hop rest ih =>
      rw [read_cons, List.map_cons, ih, List.map_cons, List.map_cons]
      rfl

/-- A walk over the variables and edges of a row, in its order or from its end. -/
def Along (w : Walk) (vars : List String) (row : List Ends) : Prop :=
  (w.vars = vars ∧ w.read = row) ∨ (w.vars = vars.reverse ∧ w.read = row.reverse)

theorem Along.of_reverse {w : Walk} {vars : List String} {row : List Ends}
    (h : w.Along vars.reverse row.reverse) : w.Along vars row := by
  rw [Along, List.reverse_reverse, List.reverse_reverse] at h
  exact Or.symm h

/-- A triple at the last variable of a walk lengthens it there, if it is not at the first one. -/
theorem extend?_last {w : Walk} {t : Triple} {v : String} (h : t.ends.Joins w.last.var v)
    (hfirst : ¬ t.ends.At w.first.var) :
    ∃ w', w.extend? t = some w' ∧ w'.vars = w.vars ++ [v] ∧ w'.read = w.read ++ [t.ends] := by
  have hsf : ¬ t.source.sameEndpoint w.first = true := fun h => hfirst (.inl (beq_iff_eq.mp h))
  have htf : ¬ t.target.sameEndpoint w.first = true := fun h => hfirst (.inr (beq_iff_eq.mp h))
  have hvars : ∀ {r d n}, (w.append r d n).vars = w.vars ++ [n.var] := by
    intro r d n
    rw [vars, nodes_append, List.map_append, List.map_singleton, vars]
  by_cases hsl : t.source.sameEndpoint w.last = true
  · have hsource : t.source.var = w.last.var := beq_iff_eq.mp hsl
    have htarget : t.target.var = v := by
      rcases h with ⟨-, htarget⟩ | ⟨hv, htarget⟩
      · exact htarget
      · exact htarget.trans (hsource.symm.trans hv)
    refine ⟨w.append t.edge .right t.target, by rw [extend?, if_neg hsf, if_pos hsl], ?_, ?_⟩
    · rw [hvars, htarget]
    · rw [read_append, Direction.ends, ← hsource]
      rfl
  · obtain ⟨hv, htarget⟩ := h.resolve_left fun h => hsl (beq_iff_eq.mpr h.1)
    have htl : t.target.sameEndpoint w.last = true := beq_iff_eq.mpr htarget
    refine ⟨w.append t.edge .left t.source, ?_, ?_, ?_⟩
    · rw [extend?, if_neg hsf, if_neg hsl, if_neg htf, if_pos htl]
    · rw [hvars]
      exact congrArg (w.vars ++ [·]) hv
    · rw [read_append, Direction.ends, var_eq_of_sameEndpoint htl]
      rfl

/-- A triple at the first variable of a walk lengthens it there, if it is not at the last one. -/
theorem extend?_first {w : Walk} {t : Triple} {v : String} (h : t.ends.Joins w.first.var v)
    (hlast : ¬ t.ends.At w.last.var) :
    ∃ w', w.extend? t = some w' ∧ w'.vars = v :: w.vars ∧ w'.read = t.ends :: w.read := by
  have hsl : ¬ t.source.sameEndpoint w.last = true := fun h => hlast (.inl (beq_iff_eq.mp h))
  by_cases hsf : t.source.sameEndpoint w.first = true
  · have hsource : t.source.var = w.first.var := beq_iff_eq.mp hsf
    have htarget : t.target.var = v := by
      rcases h with ⟨-, htarget⟩ | ⟨hv, htarget⟩
      · exact htarget
      · exact htarget.trans (hsource.symm.trans hv)
    refine ⟨w.prepend t.target t.edge .left, by rw [extend?, if_pos hsf], ?_, ?_⟩
    · rw [vars, nodes_prepend, List.map_cons, htarget, vars]
    · rw [read_prepend, Direction.ends, ← hsource]
      rfl
  · obtain ⟨hv, htarget⟩ := h.resolve_left fun h => hsf (beq_iff_eq.mpr h.1)
    have htf : t.target.sameEndpoint w.first = true := beq_iff_eq.mpr htarget
    refine ⟨w.prepend t.source t.edge .right, ?_, ?_, ?_⟩
    · rw [extend?, if_neg hsf, if_neg hsl, if_pos htf]
    · rw [vars, nodes_prepend, List.map_cons, vars]
      exact congrArg (· :: w.vars) hv
    · rw [read_prepend, Direction.ends, var_eq_of_sameEndpoint htf]
      rfl

/-- A walk along a row is lengthened by the next triple of the row. -/
theorem Along.extend {w : Walk} {x : String} {before : List String} {v u : String}
    {row : List Ends} {t : Triple} (h : w.Along (x :: before ++ [v]) row)
    (hnodup : (x :: before ++ [v, u]).Nodup) (ht : t.ends.Joins v u) :
    ∃ w', w.extend? t = some w' ∧ w'.Along (x :: before ++ [v, u]) (row ++ [t.ends]) := by
  -- the triple is not at `x`, where the walk ends on the other side
  have hx : ¬ t.ends.At x := by
    rw [ht.at_iff]
    simp only [List.cons_append, List.nodup_cons, List.mem_append, List.mem_cons] at hnodup
    tauto
  have hfirst : w.vars.head? = some w.first.var := rfl
  have hlast : w.vars.getLast? = some w.last.var := by
    rw [vars, List.getLast?_map, getLast?_nodes, Option.map_some]
  rcases h with ⟨hvars, hread⟩ | ⟨hvars, hread⟩
  · rw [hvars, List.cons_append, List.head?_cons] at hfirst
    rw [hvars, List.getLast?_concat] at hlast
    rw [Option.some.inj hfirst] at hx
    rw [Option.some.inj hlast] at ht
    obtain ⟨w', hextend, hvars', hread'⟩ := extend?_last ht hx
    refine ⟨w', hextend, .inl ⟨?_, ?_⟩⟩
    · rw [hvars', hvars, List.append_assoc]
      rfl
    · rw [hread', hread]
  · rw [hvars, List.reverse_append, List.reverse_singleton, List.singleton_append,
      List.head?_cons] at hfirst
    rw [hvars, List.getLast?_reverse, List.cons_append, List.head?_cons] at hlast
    rw [Option.some.inj hlast] at hx
    rw [Option.some.inj hfirst] at ht
    obtain ⟨w', hextend, hvars', hread'⟩ := extend?_first ht hx
    refine ⟨w', hextend, .inr ⟨?_, ?_⟩⟩
    · rw [hvars', hvars]
      simp
    · rw [hread', hread]
      simp

/-- A triple is a walk along itself. -/
theorem along_ofTriple {t : Triple} {v u : String} (h : t.ends.Joins v u) :
    (ofTriple t).Along [v, u] [t.ends] := by
  rw [Along, read_ofTriple]
  rcases h with ⟨rfl, rfl⟩ | ⟨rfl, rfl⟩
  · exact .inl ⟨rfl, rfl⟩
  · exact .inr ⟨rfl, rfl⟩

/-- A walk along the beginning of a row is lengthened along the whole row. -/
theorem Along.gather {w : Walk} {x : String} {before : List String} {v : String}
    {after : List String} {row : List Ends} {triples : List Triple}
    (h : w.Along (x :: before ++ [v]) row) (hlinks : Links (v :: after) (triples.map Triple.ends))
    (hnodup : (x :: before ++ v :: after).Nodup) :
    ∃ w', Walk.gather w triples = [w'] ∧
      w'.Along (x :: before ++ v :: after) (row ++ triples.map Triple.ends) := by
  induction triples generalizing w before v after row with
  | nil =>
      cases hlinks
      exact ⟨w, rfl, by rwa [List.map_nil, List.append_nil]⟩
  | cons t rest ih =>
      rw [List.map_cons] at hlinks ⊢
      cases hlinks with
      | @cons _ u after _ _ hjoins hrest =>
          have hvars : x :: before ++ v :: u :: after = x :: (before ++ [v]) ++ u :: after := by
            simp
          have hnodup' : (x :: before ++ [v, u]).Nodup :=
            hnodup.sublist (by simp)
          obtain ⟨w', hextend, hw'⟩ := h.extend hnodup' hjoins
          rw [show x :: before ++ [v, u] = x :: (before ++ [v]) ++ [u] by simp] at hw'
          rw [hvars] at hnodup ⊢
          obtain ⟨w'', hgather, hw''⟩ := ih hw' hrest hnodup
          refine ⟨w'', by rw [Walk.gather, hextend]; exact hgather, ?_⟩
          rwa [List.append_assoc, List.singleton_append] at hw''

end Walk

/-- Triples in a row are written as one walk along it. -/
theorem Path.walks_of_links {vars : List String} {g : Path}
    (h : Links vars (g.triples.map Triple.ends)) (hnodup : vars.Nodup) (hne : g.triples ≠ []) :
    ∃ w, g.walks = [w] ∧ w.Along vars (g.triples.map Triple.ends) := by
  obtain ⟨t, rest, htriples⟩ := List.exists_cons_of_ne_nil hne
  rw [walks, htriples]
  rw [htriples, List.map_cons] at h
  cases h with
  | @cons v u after _ _ hjoins hrest =>
      have halong : (Walk.ofTriple t).Along (v :: [] ++ [u]) [t.ends] := Walk.along_ofTriple hjoins
      exact halong.gather hrest hnodup

/-! ## Chains are written as one walk -/

/-- Triples that join pairwise different variables in a row, by different edges. -/
structure Chained (vars : List String) (triples : List Triple) : Prop where
  links : Links vars (triples.map Triple.ends)
  nodup : vars.Nodup
  nodup_edges : (triples.map fun t => t.edge.var).Nodup
  ne_nil : triples ≠ []

/-- A chain from its end. -/
theorem Chained.reverse {vars : List String} {triples : List Triple} (h : Chained vars triples) :
    Chained vars.reverse triples.reverse where
  links := by
    rw [List.map_reverse]
    exact h.links.reverse
  nodup := List.nodup_reverse.mpr h.nodup
  nodup_edges := by
    rw [List.map_reverse]
    exact List.nodup_reverse.mpr h.nodup_edges
  ne_nil := List.reverse_eq_nil_iff.not.mpr h.ne_nil

/-- Triples alone supply themselves. -/
theorem Supplies.eq_triples {seen : List Node} {triples supplied : List Triple}
    (h : Supplies seen (triples.map .triple) supplied) : supplied = triples := by
  induction triples generalizing seen supplied with
  | nil =>
      cases h
      rfl
  | cons t rest ih =>
      cases h with
      | entity _ hrest => rw [ih hrest, Entity.triples, List.singleton_append]

namespace Path

/-- A chain is stitched as it is listed. -/
theorem ofTriples_chained {vars : List String} {chain : List Triple} (h : Chained vars chain)
    (s : Numbering) : Path.ofTriples s chain = .ok (s.path chain) := by
  have hlinks : Links vars (([] ++ chain).map Triple.ends) := h.links
  obtain ⟨tail, htake⟩ := Stitch.takeAll_of_links hlinks (Triple.nodup_ends h.nodup_edges) none 1
  refine ofEntities_eq_ok_iff.mpr ⟨chain, ?_, rfl⟩
  exact bind_eq_ok_iff.mpr ⟨_, htake, Stitch.finish_eq_ok_iff.mpr ⟨rfl, rfl, h.ne_nil⟩⟩

/-- Triples that are those of a chain, listed in any order and as often as may be, are stitched into
the chain in one of its directions, if they are stitched. -/
theorem ends_of_ofTriples {vars : List String} {chain triples : List Triple}
    (h : Chained vars chain)
    (hsame : ∀ e, e ∈ triples.map Triple.ends ↔ e ∈ chain.map Triple.ends)
    {s s' : Numbering} {g : Path} (hstitched : Path.ofTriples s triples = .ok (g, s')) :
    g.triples = Stitch.merge [] triples ∧ g.triples ≠ [] ∧
      (g.triples.map Triple.ends = chain.map Triple.ends ∨
        g.triples.map Triple.ends = (chain.map Triple.ends).reverse) := by
  obtain ⟨kept, hstitch, hpath⟩ := ofEntities_eq_ok_iff.mp hstitched
  obtain ⟨rfl, -⟩ := Prod.mk.inj hpath
  obtain ⟨hne, supplied, hsupplies, hmerge⟩ := supplies_of_stitch hstitch
  rw [hsupplies.eq_triples] at hmerge
  refine ⟨hmerge, hne, ?_⟩
  obtain ⟨stitched, htake, hfinish⟩ := bind_eq_ok_iff.mp hstitch
  obtain ⟨-, rfl, -⟩ := Stitch.finish_eq_ok_iff.mp hfinish
  have hruns : Runs (chain.map Triple.ends) (stitched.triples.map Triple.ends) :=
    Stitch.runs_of_takeAll (s := {}) h.links h.nodup
      (fun t ht => (hsame _).mp (List.mem_map_of_mem ht)) rfl (.inl List.nil_infix) htake
  refine hruns.eq_or_eq_reverse (Triple.nodup_ends h.nodup_edges) fun e he => ?_
  rw [hmerge, Stitch.mem_ends_merge]
  exact .inr ((hsame e).mpr he)

/-- A chain is written as one walk. Its triples are stitched from the first to the last and from the
last to the first. Whenever triples that are those of the chain are stitched, in whatever order and
however often they are listed, the path is one walk over all variables of the chain in a row, from
one end or from the other, and so over each node and each edge once. -/
theorem walk_of_chain {s : Numbering} {vars : List String} {chain : List Triple}
    (h : Chained vars chain) :
    Path.ofTriples s chain = .ok (s.path chain) ∧
    Path.ofTriples s chain.reverse = .ok (s.path chain.reverse) ∧
    ∀ triples g s', (∀ e, e ∈ triples.map Triple.ends ↔ e ∈ chain.map Triple.ends) →
      Path.ofTriples s triples = .ok (g, s') →
      ∃ w, g.walks = [w] ∧ g.pattern = w.signs.flatMap Sign.phrase ∧
        w.Along vars (chain.map Triple.ends) ∧ w.vars.Nodup ∧
        (w.edges.map Relationship.var).Nodup ∧ w.nodes ⊆ triples.flatMap Triple.nodes := by
  refine ⟨ofTriples_chained h s, ofTriples_chained h.reverse s, ?_⟩
  intro triples g s' hsame hstitched
  obtain ⟨hmerge, hne, hends⟩ := ends_of_ofTriples h hsame hstitched
  have hwalk : ∃ w, g.walks = [w] ∧ w.Along vars (chain.map Triple.ends) := by
    rcases hends with hends | hends
    · rw [← hends]
      exact walks_of_links (hends ▸ h.links) h.nodup hne
    · obtain ⟨w, hw, halong⟩ := walks_of_links (hends ▸ h.links.reverse)
        (List.nodup_reverse.mpr h.nodup) hne
      rw [hends] at halong
      exact ⟨w, hw, halong.of_reverse⟩
  obtain ⟨w, hw, halong⟩ := hwalk
  refine ⟨w, hw, ?_, halong, ?_, ?_, ?_⟩
  · rw [pattern, hw, List.map_singleton, w.pattern_eq]
    simp [Phrase.joined, List.intercalate]
  · rcases halong with ⟨hvars, -⟩ | ⟨hvars, -⟩ <;> rw [hvars]
    · exact h.nodup
    · exact List.nodup_reverse.mpr h.nodup
  · have hedges : ((chain.map Triple.ends).map Ends.edge).Nodup := by
      rw [List.map_map]
      exact h.nodup_edges
    rw [← w.map_edge_read]
    rcases halong with ⟨-, hread⟩ | ⟨-, hread⟩ <;> rw [hread]
    · exact hedges
    · rw [List.map_reverse]
      exact List.nodup_reverse.mpr hedges
  · have hnodes := (standsFor_walks g).subset
    rw [hw, List.flatMap_singleton] at hnodes
    have htriples : g.triples ⊆ triples := by
      rw [hmerge]
      exact (Stitch.sublist_merge [] triples).subset
    intro n hn
    obtain ⟨t, ht, hnt⟩ := List.mem_flatMap.mp (hnodes hn)
    exact List.mem_flatMap.mpr ⟨t, htriples ht, hnt⟩

/-- Three triples in a row, the second one against the others. -/
def mixedRow : List Triple :=
  let a : Node := { var := "n0", label := some "A" }
  let b : Node := { var := "n1", label := some "B" }
  let c : Node := { var := "n2", label := some "C" }
  let d : Node := { var := "n3", label := some "D" }
  [⟨a, { var := "r0", kind := some "q" }, b⟩, ⟨c, { var := "r1", kind := some "q" }, b⟩,
    ⟨c, { var := "r2", kind := some "q" }, d⟩]

/-- The three from the last to the first, with repetitions. -/
def mixedListing : List Triple := [2, 2, 1, 2, 0, 1].filterMap (mixedRow[·]?)

/-- The walk of the three. -/
theorem walk_of_chain_mixed :
    Chained ["n0", "n1", "n2", "n3"] mixedRow ∧
      ∃ g s', Path.ofTriples .start mixedListing = .ok (g, s') ∧
        ∃ w, g.walks = [w] ∧ w.Along ["n0", "n1", "n2", "n3"] (mixedRow.map Triple.ends) := by
  have hchained : Chained ["n0", "n1", "n2", "n3"] mixedRow := {
    links := .cons (.inl ⟨rfl, rfl⟩) (.cons (.inr ⟨rfl, rfl⟩) (.cons (.inl ⟨rfl, rfl⟩) (.nil _)))
    nodup := by decide
    nodup_edges := by decide
    ne_nil := List.cons_ne_nil _ _ }
  have hlisting : ∀ e ∈ mixedListing.map Triple.ends, e ∈ mixedRow.map Triple.ends := by decide
  have hrow : ∀ e ∈ mixedRow.map Triple.ends, e ∈ mixedListing.map Triple.ends := by decide
  have hstitched : Path.ofTriples .start mixedListing = .ok (_, _) := rfl
  obtain ⟨w, hw, -, halong, -⟩ :=
    (walk_of_chain hchained).2.2 _ _ _ (fun e => ⟨hlisting e, hrow e⟩) hstitched
  exact ⟨hchained, _, _, hstitched, w, hw, halong⟩

end Path

end CypherRoutes
