import Mathlib.Data.Finsupp.Weight
import Mathlib.Data.Sym.Sym2
import KvPaxos.Graph.Graph

/-!
# What a graph stands for

A graph is taken as a finite set of vertices and two finitely supported weights, one on
vertices and one on unordered pairs. `Weighted` relates the five fields to them: an edge is
there, in both rows, exactly where its weight is not zero, and a vertex outside the set
has no row. Weights add up, so the mutators of the graph become additions of single
weights; the one that is delicate is `Weighted.drop`, which takes one off an edge whose
second vertex may have been removed with its row.
-/

namespace KvPaxos

open Lib Finsupp

namespace Rows

variable {rows : Rows} {a b c d w : Int}

theorem row_insert (r : UnorderedMap Int Int) :
    row (Finmap.insert a r rows) c = if c = a then r else row rows c := by
  unfold row
  rw [UnorderedMap.lookup_insert_ite]
  split <;> rfl

theorem edge_eq_of_lookup {o : Option Int} (h : (row rows a).lookup b = o) : edge rows a b = o.getD 0 := by
  rw [edge, h]

/-- `rows[a][b] = w` and `rows[b][a] = w`. -/
theorem lookup_store (ne : a ≠ b) :
    (row ((rows.setEdge a b w).setEdge b a w) c).lookup d =
      if s(c, d) = s(a, b) then some w else (row rows c).lookup d := by
  have one : row (rows.setEdge a b w) b = row rows b := by
    rw [setEdge, row_insert, if_neg (Ne.symm ne)]
  rw [setEdge, row_insert, one]
  by_cases cb : c = b
  · subst cb
    rw [if_pos rfl, UnorderedMap.lookup_insert_ite]
    refine if_congr ?_ rfl rfl
    simp only [Sym2.eq_iff, true_and]
    constructor
    · exact Or.inr
    · rintro (⟨h, -⟩ | h)
      · exact absurd h.symm ne
      · exact h
  · rw [if_neg cb, setEdge, row_insert]
    by_cases ca : c = a
    · subst ca
      rw [if_pos rfl, UnorderedMap.lookup_insert_ite]
      refine if_congr ?_ rfl rfl
      simp [cb]
    · rw [if_neg ca, if_neg]
      simp [ca, cb]

theorem mem_store (v : Int) : c ∈ (rows.setEdge a b v).setEdge b a w ↔ c = b ∨ c = a ∨ c ∈ rows := by
  simp only [setEdge, Finmap.mem_insert]

/-- `rows[b].erase(a)` and `rows[a].erase(b)`. -/
theorem lookup_unstore (ne : a ≠ b) : (row ((rows.eraseEdge b a).eraseEdge a b) c).lookup d =
    if s(c, d) = s(a, b) then none else (row rows c).lookup d := by
  have one : row (rows.eraseEdge b a) a = row rows a := by
    rw [eraseEdge, row_insert, if_neg ne]
  rw [eraseEdge, row_insert, one]
  by_cases ca : c = a
  · subst ca
    rw [if_pos rfl, UnorderedMap.lookup_erase_ite]
    refine if_congr ?_ rfl rfl
    simp only [Sym2.eq_iff, true_and]
    constructor
    · exact Or.inl
    · rintro (h | ⟨h, -⟩)
      · exact h
      · exact absurd h ne
  · rw [if_neg ca, eraseEdge, row_insert]
    by_cases cb : c = b
    · subst cb
      rw [if_pos rfl, UnorderedMap.lookup_erase_ite]
      refine if_congr ?_ rfl rfl
      simp [ca]
    · rw [if_neg cb, if_neg]
      simp [ca, cb]

theorem mem_unstore : c ∈ (rows.eraseEdge b a).eraseEdge a b ↔ c = a ∨ c = b ∨ c ∈ rows := by
  simp only [eraseEdge, Finmap.mem_insert]

end Rows

namespace Graph

variable {g : Graph} {vs : Finset Int} {vw : Int →₀ ℤ} {ew : Sym2 Int →₀ ℤ} {a b : Int}

/-- The graph has the vertices `vs` with weights `vw` and the edges where `ew` is not zero. -/
structure Weighted (g : Graph) (vs : Finset Int) (vw : Int →₀ ℤ) (ew : Sym2 Int →₀ ℤ) : Prop where
  vertex : ∀ a, g.vertexWeight.lookup a = if a ∈ vs then some (vw a) else none
  rows : ∀ a, a ∈ g.edgesWeight ↔ a ∈ vs
  entry : ∀ a ∈ vs, ∀ b, (g.edgesWeight.row a).lookup b = if ew s(a, b) = 0 then none else some (ew s(a, b))
  support : vw.support ⊆ vs
  loopless : ∀ a, ew s(a, a) = 0
  edges : g.nEdges = ew.support.card
  totalVertex : g.totalVertexWeight = vw.degree
  totalEdges : g.totalEdgesWeight = ew.degree

theorem weighted_empty : Weighted {} ∅ 0 0 := by
  constructor
  case rows => exact fun a => iff_of_false Finmap.notMem_empty (Finset.notMem_empty a)
  all_goals simp

namespace Weighted

theorem mem_vertex (h : Weighted g vs vw ew) : a ∈ g.vertexWeight ↔ a ∈ vs := by
  rw [← Finmap.lookup_isSome, h.vertex]
  split <;> simp_all

theorem weightAt (h : Weighted g vs vw ew) : g.weightAt a = vw a := by
  unfold Graph.weightAt
  rw [h.vertex]
  split
  · rfl
  · rename_i out
    exact (notMem_support_iff.mp fun mem => out (h.support mem)).symm

/-- A vertex that is not there has weight zero. -/
theorem zero_of_notMem (h : Weighted g vs vw ew) (out : a ∉ vs) : vw a = 0 :=
  notMem_support_iff.mp fun mem => out (h.support mem)

theorem row_of_notMem (h : Weighted g vs vw ew) (out : a ∉ vs) : g.edgesWeight.row a = ∅ := by
  unfold Rows.row
  rw [Finmap.lookup_eq_none.mpr fun mem => out ((h.rows a).mp mem)]
  rfl

theorem edge (h : Weighted g vs vw ew) (mem : a ∈ vs) (b : Int) : g.edgesWeight.edge a b = ew s(a, b) := by
  rw [Rows.edge_eq_of_lookup (h.entry a mem b)]
  split <;> simp_all

/-- Adding a vertex, which must have no edges yet if it is new. -/
theorem addVertice (h : Weighted g vs vw ew) (fresh : a ∉ vs → ∀ b, ew s(a, b) = 0) :
    Weighted (g.addVertice a) (insert a vs) vw ew := by
  unfold Graph.addVertice
  by_cases mem : a ∈ vs
  · rw [if_pos (h.mem_vertex.mpr mem), Finset.insert_eq_of_mem mem]
    exact h
  · rw [if_neg fun there => mem (h.mem_vertex.mp there)]
    refine ⟨fun c => ?_, fun c => ?_, fun c hc d => ?_, fun c hc => Finset.mem_insert_of_mem (h.support hc),
      h.loopless, h.edges, h.totalVertex, h.totalEdges⟩
    · rw [UnorderedMap.lookup_insert_ite, h.vertex]
      by_cases eq : c = a
      · subst eq
        simp [h.zero_of_notMem mem]
      · simp [eq]
    · rw [Finmap.mem_insert, h.rows, Finset.mem_insert]
    · show (Rows.row (Finmap.insert a ∅ g.edgesWeight) c).lookup d = _
      rw [Rows.row_insert]
      by_cases eq : c = a
      · subst eq
        simp [fresh mem d]
      · rw [if_neg eq]
        exact h.entry c (Finset.mem_of_mem_insert_of_ne hc eq) d

/-- Counting a vertex. -/
theorem incrementVerticeWeight (h : Weighted g vs vw ew) (mem : a ∈ vs) (w : Int) :
    Weighted (g.incrementVerticeWeight a w) vs (vw + single a w) ew := by
  refine ⟨fun c => ?_, h.rows, h.entry, fun c hc => ?_, h.loopless, h.edges, ?_, h.totalEdges⟩
  · simp only [Graph.incrementVerticeWeight, UnorderedMap.lookup_insert_ite, h.vertex, h.weightAt]
    by_cases eq : c = a
    · subst eq
      simp [mem]
    · simp [eq]
  · by_contra out
    have ne : c ≠ a := fun eq => out (eq ▸ mem)
    rw [mem_support_iff, Finsupp.add_apply, single_eq_of_ne ne, h.zero_of_notMem out] at hc
    exact hc rfl
  · simp only [Graph.incrementVerticeWeight, h.totalVertex, map_add, degree_single]

/-- Removing a vertex whose weight has come to zero. -/
theorem removeWeightlessVertice (h : Weighted g vs vw ew) :
    Weighted (g.removeWeightlessVertice a) (if vw a = 0 then vs.erase a else vs) vw ew := by
  unfold Graph.removeWeightlessVertice
  rw [h.weightAt]
  split
  · rename_i zero
    refine ⟨fun c => ?_, fun c => ?_, fun c hc d => ?_, fun c hc => ?_, h.loopless, h.edges, h.totalVertex,
      h.totalEdges⟩
    · rw [UnorderedMap.lookup_erase_ite, h.vertex]
      by_cases eq : c = a <;> simp [eq]
    · rw [Finmap.mem_erase, h.rows, Finset.mem_erase]
    · rw [Finset.mem_erase] at hc
      have same : Rows.row (g.edgesWeight.erase a) c = g.edgesWeight.row c := by
        unfold Rows.row
        rw [UnorderedMap.lookup_erase_ite, if_neg hc.1]
      rw [same]
      exact h.entry c hc.2 d
    · refine Finset.mem_erase.mpr ⟨?_, h.support hc⟩
      rintro rfl
      exact mem_support_iff.mp hc zero
  · exact h

/-- The support of edge weights after one more on `e`. -/
theorem card_support_add (e : Sym2 Int) (nonneg : 0 ≤ ew e) : ((ew + single e 1).support.card : Int) =
    ew.support.card + if ew e = 0 then 1 else 0 := by
  have support : (ew + single e 1).support = insert e ew.support := by
    ext f
    by_cases eq : f = e
    · subst eq
      simp
      omega
    · simp [eq, single_eq_of_ne eq]
  rw [support]
  split
  · rename_i zero
    rw [Finset.card_insert_of_notMem (notMem_support_iff.mpr zero)]
    exact Int.natCast_succ _
  · rename_i some
    rw [Finset.insert_eq_of_mem (mem_support_iff.mpr some)]
    exact (Int.add_zero _).symm

theorem card_support_sub (e : Sym2 Int) (pos : 1 ≤ ew e) : ((ew + single e (-1)).support.card : Int) =
    ew.support.card - if ew e = 1 then 1 else 0 := by
  have back := @card_support_add (ew + single e (-1)) e (by simp; omega)
  rw [add_assoc, ← single_add, Int.add_left_neg, single_zero, add_zero] at back
  rw [back]
  have value : (ew + single e (-1) : Sym2 Int →₀ ℤ) e = ew e - 1 := by
    rw [Finsupp.add_apply, single_eq_same]
    rfl
  rw [value]
  by_cases one : ew e = 1
  · simp [one]
  · rw [if_neg (by omega), if_neg one]
    omega

/-- `increment_edge_weight` where both rows hold the same weight. -/
theorem rows_incrementEdgeWeight (ne : a ≠ b) (same : g.edgesWeight.edge b a = g.edgesWeight.edge a b) (v : Int) :
    (g.incrementEdgeWeight a b v).edgesWeight = (g.edgesWeight.setEdge a b (g.edgesWeight.edge a b + v)).setEdge
      b a (g.edgesWeight.edge a b + v) := by
  have other : Rows.edge (g.edgesWeight.setEdge a b (g.edgesWeight.edge a b + v)) b a = g.edgesWeight.edge b a := by
    unfold Rows.edge Rows.setEdge
    rw [Rows.row_insert, if_neg (Ne.symm ne)]
  simp only [Graph.incrementEdgeWeight, other, same]

/-- What `add_edge` leaves: the edge is there, with its old weight or weight zero. -/
theorem addEdge_spec (h : Weighted g vs vw ew) (ma : a ∈ vs) (mb : b ∈ vs) (ne : a ≠ b) :
    (∀ c d, ((g.addEdge a b).edgesWeight.row c).lookup d =
      if s(c, d) = s(a, b) then some (ew s(a, b)) else (g.edgesWeight.row c).lookup d) ∧
    (∀ c, c ∈ (g.addEdge a b).edgesWeight ↔ c ∈ vs) ∧
    (g.addEdge a b).nEdges = g.nEdges + (if ew s(a, b) = 0 then 1 else 0) ∧
    (g.addEdge a b).vertexWeight = g.vertexWeight ∧
    (g.addEdge a b).totalVertexWeight = g.totalVertexWeight ∧
    (g.addEdge a b).totalEdgesWeight = g.totalEdgesWeight := by
  have there : b ∈ g.edgesWeight.row a ↔ ew s(a, b) ≠ 0 := by
    rw [← Finmap.lookup_isSome, h.entry a ma b]
    split <;> simp_all
  unfold Graph.addEdge
  by_cases new : ew s(a, b) = 0
  · rw [if_neg fun mem => there.mp mem new, if_pos new, new]
    refine ⟨fun c d => Rows.lookup_store ne, fun c => ?_, rfl, rfl, rfl, rfl⟩
    rw [Rows.mem_store, h.rows]
    constructor
    · rintro (rfl | rfl | mem)
      · exact mb
      · exact ma
      · exact mem
    · exact fun mem => Or.inr (Or.inr mem)
  · rw [if_pos (there.mpr new), if_neg new]
    refine ⟨fun c d => ?_, h.rows, (Int.add_zero _).symm, rfl, rfl, rfl⟩
    split
    · rename_i eq
      rcases Sym2.eq_iff.mp eq with ⟨rfl, rfl⟩ | ⟨rfl, rfl⟩
      · rw [h.entry _ ma, if_neg new]
      · have flip : ew s(c, d) = ew s(d, c) := by rw [Sym2.eq_swap]
        rw [h.entry _ mb, flip, if_neg new]
    · rfl

/-- Counting an edge, new or not. -/
theorem link (h : Weighted g vs vw ew) (ma : a ∈ vs) (mb : b ∈ vs) (ne : a ≠ b) (nonneg : 0 ≤ ew s(a, b)) :
    Weighted ((g.addEdge a b).incrementEdgeWeight a b 1) vs vw (ew + single s(a, b) 1) := by
  obtain ⟨entry, rows, count, vertex, totalV, totalE⟩ := h.addEdge_spec ma mb ne
  have edgeA : (g.addEdge a b).edgesWeight.edge a b = ew s(a, b) := by
    rw [Rows.edge_eq_of_lookup (entry a b), if_pos rfl]
    rfl
  have edgeB : (g.addEdge a b).edgesWeight.edge b a = ew s(a, b) := by
    rw [Rows.edge_eq_of_lookup (entry b a), if_pos Sym2.eq_swap]
    rfl
  have stored := rows_incrementEdgeWeight ne (edgeB.trans edgeA.symm) 1
  rw [edgeA] at stored
  refine ⟨fun c => ?_, fun c => ?_, fun c hc d => ?_, h.support, fun c => ?_, ?_, ?_, ?_⟩
  · rw [show ((g.addEdge a b).incrementEdgeWeight a b 1).vertexWeight = g.vertexWeight from vertex]
    exact h.vertex c
  · rw [stored, Rows.mem_store, rows]
    constructor
    · rintro (rfl | rfl | mem)
      · exact mb
      · exact ma
      · exact mem
    · exact fun mem => Or.inr (Or.inr mem)
  · rw [stored, Rows.lookup_store ne, entry, Finsupp.add_apply]
    by_cases eq : s(c, d) = s(a, b)
    · rw [if_pos eq, eq, single_eq_same, if_neg (by omega)]
    · rw [if_neg eq, if_neg eq, single_eq_of_ne eq, add_zero]
      exact h.entry c hc d
  · have loop : s(c, c) ≠ s(a, b) := by
      intro eq
      rcases Sym2.eq_iff.mp eq with ⟨rfl, rfl⟩ | ⟨rfl, rfl⟩ <;> exact ne rfl
    rw [Finsupp.add_apply, single_eq_of_ne loop, h.loopless, add_zero]
  · rw [show ((g.addEdge a b).incrementEdgeWeight a b 1).nEdges = (g.addEdge a b).nEdges from rfl, count, h.edges,
      card_support_add _ nonneg]
  · rw [show ((g.addEdge a b).incrementEdgeWeight a b 1).totalVertexWeight = g.totalVertexWeight from totalV]
    exact h.totalVertex
  · rw [show ((g.addEdge a b).incrementEdgeWeight a b 1).totalEdgesWeight = g.totalEdgesWeight + 1 from
      congrArg (· + 1) totalE, h.totalEdges, map_add, degree_single]

/-- The rows after the decrement: the row of `b` is there again, and only the edge has changed. -/
theorem decrement_spec (h : Weighted g vs vw ew) (ma : a ∈ vs) (ne : a ≠ b) :
    (g.incrementEdgeWeight a b (-1)).edgesWeight.edge a b = ew s(a, b) - 1 ∧
    (∀ c, c ∈ (g.incrementEdgeWeight a b (-1)).edgesWeight ↔ c = b ∨ c ∈ vs) ∧
    ∀ c d, s(c, d) ≠ s(a, b) →
      ((g.incrementEdgeWeight a b (-1)).edgesWeight.row c).lookup d = (g.edgesWeight.row c).lookup d := by
  refine ⟨?_, fun c => ?_, fun c d far => ?_⟩
  · unfold Graph.incrementEdgeWeight Rows.edge
    dsimp only
    rw [Rows.setEdge, Rows.row_insert, if_neg ne, Rows.setEdge, Rows.row_insert, if_pos rfl,
      UnorderedMap.lookup_insert_ite, if_pos rfl]
    exact congrArg (· + -1) (h.edge ma b)
  · unfold Graph.incrementEdgeWeight
    rw [Rows.mem_store, h.rows]
    refine or_congr_right (or_iff_right_of_imp ?_)
    rintro rfl
    exact ma
  · unfold Graph.incrementEdgeWeight
    dsimp only
    rw [Rows.setEdge, Rows.row_insert]
    by_cases cb : c = b
    · subst cb
      have da : d ≠ a := fun eq => far (by rw [eq, Sym2.eq_swap])
      rw [if_pos rfl, UnorderedMap.lookup_insert_ite, if_neg da, Rows.setEdge, Rows.row_insert,
        if_neg (Ne.symm ne)]
    · rw [if_neg cb, Rows.setEdge, Rows.row_insert]
      by_cases ca : c = a
      · subst ca
        have db : d ≠ b := fun eq => far (by rw [eq])
        rw [if_pos rfl, UnorderedMap.lookup_insert_ite, if_neg db]
      · rw [if_neg ca]

/-- What the decrement and `remove_weightless_edge` leave. Where the edge has come to zero it is
gone in both rows; else the second vertex is still there, so that both rows have its new weight. -/
theorem dropEdge_spec (h : Weighted g vs vw ew) (ma : a ∈ vs) (ne : a ≠ b)
    (other : b ∈ vs ∨ ew s(a, b) = 1) :
    (∀ c ∈ vs, ∀ d, (((g.incrementEdgeWeight a b (-1)).removeWeightlessEdge a b).edgesWeight.row c).lookup d =
      if s(c, d) = s(a, b) then (if ew s(a, b) = 1 then none else some (ew s(a, b) - 1))
      else (g.edgesWeight.row c).lookup d) ∧
    (∀ c, c ∈ ((g.incrementEdgeWeight a b (-1)).removeWeightlessEdge a b).edgesWeight ↔ c = b ∨ c ∈ vs) ∧
    ((g.incrementEdgeWeight a b (-1)).removeWeightlessEdge a b).nEdges =
      g.nEdges - (if ew s(a, b) = 1 then 1 else 0) ∧
    ((g.incrementEdgeWeight a b (-1)).removeWeightlessEdge a b).vertexWeight = g.vertexWeight ∧
    ((g.incrementEdgeWeight a b (-1)).removeWeightlessEdge a b).totalVertexWeight = g.totalVertexWeight ∧
    ((g.incrementEdgeWeight a b (-1)).removeWeightlessEdge a b).totalEdgesWeight = g.totalEdgesWeight + -1 := by
  obtain ⟨first, member, others⟩ := h.decrement_spec ma ne
  unfold Graph.removeWeightlessEdge
  rw [first]
  by_cases one : ew s(a, b) = 1
  · rw [if_pos (by omega)]
    refine ⟨fun c hc d => ?_, fun c => ?_, ?_, rfl, rfl, rfl⟩
    · rw [Rows.lookup_unstore ne, if_pos one]
      split
      · rfl
      · rename_i far
        exact others c d far
    · rw [Rows.mem_unstore, member]
      constructor
      · rintro (rfl | rfl | mem)
        · exact Or.inr ma
        · exact Or.inl rfl
        · exact mem
      · exact fun mem => Or.inr (Or.inr mem)
    · show g.nEdges - 1 = _
      rw [if_pos one]
  · have mb : b ∈ vs := other.resolve_right one
    have flip : ew s(b, a) = ew s(a, b) := by rw [Sym2.eq_swap]
    have edgeA := h.edge ma b
    have edgeB := (h.edge mb a).trans flip
    rw [if_neg (by omega)]
    refine ⟨fun c hc d => ?_, member, ?_, rfl, rfl, rfl⟩
    · rw [rows_incrementEdgeWeight ne (edgeB.trans edgeA.symm), edgeA, Rows.lookup_store ne, if_neg one]
      rfl
    · show g.nEdges = _
      rw [if_neg one, Int.sub_zero]

/-- What `remove_weightless_vertice` leaves of a graph in which the row of `b` may have come back:
the vertices and rows of `vs`. -/
theorem dropVertice_spec {g' : Graph} (h : Weighted g vs vw ew) (same : g'.vertexWeight = g.vertexWeight)
    (rows : ∀ c, c ∈ g'.edgesWeight ↔ c = b ∨ c ∈ vs) (other : b ∈ vs ∧ vw b ≠ 0 ∨ b ∉ vs) :
    (∀ c, (g'.removeWeightlessVertice b).vertexWeight.lookup c = g.vertexWeight.lookup c) ∧
    (∀ c, c ∈ (g'.removeWeightlessVertice b).edgesWeight ↔ c ∈ vs) ∧
    (∀ c ∈ vs, (g'.removeWeightlessVertice b).edgesWeight.row c = g'.edgesWeight.row c) ∧
    (g'.removeWeightlessVertice b).nEdges = g'.nEdges ∧
    (g'.removeWeightlessVertice b).totalVertexWeight = g'.totalVertexWeight ∧
    (g'.removeWeightlessVertice b).totalEdgesWeight = g'.totalEdgesWeight := by
  have weight : g'.weightAt b = vw b := by
    unfold Graph.weightAt
    rw [same]
    exact h.weightAt
  unfold Graph.removeWeightlessVertice
  rw [weight]
  rcases other with ⟨mb, some⟩ | out
  · rw [if_neg some]
    refine ⟨fun c => by rw [same], fun c => ?_, fun c hc => rfl, rfl, rfl, rfl⟩
    rw [rows]
    refine or_iff_right_of_imp ?_
    rintro rfl
    exact mb
  · rw [if_pos (h.zero_of_notMem out)]
    refine ⟨fun c => ?_, fun c => ?_, fun c hc => ?_, rfl, rfl, rfl⟩
    · rw [UnorderedMap.lookup_erase_ite, same]
      split
      · rename_i eq
        rw [eq, h.vertex, if_neg out]
      · rfl
    · rw [Finmap.mem_erase, rows]
      constructor
      · rintro ⟨far, eq | mem⟩
        · exact absurd eq far
        · exact mem
      · exact fun mem => ⟨fun eq => out (eq ▸ mem), Or.inr mem⟩
    · unfold Rows.row
      have ne : c ≠ b := by
        rintro rfl
        exact out hc
      rw [UnorderedMap.lookup_erase_ite, if_neg ne]

/-- **Taking one off an edge** and dropping what has come to zero. The second vertex is either still
there, with a weight, or it has been removed with its row, and then the edge's weight was one: the
row that the decrement brings back is removed again. -/
theorem drop (h : Weighted g vs vw ew) (ma : a ∈ vs) (ne : a ≠ b) (pos : 1 ≤ ew s(a, b))
    (other : b ∈ vs ∧ vw b ≠ 0 ∨ b ∉ vs ∧ ew s(a, b) = 1) :
    Weighted (((g.incrementEdgeWeight a b (-1)).removeWeightlessEdge a b).removeWeightlessVertice b) vs vw
      (ew + single s(a, b) (-1)) := by
  obtain ⟨entry, rows, count, sameVertex, sameTotal, total⟩ :=
    h.dropEdge_spec ma ne (other.imp And.left And.right)
  obtain ⟨lookups, finalRows, finalRow, finalCount, finalV, finalE⟩ :=
    h.dropVertice_spec sameVertex rows (other.imp_right And.left)
  refine ⟨fun c => ?_, finalRows, fun c hc d => ?_, h.support, fun c => ?_, ?_, ?_, ?_⟩
  · rw [lookups]
    exact h.vertex c
  · rw [finalRow c hc, entry c hc d, Finsupp.add_apply]
    by_cases eq : s(c, d) = s(a, b)
    · rw [if_pos eq, eq, single_eq_same]
      refine if_congr ?_ rfl ?_
      · show ew s(a, b) = 1 ↔ ew s(a, b) + -1 = 0
        omega
      · rfl
    · rw [if_neg eq, single_eq_of_ne eq, add_zero]
      exact h.entry c hc d
  · have loop : s(c, c) ≠ s(a, b) := by
      intro eq
      rcases Sym2.eq_iff.mp eq with ⟨rfl, rfl⟩ | ⟨rfl, rfl⟩ <;> exact ne rfl
    rw [Finsupp.add_apply, single_eq_of_ne loop, h.loopless, add_zero]
  · rw [finalCount, count, h.edges, card_support_sub _ pos]
  · rw [finalV, sameTotal]
    exact h.totalVertex
  · rw [finalE, total, h.totalEdges, map_add, degree_single]

/-! ### Reading the fields -/

theorem row_iff (h : Weighted g vs vw ew) (a : Int) : a ∈ g.edgesWeight ↔ a ∈ g.vertexWeight :=
  (h.rows a).trans h.mem_vertex.symm

/-- Every row, where no edge leaves the vertices. -/
theorem lookup_row (h : Weighted g vs vw ew) (inside : ∀ a ∉ vs, ∀ b, ew s(a, b) = 0) (a b : Int) :
    (g.edgesWeight.row a).lookup b = if ew s(a, b) = 0 then none else some (ew s(a, b)) := by
  by_cases mem : a ∈ vs
  · exact h.entry a mem b
  · rw [h.row_of_notMem mem, if_pos (inside a mem b)]
    rfl

theorem symmetric (h : Weighted g vs vw ew) (inside : ∀ a ∉ vs, ∀ b, ew s(a, b) = 0) (a b : Int) :
    (g.edgesWeight.row a).lookup b = (g.edgesWeight.row b).lookup a := by
  rw [h.lookup_row inside, h.lookup_row inside, Sym2.eq_swap]

theorem mem_row (h : Weighted g vs vw ew) (inside : ∀ a ∉ vs, ∀ b, ew s(a, b) = 0) :
    b ∈ g.edgesWeight.row a ↔ ew s(a, b) ≠ 0 := by
  rw [← Finmap.lookup_isSome, h.lookup_row inside]
  split <;> simp_all

theorem mem_edgePairs (h : Weighted g vs vw ew) (inside : ∀ a ∉ vs, ∀ b, ew s(a, b) = 0) (p : Int × Int) :
    p ∈ g.edgePairs ↔ p.1 < p.2 ∧ ew s(p.1, p.2) ≠ 0 := by
  unfold edgePairs
  rw [Finset.mem_filter, Finset.mem_product, Finmap.mem_keys, Finmap.mem_keys, h.rows, h.rows, h.mem_row inside]
  constructor
  · exact And.right
  · rintro ⟨lt, some⟩
    refine ⟨⟨?_, ?_⟩, lt, some⟩
    · by_contra out
      exact some (inside _ out _)
    · by_contra out
      rw [Sym2.eq_swap] at some
      exact some (inside _ out _)

/-- The pairs listed smaller key first are the edges. -/
theorem sum_edgePairs (h : Weighted g vs vw ew) (inside : ∀ a ∉ vs, ∀ b, ew s(a, b) = 0) (f : Sym2 Int → ℤ) :
    ∑ p ∈ g.edgePairs, f s(p.1, p.2) = ∑ e ∈ ew.support, f e := by
  apply Finset.sum_nbij (fun p => s(p.1, p.2))
  · intro p mem
    exact mem_support_iff.mpr ((h.mem_edgePairs inside p).mp mem).2
  · intro p mem q mem' eq
    have lt := ((h.mem_edgePairs inside p).mp mem).1
    have lt' := ((h.mem_edgePairs inside q).mp mem').1
    rcases Sym2.eq_iff.mp eq with ⟨eq1, eq2⟩ | ⟨eq1, eq2⟩
    · exact Prod.ext eq1 eq2
    · omega
  · intro e mem
    induction e using Sym2.inductionOn with
    | _ a b =>
      have some := mem_support_iff.mp mem
      rcases lt_trichotomy a b with lt | rfl | lt
      · exact ⟨(a, b), (h.mem_edgePairs inside (a, b)).mpr ⟨lt, some⟩, rfl⟩
      · exact absurd (h.loopless a) some
      · refine ⟨(b, a), (h.mem_edgePairs inside (b, a)).mpr ⟨lt, ?_⟩, Sym2.eq_swap⟩
        rw [Sym2.eq_swap]
        exact some
  · exact fun _ _ => rfl

theorem nEdges_eq (h : Weighted g vs vw ew) (inside : ∀ a ∉ vs, ∀ b, ew s(a, b) = 0) :
    g.nEdges = g.edgePairs.card := by
  have count := h.sum_edgePairs inside fun _ => 1
  rw [Finset.sum_const, Finset.sum_const, nsmul_one, nsmul_one] at count
  rw [h.edges]
  exact count.symm

theorem totalVertex_eq (h : Weighted g vs vw ew) : g.totalVertexWeight = ∑ k ∈ g.vertexWeight.keys, g.weightAt k := by
  have keys : g.vertexWeight.keys = vs := by
    ext k
    rw [Finmap.mem_keys, h.mem_vertex]
  rw [h.totalVertex, keys, degree_apply, Finset.sum_congr rfl fun k _ => h.weightAt]
  exact Finset.sum_subset h.support fun k _ out => notMem_support_iff.mp out

theorem totalEdges_eq (h : Weighted g vs vw ew) (inside : ∀ a ∉ vs, ∀ b, ew s(a, b) = 0) :
    g.totalEdgesWeight = ∑ p ∈ g.edgePairs, g.edgesWeight.edge p.1 p.2 := by
  have value : ∀ p ∈ g.edgePairs, g.edgesWeight.edge p.1 p.2 = ew s(p.1, p.2) := by
    intro p mem
    apply h.edge
    by_contra out
    exact ((h.mem_edgePairs inside p).mp mem).2 (inside _ out _)
  rw [h.totalEdges, degree_apply, Finset.sum_congr rfl value, h.sum_edgePairs inside ew]

end Weighted

end Graph

end KvPaxos
