import KvPaxos.Scheduler.WorkloadGraph
import KvPaxos.Storage.Storage

/-!
# The workload graph in `int`

`Graph<int>` keeps its weights and its two totals in `int`, which the functions of `Graph` take as
integers. Here are the two functions that add, with every sum as an `int` holds it, and the loops of
`update_graph` and `expire` through them; what adds nothing is the same for both.

A message adds as many to the vertices as it has keys and as many to the edges as it has pairs of keys,
and expiring it takes them off again. The loops move the lowest and the highest of the weights and the
total by no more than that, at every step. So a history in which the messages counted together never
have `2 ^ 31` keys or pairs of keys is counted in `int` as it is over the integers.
-/

namespace KvPaxos

open Lib Finsupp
open Storage (toInt)

namespace IntWeights

/-- `increment_vertice_weight`. -/
def incrementVerticeWeight (g : Graph) (data weight : Int) : Graph :=
  { g with
    vertexWeight := g.vertexWeight.insert data (toInt (g.weightAt data + weight))
    totalVertexWeight := toInt (g.totalVertexWeight + weight) }

/-- `increment_edge_weight`. -/
def incrementEdgeWeight (g : Graph) (a b value : Int) : Graph :=
  let rows : Rows := g.edgesWeight.setEdge a b (toInt (g.edgesWeight.edge a b + value))
  { g with
    edgesWeight := rows.setEdge b a (toInt (rows.edge b a + value))
    totalEdgesWeight := toInt (g.totalEdgesWeight + value) }

/-- `update_graph`, the inner loop's body. -/
def countEdge (i : Int) (g : Graph) (j : Int) : Graph :=
  incrementEdgeWeight ((g.addVertice j).addEdge i j) i j 1

/-- `update_graph`, the loops. -/
def countKeys : List Int → Graph → Graph
  | [], g => g
  | i :: js, g => countKeys js (js.foldl (countEdge i) (incrementVerticeWeight (g.addVertice i) i 1))

/-- `expire`, the inner loop's body. -/
def expireEdge (i j : Int) (g : Graph) : Graph :=
  ((incrementEdgeWeight g i j (-1)).removeWeightlessEdge i j).removeWeightlessVertice j

/-- `expire`, the loops: the last key first. -/
def expireKeys : List Int → Graph → Graph
  | [], g => g
  | i :: js, g =>
    (incrementVerticeWeight (js.foldr (expireEdge i) (expireKeys js g)) i (-1)).removeWeightlessVertice i

/-- `update_graph`, which throws and overflows its indexes where `KvPaxos.updateGraph` does. -/
def updateGraph (g : Graph) (message : ClientMessage) : Option Graph :=
  message.range.bind fun dataSize =>
    if dataSize < 0 then none else some (countKeys (message.keysFrom dataSize) g)

/-- `expire`. -/
def expire (g : Graph) (message : ClientMessage) : Option Graph :=
  if message.type = .DUMMY then some g
  else message.range.map fun dataSize => expireKeys (message.keysFrom dataSize) g

/-- One message of `process_populate_request` or `update_graph_loop`. -/
def observe (TL : Nat) (w : Workload) (request : ClientMessage) : Option Workload := do
  let g ← updateGraph w.workloadGraph request
  if TL = 0 then
    return { w with workloadGraph := g }
  else match w.graphDeletionQueue ++ [request] with
    | [] => none
    | expired :: rest =>
      let g ← expire g expired
      return { workloadGraph := g, graphDeletionQueue := rest }

/-- The state after the messages of `history`. -/
def run (TL : Nat) (history : List ClientMessage) : Option Workload :=
  history.foldlM (observe TL) (Workload.start TL)

end IntWeights

namespace Rows

variable {rows : Rows} {a b c d w : Int}

theorem edge_setEdge : (rows.setEdge a b w).edge c d = if c = a ∧ d = b then w else rows.edge c d := by
  unfold edge setEdge
  rw [row_insert]
  by_cases ca : c = a
  · subst ca
    rw [if_pos rfl, UnorderedMap.lookup_insert_ite]
    by_cases db : d = b
    · rw [if_pos db, if_pos ⟨rfl, db⟩]
      rfl
    · rw [if_neg db, if_neg fun both => db both.2]
  · rw [if_neg ca, if_neg fun both => ca both.1]

/-- Erasing an entry, or a row, leaves every edge as it is or without a weight. -/
theorem edge_eraseEdge : (rows.eraseEdge a b).edge c d = rows.edge c d ∨ (rows.eraseEdge a b).edge c d = 0 := by
  unfold edge eraseEdge
  rw [row_insert]
  split
  · rename_i eq
    subst eq
    rw [UnorderedMap.lookup_erase_ite]
    split
    · exact Or.inr rfl
    · exact Or.inl rfl
  · exact Or.inl rfl

theorem edge_insert_empty : edge (Finmap.insert a ∅ rows) c d = rows.edge c d ∨
    edge (Finmap.insert a ∅ rows) c d = 0 := by
  unfold edge
  rw [row_insert]
  split
  · exact Or.inr rfl
  · exact Or.inl rfl

theorem edge_erase : edge (Finmap.erase a rows) c d = rows.edge c d ∨ edge (Finmap.erase a rows) c d = 0 := by
  unfold edge row
  rw [UnorderedMap.lookup_erase_ite]
  split
  · exact Or.inr rfl
  · exact Or.inl rfl

end Rows

namespace Graph

variable {g g' : Graph} {a b c d k w : Int} {low high : Nat}

/-! ### What the functions leave of the weights -/

theorem weightAt_addVertice : (g.addVertice a).weightAt k = g.weightAt k := by
  unfold addVertice
  split
  · rfl
  · rename_i out
    unfold weightAt
    dsimp only
    rw [UnorderedMap.lookup_insert_ite]
    split
    · rename_i eq
      rw [eq, Finmap.lookup_eq_none.mpr out]
      rfl
    · rfl

theorem weightAt_incrementVerticeWeight : (g.incrementVerticeWeight a w).weightAt k =
    if k = a then g.weightAt a + w else g.weightAt k := by
  unfold incrementVerticeWeight
  rw [weightAt, UnorderedMap.lookup_insert_ite]
  split <;> rfl

theorem weightAt_removeWeightlessVertice : (g.removeWeightlessVertice a).weightAt k = g.weightAt k := by
  unfold removeWeightlessVertice
  split
  · rename_i zero
    rw [weightAt, UnorderedMap.lookup_erase_ite]
    split
    · rename_i eq
      rw [eq, zero]
      rfl
    · rfl
  · rfl

theorem edge_addVertice : (g.addVertice a).edgesWeight.edge c d = g.edgesWeight.edge c d ∨
    (g.addVertice a).edgesWeight.edge c d = 0 := by
  unfold addVertice
  split
  · exact Or.inl rfl
  · exact Rows.edge_insert_empty

theorem edge_addEdge : (g.addEdge a b).edgesWeight.edge c d = g.edgesWeight.edge c d ∨
    (g.addEdge a b).edgesWeight.edge c d = 0 := by
  unfold addEdge
  split
  · exact Or.inl rfl
  · dsimp only
    rw [Rows.edge_setEdge, Rows.edge_setEdge]
    split
    · exact Or.inr rfl
    · split
      · exact Or.inr rfl
      · exact Or.inl rfl

theorem edge_incrementEdgeWeight (ne : a ≠ b) (v : Int) : (g.incrementEdgeWeight a b v).edgesWeight.edge c d =
    if c = a ∧ d = b ∨ c = b ∧ d = a then g.edgesWeight.edge c d + v else g.edgesWeight.edge c d := by
  have other : Rows.edge (g.edgesWeight.setEdge a b (g.edgesWeight.edge a b + v)) b a = g.edgesWeight.edge b a := by
    rw [Rows.edge_setEdge, if_neg fun both => ne both.1.symm]
  unfold incrementEdgeWeight
  dsimp only
  rw [Rows.edge_setEdge, other, Rows.edge_setEdge]
  by_cases back : c = b ∧ d = a
  · rw [if_pos back, if_pos (Or.inr back), back.1, back.2]
  · rw [if_neg back]
    by_cases there : c = a ∧ d = b
    · rw [if_pos there, if_pos (Or.inl there), there.1, there.2]
    · rw [if_neg there, if_neg (not_or.mpr ⟨there, back⟩)]

theorem edge_removeWeightlessEdge : (g.removeWeightlessEdge a b).edgesWeight.edge c d = g.edgesWeight.edge c d ∨
    (g.removeWeightlessEdge a b).edgesWeight.edge c d = 0 := by
  unfold removeWeightlessEdge
  split
  · dsimp only
    have last := @Rows.edge_eraseEdge (g.edgesWeight.eraseEdge b a) a b c d
    rcases last with eq | zero
    · rw [eq]
      exact Rows.edge_eraseEdge
    · exact Or.inr zero
  · exact Or.inl rfl

theorem edge_removeWeightlessVertice : (g.removeWeightlessVertice a).edgesWeight.edge c d = g.edgesWeight.edge c d ∨
    (g.removeWeightlessVertice a).edgesWeight.edge c d = 0 := by
  unfold removeWeightlessVertice
  split
  · exact Rows.edge_erase
  · exact Or.inl rfl

/-! ### Bounds -/

/-- The weights of the vertices and their total are between `-low` and `high`. -/
structure VerticesWithin (g : Graph) (low high : Nat) : Prop where
  weight : ∀ k, -(low : Int) ≤ g.weightAt k ∧ g.weightAt k ≤ high
  total : -(low : Int) ≤ g.totalVertexWeight ∧ g.totalVertexWeight ≤ high

/-- The weights of the edges and their total are between `-low` and `high`. -/
structure EdgesWithin (g : Graph) (low high : Nat) : Prop where
  weight : ∀ a b, -(low : Int) ≤ g.edgesWeight.edge a b ∧ g.edgesWeight.edge a b ≤ high
  total : -(low : Int) ≤ g.totalEdgesWeight ∧ g.totalEdgesWeight ≤ high

/-- A function that changes no vertex's weight. -/
theorem VerticesWithin.of_same (h : g.VerticesWithin low high) (weight : ∀ k, g'.weightAt k = g.weightAt k)
    (total : g'.totalVertexWeight = g.totalVertexWeight) : g'.VerticesWithin low high where
  weight k := by
    rw [weight]
    exact h.weight k
  total := by
    rw [total]
    exact h.total

/-- A function that changes no edge's weight, but for edges that come or go without one. -/
theorem EdgesWithin.of_same (h : g.EdgesWithin low high)
    (weight : ∀ a b, g'.edgesWeight.edge a b = g.edgesWeight.edge a b ∨ g'.edgesWeight.edge a b = 0)
    (total : g'.totalEdgesWeight = g.totalEdgesWeight) : g'.EdgesWithin low high where
  weight a b := by
    have := h.weight a b
    rcases weight a b with eq | zero <;> omega
  total := by
    rw [total]
    exact h.total

theorem totals_addVertice : (g.addVertice a).totalVertexWeight = g.totalVertexWeight ∧
    (g.addVertice a).totalEdgesWeight = g.totalEdgesWeight := by
  unfold addVertice
  split <;> exact ⟨rfl, rfl⟩

theorem totals_addEdge : (g.addEdge a b).vertexWeight = g.vertexWeight ∧
    (g.addEdge a b).totalVertexWeight = g.totalVertexWeight ∧
    (g.addEdge a b).totalEdgesWeight = g.totalEdgesWeight := by
  unfold addEdge
  split <;> exact ⟨rfl, rfl, rfl⟩

theorem totals_removeWeightlessEdge : (g.removeWeightlessEdge a b).vertexWeight = g.vertexWeight ∧
    (g.removeWeightlessEdge a b).totalVertexWeight = g.totalVertexWeight ∧
    (g.removeWeightlessEdge a b).totalEdgesWeight = g.totalEdgesWeight := by
  unfold removeWeightlessEdge
  split <;> exact ⟨rfl, rfl, rfl⟩

theorem totals_removeWeightlessVertice : (g.removeWeightlessVertice a).totalVertexWeight = g.totalVertexWeight ∧
    (g.removeWeightlessVertice a).totalEdgesWeight = g.totalEdgesWeight := by
  unfold removeWeightlessVertice
  split <;> exact ⟨rfl, rfl⟩

theorem VerticesWithin.addVertice (h : g.VerticesWithin low high) : (g.addVertice a).VerticesWithin low high :=
  h.of_same (fun _ => weightAt_addVertice) totals_addVertice.1

theorem VerticesWithin.of_fields (h : g.VerticesWithin low high) (vertex : g'.vertexWeight = g.vertexWeight)
    (total : g'.totalVertexWeight = g.totalVertexWeight) : g'.VerticesWithin low high := by
  refine h.of_same (fun k => ?_) total
  rw [weightAt, vertex]
  rfl

/-- A weight moves the bounds by as much as it may be. -/
theorem VerticesWithin.add {l u : Nat} (h : g.VerticesWithin low high) (lower : -(l : Int) ≤ w) (upper : w ≤ u) :
    (g.incrementVerticeWeight a w).VerticesWithin (low + l) (high + u) where
  weight k := by
    have here := h.weight k
    have there := h.weight a
    rw [weightAt_incrementVerticeWeight]
    split <;> omega
  total := by
    have := h.total
    show -((low + l : Nat) : Int) ≤ g.totalVertexWeight + w ∧ g.totalVertexWeight + w ≤ _
    omega

theorem VerticesWithin.increment (h : g.VerticesWithin low high) :
    (g.incrementVerticeWeight a 1).VerticesWithin low (high + 1) :=
  h.add (l := 0) (u := 1) (by decide) (le_refl 1)

theorem VerticesWithin.decrement (h : g.VerticesWithin low high) :
    (g.incrementVerticeWeight a (-1)).VerticesWithin (low + 1) high :=
  h.add (l := 1) (u := 0) (le_refl (-1)) (by decide)

theorem VerticesWithin.removeWeightlessVertice (h : g.VerticesWithin low high) :
    (g.removeWeightlessVertice a).VerticesWithin low high :=
  h.of_same (fun _ => weightAt_removeWeightlessVertice) totals_removeWeightlessVertice.1

theorem EdgesWithin.add {l u : Nat} (h : g.EdgesWithin low high) (ne : a ≠ b) (lower : -(l : Int) ≤ w) (upper : w ≤ u) :
    (g.incrementEdgeWeight a b w).EdgesWithin (low + l) (high + u) where
  weight c d := by
    have := h.weight c d
    rw [edge_incrementEdgeWeight ne]
    split <;> omega
  total := by
    have := h.total
    show -((low + l : Nat) : Int) ≤ g.totalEdgesWeight + w ∧ g.totalEdgesWeight + w ≤ _
    omega

theorem EdgesWithin.increment (h : g.EdgesWithin low high) (ne : a ≠ b) :
    (g.incrementEdgeWeight a b 1).EdgesWithin low (high + 1) :=
  h.add (l := 0) (u := 1) ne (by decide) (le_refl 1)

theorem EdgesWithin.decrement (h : g.EdgesWithin low high) (ne : a ≠ b) :
    (g.incrementEdgeWeight a b (-1)).EdgesWithin (low + 1) high :=
  h.add (l := 1) (u := 0) ne (le_refl (-1)) (by decide)

/-- A sum that has stayed in `int` is the one an `int` holds. -/
theorem VerticesWithin.increment_eq (h : (g.incrementVerticeWeight a w).VerticesWithin low high) (below : low < 2 ^ 31)
    (above : high < 2 ^ 31) : IntWeights.incrementVerticeWeight g a w = g.incrementVerticeWeight a w := by
  have weight := h.weight a
  rw [weightAt_incrementVerticeWeight, if_pos rfl] at weight
  have total : -(low : Int) ≤ g.totalVertexWeight + w ∧ g.totalVertexWeight + w ≤ high := h.total
  unfold IntWeights.incrementVerticeWeight incrementVerticeWeight
  rw [Storage.toInt_eq (by omega) (by omega), Storage.toInt_eq (by omega) (by omega)]

theorem EdgesWithin.increment_eq (h : (g.incrementEdgeWeight a b w).EdgesWithin low high) (ne : a ≠ b)
    (below : low < 2 ^ 31) (above : high < 2 ^ 31) :
    IntWeights.incrementEdgeWeight g a b w = g.incrementEdgeWeight a b w := by
  have there := h.weight a b
  rw [edge_incrementEdgeWeight ne, if_pos (Or.inl ⟨rfl, rfl⟩)] at there
  have back := h.weight b a
  rw [edge_incrementEdgeWeight ne, if_pos (Or.inr ⟨rfl, rfl⟩)] at back
  have total : -(low : Int) ≤ g.totalEdgesWeight + w ∧ g.totalEdgesWeight + w ≤ high := h.total
  have other : Rows.edge (g.edgesWeight.setEdge a b (g.edgesWeight.edge a b + w)) b a = g.edgesWeight.edge b a := by
    rw [Rows.edge_setEdge, if_neg fun both => ne both.1.symm]
  unfold IntWeights.incrementEdgeWeight incrementEdgeWeight
  dsimp only
  rw [Storage.toInt_eq (x := g.edgesWeight.edge a b + w) (by omega) (by omega), other,
    Storage.toInt_eq (by omega) (by omega), Storage.toInt_eq (by omega) (by omega)]

/-! ### The loops -/

variable {i : Int} {keys js : List Int} {lowV highV : Nat}

theorem edgesWithin_countEdge (h : g.EdgesWithin low high) (ne : i ≠ a) :
    (g.countEdge i a).EdgesWithin low (high + 1) := by
  have added := h.of_same (fun _ _ => edge_addVertice) (totals_addVertice (a := a)).2
  exact (added.of_same (fun _ _ => edge_addEdge) totals_addEdge.2.2).increment ne

theorem verticesWithin_countEdge (h : g.VerticesWithin low high) : (g.countEdge i a).VerticesWithin low high :=
  (h.addVertice.of_fields totals_addEdge.1 totals_addEdge.2.1).of_fields rfl rfl

/-- The inner loop of `update_graph`. -/
theorem countEdges_within (vertices : g.VerticesWithin lowV highV) (edges : g.EdgesWithin low high) (out : i ∉ js) :
    (js.foldl (countEdge i) g).VerticesWithin lowV highV ∧
      (js.foldl (countEdge i) g).EdgesWithin low (high + js.length) ∧
      (low < 2 ^ 31 → high + js.length < 2 ^ 31 →
        js.foldl (IntWeights.countEdge i) g = js.foldl (countEdge i) g) := by
  induction js generalizing g high with
  | nil =>
    rw [List.foldl_nil, List.foldl_nil]
    exact ⟨vertices, edges, fun _ _ => rfl⟩
  | cons j js ih =>
    rw [List.mem_cons, not_or] at out
    have counted := edgesWithin_countEdge edges out.1
    obtain ⟨vertices', edges', same⟩ := ih (verticesWithin_countEdge vertices) counted out.2
    have length : high + 1 + js.length = high + (j :: js).length := by
      rw [List.length_cons]
      omega
    rw [length] at edges' same
    refine ⟨vertices', edges', fun below above => ?_⟩
    have step : IntWeights.countEdge i g j = countEdge i g j :=
      counted.increment_eq out.1 below (by rw [← length] at above; omega)
    rw [List.foldl_cons, List.foldl_cons, step]
    exact same below above

/-- One more key makes a pair with each of the others. -/
theorem pairs_succ (n : Nat) : (n + 1).choose 2 = n + n.choose 2 := by
  rw [Nat.choose_succ_succ', Nat.choose_one_right]

/-- **`update_graph`** counts in `int` as over the integers, as long as the weights and totals it leaves fit. -/
theorem countKeys_within (nodup : keys.Nodup) (vertices : g.VerticesWithin lowV highV) (edges : g.EdgesWithin low high)
    (belowV : lowV < 2 ^ 31) (aboveV : highV + keys.length < 2 ^ 31) (below : low < 2 ^ 31)
    (above : high + keys.length.choose 2 < 2 ^ 31) : IntWeights.countKeys keys g = g.countKeys keys := by
  induction keys generalizing g highV high with
  | nil => rfl
  | cons i js ih =>
    obtain ⟨out, nodup⟩ := List.nodup_cons.mp nodup
    rw [List.length_cons, pairs_succ] at above
    rw [List.length_cons] at aboveV
    have counted : ((g.addVertice i).incrementVerticeWeight i 1).VerticesWithin lowV (highV + 1) :=
      vertices.addVertice.increment
    have added : ((g.addVertice i).incrementVerticeWeight i 1).EdgesWithin low high :=
      edges.of_same (fun _ _ => edge_addVertice) totals_addVertice.2
    obtain ⟨vertices', edges', same⟩ := countEdges_within counted added out
    rw [IntWeights.countKeys, countKeys, counted.increment_eq belowV (by omega), same below (by omega)]
    exact ih nodup vertices' edges' (by omega) (by omega)

theorem EdgesWithin.removeWeightlessEdge (h : g.EdgesWithin low high) :
    (g.removeWeightlessEdge a b).EdgesWithin low high :=
  h.of_same (fun _ _ => edge_removeWeightlessEdge) totals_removeWeightlessEdge.2.2

theorem EdgesWithin.removeWeightlessVertice (h : g.EdgesWithin low high) :
    (g.removeWeightlessVertice a).EdgesWithin low high :=
  h.of_same (fun _ _ => edge_removeWeightlessVertice) totals_removeWeightlessVertice.2

theorem verticesWithin_expireEdge (h : g.VerticesWithin low high) : (g.expireEdge i a).VerticesWithin low high := by
  have decremented : (g.incrementEdgeWeight i a (-1)).VerticesWithin low high := h.of_fields rfl rfl
  exact (decremented.of_fields totals_removeWeightlessEdge.1 totals_removeWeightlessEdge.2.1).removeWeightlessVertice

/-- The inner loop of `expire`. -/
theorem expireEdges_within (vertices : g.VerticesWithin lowV highV) (edges : g.EdgesWithin low high) (out : i ∉ js) :
    (js.foldr (expireEdge i) g).VerticesWithin lowV highV ∧
      (js.foldr (expireEdge i) g).EdgesWithin (low + js.length) high ∧
      (low + js.length < 2 ^ 31 → high < 2 ^ 31 →
        js.foldr (IntWeights.expireEdge i) g = js.foldr (expireEdge i) g) := by
  induction js with
  | nil =>
    rw [List.foldr_nil, List.foldr_nil]
    exact ⟨vertices, edges, fun _ _ => rfl⟩
  | cons j js ih =>
    rw [List.mem_cons, not_or] at out
    obtain ⟨vertices', edges', same⟩ := ih out.2
    have decremented := edges'.decrement out.1
    refine ⟨verticesWithin_expireEdge vertices', decremented.removeWeightlessEdge.removeWeightlessVertice, ?_⟩
    intro below above
    rw [List.length_cons] at below
    have step : IntWeights.expireEdge i j (js.foldr (expireEdge i) g) = expireEdge i j (js.foldr (expireEdge i) g) := by
      rw [IntWeights.expireEdge, decremented.increment_eq out.1 (by omega) above]
      rfl
    rw [List.foldr_cons, List.foldr_cons, same (by omega) above, step]

/-- **`expire`** takes off in `int` as over the integers, as long as what it may go down to fits. -/
theorem expireKeys_within (nodup : keys.Nodup) (vertices : g.VerticesWithin lowV highV) (edges : g.EdgesWithin low high) :
    (g.expireKeys keys).VerticesWithin (lowV + keys.length) highV ∧
      (g.expireKeys keys).EdgesWithin (low + keys.length.choose 2) high ∧
      (lowV + keys.length < 2 ^ 31 → highV < 2 ^ 31 → low + keys.length.choose 2 < 2 ^ 31 → high < 2 ^ 31 →
        IntWeights.expireKeys keys g = g.expireKeys keys) := by
  induction keys with
  | nil => exact ⟨vertices, edges, fun _ _ _ _ => rfl⟩
  | cons i js ih =>
    obtain ⟨out, nodup⟩ := List.nodup_cons.mp nodup
    obtain ⟨vertices', edges', same⟩ := ih nodup
    obtain ⟨vertices'', edges'', same'⟩ := expireEdges_within vertices' edges' out
    have decremented := vertices''.decrement (a := i)
    have pairs : low + js.length.choose 2 + js.length = low + (i :: js).length.choose 2 := by
      rw [List.length_cons, pairs_succ]
      omega
    rw [pairs] at edges'' same'
    have counted : ((js.foldr (expireEdge i) (g.expireKeys js)).incrementVerticeWeight i (-1)).EdgesWithin
        (low + (i :: js).length.choose 2) high := edges''.of_same (fun _ _ => Or.inl rfl) rfl
    refine ⟨decremented.removeWeightlessVertice, counted.removeWeightlessVertice, ?_⟩
    intro belowV aboveV below above
    rw [List.length_cons] at belowV
    rw [IntWeights.expireKeys, expireKeys, same (by omega) aboveV (by omega) above, same' below above,
      decremented.increment_eq (by omega) aboveV]

end Graph

/-! ### The window -/

/-- How many keys the messages have, each counted as often as it occurs. -/
def keysCounted (W : List ClientMessage) : Nat := (W.map fun m => m.keys.length).sum

/-- How many pairs of keys of one message they have. -/
def pairsCounted (W : List ClientMessage) : Nat := (W.map fun m => m.keys.length.choose 2).sum

/-- The messages the graph counts when it has taken `m` after `done`, and expired nothing yet. -/
def countedWith (TL : Nat) (done : List ClientMessage) (m : ClientMessage) : List ClientMessage :=
  Workload.lingering TL done ++ Workload.window TL done ++ [m]

/-- No `int` of the graph overflows: the messages it counts at any time have fewer than `2 ^ 31` keys, which is
`total_vertex_weight_`, and fewer than `2 ^ 31` pairs of keys, which is `total_edges_weight_`. -/
def IntWeights.Fits (TL : Nat) (history : List ClientMessage) : Prop :=
  ∀ done m rest, history = done ++ m :: rest →
    keysCounted (countedWith TL done m) < 2 ^ 31 ∧ pairsCounted (countedWith TL done m) < 2 ^ 31

section Window

variable {W W' : List ClientMessage} {m : ClientMessage} {g : Graph} {a b : Int}

theorem keysCounted_append (W W' : List ClientMessage) : keysCounted (W ++ W') = keysCounted W + keysCounted W' := by
  rw [keysCounted, List.map_append, List.sum_append]
  rfl

theorem pairsCounted_append (W W' : List ClientMessage) : pairsCounted (W ++ W') = pairsCounted W + pairsCounted W' := by
  rw [pairsCounted, List.map_append, List.sum_append]
  rfl

theorem keysCounted_singleton (m : ClientMessage) : keysCounted [m] = m.keys.length := Nat.add_zero _

theorem pairsCounted_singleton (m : ClientMessage) : pairsCounted [m] = m.keys.length.choose 2 := Nat.add_zero _

theorem keysCounted_sublist (h : W.Sublist W') : keysCounted W ≤ keysCounted W' :=
  (h.map _).sum_le_sum fun _ _ => Nat.zero_le _

theorem pairsCounted_sublist (h : W.Sublist W') : pairsCounted W ≤ pairsCounted W' :=
  (h.map _).sum_le_sum fun _ _ => Nat.zero_le _

theorem degree_vertexMass (keys : List Int) : (vertexMass keys).degree = keys.length := by
  induction keys with
  | nil => exact map_zero _
  | cons i js ih =>
    rw [vertexMass_cons, map_add, degree_single, ih, List.length_cons]
    omega

theorem degree_starMass (i : Int) (js : List Int) : (starMass i js).degree = js.length := by
  induction js with
  | nil => exact map_zero _
  | cons j js ih =>
    rw [starMass_cons, map_add, degree_single, ih, List.length_cons]
    omega

theorem degree_edgeMass (keys : List Int) : (edgeMass keys).degree = keys.length.choose 2 := by
  induction keys with
  | nil => exact map_zero _
  | cons i js ih =>
    rw [edgeMass_cons, map_add, degree_starMass, ih, List.length_cons, Graph.pairs_succ]
    exact (Int.natCast_add _ _).symm

/-- `total_vertex_weight_`. -/
theorem degree_windowVertexMass (W : List ClientMessage) : (windowVertexMass W).degree = keysCounted W := by
  induction W with
  | nil => exact map_zero _
  | cons m W ih =>
    rw [windowVertexMass_cons, map_add, degree_vertexMass, ih]
    exact (Int.natCast_add _ _).symm

/-- `total_edges_weight_`. -/
theorem degree_windowEdgeMass (W : List ClientMessage) : (windowEdgeMass W).degree = pairsCounted W := by
  induction W with
  | nil => exact map_zero _
  | cons m W ih =>
    rw [windowEdgeMass_cons, map_add, degree_edgeMass, ih]
    exact (Int.natCast_add _ _).symm

/-- No weight is more than all of them. -/
theorem apply_le_degree {α : Type*} {w : α →₀ ℤ} (nonneg : ∀ a, 0 ≤ w a) (a : α) : w a ≤ w.degree := by
  rw [degree_apply]
  by_cases mem : a ∈ w.support
  · exact Finset.single_le_sum (fun b _ => nonneg b) mem
  · rw [notMem_support_iff.mp mem]
    exact Finset.sum_nonneg fun b _ => nonneg b

/-- Of a graph that counts messages no weight is negative, and the totals are the most. -/
theorem Graph.Counts.verticesWithin (h : g.Counts W) : g.VerticesWithin 0 (keysCounted W) where
  weight k := by
    have le := apply_le_degree (windowVertexMass_nonneg W) k
    have nonneg := windowVertexMass_nonneg W k
    rw [degree_windowVertexMass] at le
    rw [h.weightAt]
    exact ⟨nonneg, le⟩
  total := by
    rw [h.totalVertex, degree_windowVertexMass]
    exact ⟨Int.natCast_nonneg _, le_refl _⟩

theorem Graph.Counts.edgesWithin (h : g.Counts W) : g.EdgesWithin 0 (pairsCounted W) where
  weight a b := by
    have le := apply_le_degree (windowEdgeMass_nonneg W) s(a, b)
    have nonneg := windowEdgeMass_nonneg W s(a, b)
    rw [degree_windowEdgeMass] at le
    by_cases mem : a ∈ (windowVertexMass W).support
    · rw [h.edge mem]
      exact ⟨nonneg, le⟩
    · rw [Rows.edge, h.row_of_notMem mem]
      exact ⟨le_refl _, Int.natCast_nonneg _⟩
  total := by
    rw [h.totalEdges, degree_windowEdgeMass]
    exact ⟨Int.natCast_nonneg _, le_refl _⟩

namespace IntWeights

theorem updateGraph_eq (h : g.Counts W) (keys : keysCounted (W ++ [m]) < 2 ^ 31)
    (pairs : pairsCounted (W ++ [m]) < 2 ^ 31) : updateGraph g m = KvPaxos.updateGraph g m := by
  rw [keysCounted_append, keysCounted_singleton] at keys
  rw [pairsCounted_append, pairsCounted_singleton] at pairs
  unfold updateGraph KvPaxos.updateGraph
  cases hr : m.range with
  | none => rw [Option.bind_none, Option.bind_none]
  | some r =>
    have same : m.keysFrom r = m.keys := by rw [ClientMessage.keys, hr, Option.getD_some]
    have counted : countKeys m.keys g = g.countKeys m.keys :=
      Graph.countKeys_within (keys_nodup m) h.verticesWithin h.edgesWithin (Nat.two_pow_pos 31) keys
        (Nat.two_pow_pos 31) pairs
    rw [Option.bind_some, Option.bind_some, same, counted]

theorem expire_eq (h : g.Counts W) (mem : m ∈ W) (keys : keysCounted W < 2 ^ 31) (pairs : pairsCounted W < 2 ^ 31) :
    expire g m = KvPaxos.expire g m := by
  have few := keysCounted_sublist (List.singleton_sublist.mpr mem)
  have few' := pairsCounted_sublist (List.singleton_sublist.mpr mem)
  rw [keysCounted_singleton] at few
  rw [pairsCounted_singleton] at few'
  unfold expire KvPaxos.expire
  split
  · rfl
  · cases hr : m.range with
    | none => rw [Option.map_none, Option.map_none]
    | some r =>
      have same : m.keysFrom r = m.keys := by rw [ClientMessage.keys, hr, Option.getD_some]
      rw [Option.map_some, Option.map_some, same]
      have expired := (Graph.expireKeys_within (keys_nodup m) h.verticesWithin h.edgesWithin).2.2
      exact congrArg some (expired (by omega) keys (by omega) pairs)

/-- One message whose keys fit. -/
theorem observe_eq {TL : Nat} {history : List ClientMessage} {w : Workload} (countable : m.Countable)
    (queue : w.graphDeletionQueue = Workload.deletionQueue TL history)
    (h : w.workloadGraph.Counts (Workload.lingering TL history ++ Workload.window TL history))
    (keys : keysCounted (countedWith TL history m) < 2 ^ 31)
    (pairs : pairsCounted (countedWith TL history m) < 2 ^ 31) : observe TL w m = Workload.observe TL w m := by
  obtain ⟨g, update, counts⟩ := h.update countable
  unfold observe Workload.observe
  rw [updateGraph_eq h keys pairs, update, Option.bind_eq_bind, Option.bind_some, Option.bind_some]
  by_cases zero : TL = 0
  · rw [if_pos zero, if_pos zero]
  · rw [if_neg zero, if_neg zero, queue, Workload.deletionQueue, if_neg zero]
    cases popped : List.replicate (TL - history.length) ({ type := .DUMMY } : ClientMessage) ++
        Workload.window TL history ++ [m] with
    | nil => rfl
    | cons expired rest =>
      have same : expire g expired = KvPaxos.expire g expired := by
        by_cases dummy : expired.type = .DUMMY
        · rw [expire, KvPaxos.expire, if_pos dummy, if_pos dummy]
        · have mem : expired ∈ List.replicate (TL - history.length) ({ type := .DUMMY } : ClientMessage) ++
              Workload.window TL history ++ [m] := by
            rw [popped]
            exact List.mem_cons_self
          rw [List.append_assoc, List.mem_append] at mem
          rcases mem with filler | counted
          · rw [List.eq_of_mem_replicate filler] at dummy
            exact absurd rfl dummy
          · refine expire_eq counts ?_ keys pairs
            rw [List.append_assoc]
            exact List.mem_append_right _ counted
      dsimp only
      rw [same]

theorem run_snoc (TL : Nat) (history : List ClientMessage) (m : ClientMessage) :
    run TL (history ++ [m]) = (run TL history).bind fun w => observe TL w m := by
  simp only [run, List.foldlM_append, List.foldlM_cons, List.foldlM_nil, bind_pure]
  rfl

theorem Fits.init {TL : Nat} {history : List ClientMessage} (h : Fits TL (history ++ [m])) : Fits TL history := by
  rintro done m' rest rfl
  exact h done m' (rest ++ [m]) (by rw [List.append_assoc, List.cons_append])

/-- **The ints hold the numbers**: a history that fits is counted in `int` as over the integers. -/
theorem run_eq {TL : Nat} {history : List ClientMessage} (countable : ∀ m ∈ history, m.Countable)
    (fits : Fits TL history) : run TL history = Workload.run TL history := by
  induction history using List.reverseRecOn with
  | nil => rw [run, Workload.run, List.foldlM_nil, List.foldlM_nil]
  | append_singleton history m ih =>
    have before : ∀ m' ∈ history, m'.Countable := fun m' mem => countable m' (List.mem_append_left _ mem)
    obtain ⟨w, ran, queue, counts⟩ := Workload.run_counts TL history before
    obtain ⟨keys, pairs⟩ := fits history m [] rfl
    have last : m.Countable := countable m (List.mem_append_right _ (List.mem_singleton_self m))
    rw [run_snoc, Workload.run_snoc, ih before fits.init, ran, Option.bind_some, Option.bind_some]
    exact observe_eq last queue counts keys pairs

/-- What passes a filter or comes later is less the more has come before. -/
theorem filter_take_sublist {α : Type*} (p : α → Bool) (l : List α) (j k : Nat) :
    ((l.take (j + k)).filter p ++ l.drop (j + k)).Sublist ((l.take j).filter p ++ l.drop j) := by
  have rest := List.Sublist.append (List.filter_sublist (p := p) (l := (l.drop j).take k))
    (List.Sublist.refl ((l.drop j).drop k))
  rw [List.take_append_drop, List.drop_drop] at rest
  rw [List.take_add, List.filter_append, List.append_assoc]
  exact (List.Sublist.refl _).append rest

/-- The messages counted at any time are among those of the history. -/
theorem counted_sublist (TL : Nat) (history : List ClientMessage) :
    (Workload.lingering TL history ++ Workload.window TL history).Sublist history := by
  unfold Workload.lingering Workload.window
  split
  · exact List.Sublist.refl _
  · have sub := filter_take_sublist (fun m : ClientMessage => m.type = .DUMMY) history 0 (history.length - TL)
    rw [Nat.zero_add] at sub
    exact sub

/-- Those counted after a message are among those counted with it. -/
theorem counted_snoc_sublist (TL : Nat) (done : List ClientMessage) (m : ClientMessage) :
    (Workload.lingering TL (done ++ [m]) ++ Workload.window TL (done ++ [m])).Sublist (countedWith TL done m) := by
  unfold countedWith Workload.lingering Workload.window
  split
  · exact List.Sublist.refl _
  · have less : done.length - TL ≤ done.length := Nat.sub_le _ _
    obtain ⟨k, later⟩ := Nat.exists_eq_add_of_le
      (show done.length - TL ≤ (done ++ [m]).length - TL by rw [List.length_append]; omega)
    have sub := filter_take_sublist (fun m : ClientMessage => m.type = .DUMMY) (done ++ [m]) (done.length - TL) k
    rw [← later, List.take_append_of_le_length less, List.drop_append_of_le_length less, ← List.append_assoc] at sub
    exact sub

/-- The graph is left with fewer than `2 ^ 31` keys. -/
theorem Fits.keys {TL : Nat} {history : List ClientMessage} (h : Fits TL history) :
    keysCounted (Workload.lingering TL history ++ Workload.window TL history) < 2 ^ 31 := by
  rcases List.eq_nil_or_concat history with rfl | ⟨done, m, rfl⟩
  · have none := keysCounted_sublist (counted_sublist TL [])
    exact none.trans_lt (by decide)
  · rw [List.concat_eq_append] at h ⊢
    exact (keysCounted_sublist (counted_snoc_sublist TL done m)).trans_lt (h done m [] rfl).1

/-- A history with few keys fits in every window. -/
theorem Fits.of_few {TL : Nat} {history : List ClientMessage} (keys : keysCounted history < 2 ^ 31)
    (pairs : pairsCounted history < 2 ^ 31) : Fits TL history := by
  rintro done m rest rfl
  have all : (countedWith TL done m).Sublist (done ++ m :: rest) := by
    exact (counted_sublist TL done).append (List.singleton_sublist.mpr List.mem_cons_self)
  exact ⟨(keysCounted_sublist all).trans_lt keys, (pairsCounted_sublist all).trans_lt pairs⟩

/-! ### Past the limit -/

/-- The graph of one key without edges. -/
def oneVertex (k weight : Int) : Graph where
  vertexWeight := Finmap.insert k weight ∅
  edgesWeight := Finmap.insert k ∅ ∅
  totalVertexWeight := weight

/-- A WRITE of the key adds one, as an `int` does. -/
theorem updateGraph_oneVertex (k weight : Int) :
    updateGraph (oneVertex k weight) { type := .WRITE, key := k } = some (oneVertex k (toInt (weight + 1))) := by
  have range : ({ type := .WRITE, key := k } : ClientMessage).range = some 1 := rfl
  have there : k ∈ (oneVertex k weight).vertexWeight := Finmap.mem_insert.mpr (Or.inl rfl)
  have at_ : (oneVertex k weight).weightAt k = weight := by
    rw [Graph.weightAt, oneVertex, UnorderedMap.lookup_insert_ite, if_pos rfl]
    rfl
  have keys : ({ type := .WRITE, key := k } : ClientMessage).keysFrom 1 = [k] := by
    simp [ClientMessage.keysFrom]
  rw [updateGraph, range, Option.bind_some, if_neg (by decide), keys, countKeys, List.foldl_nil, countKeys]
  unfold incrementVerticeWeight Graph.addVertice
  rw [if_pos there, at_]
  simp only [oneVertex, Finmap.insert_insert]

/-- The first WRITE makes the vertex. -/
theorem updateGraph_empty (k : Int) :
    updateGraph {} { type := .WRITE, key := k } = some (oneVertex k (toInt 1)) := by
  have range : ({ type := .WRITE, key := k } : ClientMessage).range = some 1 := rfl
  have keys : ({ type := .WRITE, key := k } : ClientMessage).keysFrom 1 = [k] := by
    simp [ClientMessage.keysFrom]
  rw [updateGraph, range, Option.bind_some, if_neg (by decide), keys, countKeys, List.foldl_nil, countKeys]
  unfold incrementVerticeWeight Graph.addVertice
  rw [if_neg Finmap.notMem_empty]
  simp only [oneVertex, Finmap.insert_insert, Graph.weightAt, UnorderedMap.lookup_insert_ite, if_pos, Option.getD_some,
    zero_add]

/-- **The weight of a key that is written `n` times**, and never expired, is the `int` of `n`. -/
theorem run_writes (k : Int) {n : Nat} (pos : 0 < n) :
    run 0 (List.replicate n { type := .WRITE, key := k }) = some { workloadGraph := oneVertex k (toInt n) } := by
  induction n, pos using Nat.le_induction with
  | base =>
    rw [List.replicate_succ, List.replicate_zero, run, List.foldlM_cons, observe, Workload.start, updateGraph_empty]
    rfl
  | succ n pos ih =>
    rw [List.replicate_succ', run_snoc, ih, Option.bind_some, observe, updateGraph_oneVertex]
    have wrapped : toInt (toInt n + 1) = toInt ((n + 1 : Nat)) := Int.bmod_add_bmod
    rw [wrapped]
    rfl

end IntWeights

end Window

end KvPaxos
