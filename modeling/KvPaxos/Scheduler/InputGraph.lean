import Mathlib.Data.Int.Order.Basic
import Mathlib.Data.List.Nodup
import KvPaxos.Lib.Offsets
import KvPaxos.Scheduler.IntWeights

/-!
# The partitioner's input and its answer

`multilevel_cut_data`, which lays the workload graph out as METIS and KaHIP read it, and
`partitioning`, which reads their answer back into a map from keys to partitions. The
order in which a loop meets the entries of an unordered map is left open, so it is an
argument: one `Iteration` for each adjacency row, and one for the vertex positions.

The weights of the input are the `int`s of the graph, so they are positive as long as these do
not overflow; a key that is counted `2 ^ 31` times and never expired has a negative one. The
offsets and positions are written as natural numbers, and `Ints` says that they are `int`s.
-/

namespace KvPaxos

open Lib UnorderedMap

/-- `InputGraph`. -/
structure InputGraph where
  verticeToPos : UnorderedMap Int Nat := ∅
  verticeWeight : List Int := []
  xEdges : List Nat := []
  edges : List Nat := []
  edgesWeight : List Int := []

namespace Graph

variable (g : Graph)

/-- The orders in which the loops over the adjacency rows run. -/
abbrev RowOrder := ∀ a, Iteration (g.edgesWeight.row a)

/-- `multilevel_cut_data`, a round of the first loop, with its counter `i`. -/
def placeVertex (d : InputGraph) (v : Int × Nat) : Option InputGraph := do
  let weight ← g.vertexWeight.lookup v.1
  return { d with
    verticeWeight := d.verticeWeight ++ [weight]
    verticeToPos := d.verticeToPos.insert v.1 v.2 }

/-- A round of the inner loop, with its counter `n_neighbours`. -/
def pushNeighbour (d : InputGraph × Nat) (e : Int × Int) : InputGraph × Nat :=
  match d.1.verticeToPos.lookup e.1 with
  | some neighbour =>
    ({ d.1 with edges := d.1.edges ++ [neighbour], edgesWeight := d.1.edgesWeight ++ [e.2] }, d.2 + 1)
  | none => d

/-- A round of the second loop; `edges_weight_.at(v)` throws where there is no row. -/
def pushRow (order : g.RowOrder) (d : InputGraph) (v : Int) : Option InputGraph :=
  if v ∈ g.edgesWeight then
    let lastEdgeIndex := d.xEdges.getLastD 0
    let (d, nNeighbours) := (order v).entries.foldl pushNeighbour (d, 0)
    some { d with xEdges := d.xEdges ++ [lastEdgeIndex + nNeighbours] }
  else none

/-- `multilevel_cut_data`, called by the constructor of `InputGraph`. -/
def multilevelCutData (order : g.RowOrder) : Option InputGraph := do
  let d ← g.sortedVertex.zipIdx.foldlM g.placeVertex {}
  g.sortedVertex.foldlM (g.pushRow order) { d with xEdges := [0] }

end Graph

/-- `partitions_.at(id)`, which throws where there is no such partition; the constructors make the
partitions 0 to `n_partitions_ - 1`. -/
def partitionAt (n : Nat) (id : Int) : Option (Fin n) :=
  if h : 0 ≤ id ∧ id < n then some ⟨id.toNat, by omega⟩ else none

/-- A round of `partitioning`. -/
def assignKey {n : Nat} (partitionScheme : List Int) (dataToPartition : UnorderedMap Int (Fin n))
    (it : Int × Nat) : Option (UnorderedMap Int (Fin n)) := do
  let partition ← partitionScheme[it.2]?
  let partition ← partitionAt n partition
  return emplace dataToPartition it.1 partition

/-- `partitioning` on the vector that `multilevel_cut` returns. -/
def partitioning (n : Nat) (graph : InputGraph) (order : Iteration graph.verticeToPos)
    (partitionScheme : List Int) : Option (UnorderedMap Int (Fin n)) :=
  order.entries.foldlM (assignKey partitionScheme) ∅

namespace InputGraph

/-- The neighbours and weights between two offsets. -/
def row (d : InputGraph) (i : Nat) : List (Nat × Int) :=
  segment d.xEdges (d.edges.zip d.edgesWeight) i

/-- What METIS and KaHIP ask of a graph with `n` vertices. -/
structure Valid (d : InputGraph) (n : Nat) : Prop where
  weights : d.verticeWeight.length = n
  offsets : d.xEdges.length = n + 1
  first : d.xEdges[0]? = some 0
  monotone : d.xEdges.Pairwise (· ≤ ·)
  last : d.xEdges.getLast? = some d.edges.length
  lengths : d.edgesWeight.length = d.edges.length
  neighbour : ∀ u ∈ d.edges, u < n
  vertices : ∀ w ∈ d.verticeWeight, 0 < w
  positive : ∀ w ∈ d.edgesWeight, 0 < w
  loopless : ∀ i < n, ∀ w, (i, w) ∉ d.row i
  distinct : ∀ i < n, ((d.row i).map Prod.fst).Nodup
  symmetric : ∀ i < n, ∀ j < n, ∀ w, (j, w) ∈ d.row i → (i, w) ∈ d.row j

/-- The offsets and positions, of which there are as many as vertices and neighbours, are `int`s. -/
structure Ints (d : InputGraph) : Prop where
  offsets : ∀ x ∈ d.xEdges, x < 2 ^ 31
  neighbours : ∀ u ∈ d.edges, u < 2 ^ 31
  positions : ∀ k i, d.verticeToPos.lookup k = some i → i < 2 ^ 31

/-- The input is the graph `g`, its vertices numbered in the order of their keys. -/
structure Encodes (d : InputGraph) (g : Graph) : Prop where
  domain : ∀ k, k ∈ d.verticeToPos ↔ k ∈ g.vertexWeight
  bounded : ∀ k i, d.verticeToPos.lookup k = some i → i < g.vertexWeight.size
  onto : ∀ i < g.vertexWeight.size, ∃ k, d.verticeToPos.lookup k = some i
  ordered : ∀ k k' i i', d.verticeToPos.lookup k = some i → d.verticeToPos.lookup k' = some i' → (k < k' ↔ i < i')
  weight : ∀ k i, d.verticeToPos.lookup k = some i → d.verticeWeight[i]? = g.vertexWeight.lookup k
  edge : ∀ a b w, (g.edgesWeight.row a).lookup b = some w ↔
    ∃ i j, d.verticeToPos.lookup a = some i ∧ d.verticeToPos.lookup b = some j ∧ (j, w) ∈ d.row i
  size : (d.edges.length : Int) = 2 * g.nEdges

end InputGraph

/-! ### What the loops build -/

/-- The entries of a row whose key has a position, with that position. -/
def adjacent (positions : UnorderedMap Int Nat) (entries : List (Int × Int)) : List (Nat × Int) :=
  entries.filterMap fun e => (positions.lookup e.1).map (·, e.2)

section Loops

variable {g : Graph} {positions : UnorderedMap Int Nat} {entries : List (Int × Int)} {d : InputGraph}

theorem mem_adjacent {j : Nat} {w : Int} :
    (j, w) ∈ adjacent positions entries ↔ ∃ b, (b, w) ∈ entries ∧ positions.lookup b = some j := by
  unfold adjacent
  rw [List.mem_filterMap]
  constructor
  · rintro ⟨⟨b, w'⟩, mem, eq⟩
    obtain ⟨j', hj, eq⟩ := Option.map_eq_some_iff.mp eq
    obtain ⟨rfl, rfl⟩ := Prod.mk.injEq _ _ _ _ ▸ eq
    exact ⟨b, mem, hj⟩
  · rintro ⟨b, mem, hj⟩
    exact ⟨(b, w), mem, by rw [hj]; rfl⟩

theorem length_adjacent (all : ∀ e ∈ entries, ∃ j, positions.lookup e.1 = some j) :
    (adjacent positions entries).length = entries.length := by
  induction entries with
  | nil => rfl
  | cons e entries ih =>
    obtain ⟨j, hj⟩ := all e List.mem_cons_self
    rw [adjacent, List.filterMap_cons, hj]
    exact congrArg (· + 1) (ih fun e' mem => all e' (List.mem_cons_of_mem e mem))

/-- The inner loop. -/
theorem foldl_pushNeighbour (entries : List (Int × Int)) (d : InputGraph) (n : Nat) :
    entries.foldl Graph.pushNeighbour (d, n) =
      ({ d with
        edges := d.edges ++ (adjacent d.verticeToPos entries).map Prod.fst
        edgesWeight := d.edgesWeight ++ (adjacent d.verticeToPos entries).map Prod.snd },
        n + (adjacent d.verticeToPos entries).length) := by
  induction entries generalizing d n with
  | nil => simp [adjacent]
  | cons e entries ih =>
    rw [List.foldl_cons, Graph.pushNeighbour]
    cases found : d.verticeToPos.lookup e.1 with
    | none =>
      have skip : adjacent d.verticeToPos (e :: entries) = adjacent d.verticeToPos entries := by
        rw [adjacent, List.filterMap_cons, found]
        rfl
      rw [skip]
      exact ih d n
    | some j =>
      have push : adjacent d.verticeToPos (e :: entries) = (j, e.2) :: adjacent d.verticeToPos entries := by
        rw [adjacent, List.filterMap_cons, found]
        rfl
      rw [push, ih]
      simp only [List.map_cons, List.append_assoc, List.singleton_append, List.length_cons, Prod.mk.injEq, true_and]
      omega

/-- After the vertices `done`. -/
structure Placed (g : Graph) (done : List Int) (d : InputGraph) : Prop where
  position : ∀ k i, d.verticeToPos.lookup k = some i ↔ done[i]? = some k
  weights : d.verticeWeight = done.map g.weightAt
  edges : d.edges = []
  edgesWeight : d.edgesWeight = []

/-- The next vertex takes the next position. -/
theorem position_snoc {done : List Int} {k : Int} (position : ∀ k i, positions.lookup k = some i ↔ done[i]? = some k)
    (fresh : k ∉ done) (k' : Int) (i : Nat) :
    (positions.insert k done.length).lookup k' = some i ↔ (done ++ [k])[i]? = some k' := by
  rw [lookup_insert_ite, List.getElem?_append]
  by_cases eq : k' = k
  · subst eq
    rw [if_pos rfl, Option.some_inj]
    split
    · rename_i lt
      exact iff_of_false (by omega) fun at_i => fresh (List.mem_of_getElem? at_i)
    · rw [List.getElem?_singleton]
      split
      · exact iff_of_true (by omega) rfl
      · exact iff_of_false (by omega) nofun
  · rw [if_neg eq, position]
    split
    · rfl
    · rw [List.getElem?_eq_none (by omega), List.getElem?_singleton]
      refine iff_of_false nofun fun same => ?_
      split at same
      · exact eq (Option.some_inj.mp same).symm
      · cases same

/-- **The first loop** numbers the vertices. -/
theorem placeVertices {ks : List Int} (nodup : ks.Nodup) (vertices : ∀ k ∈ ks, k ∈ g.vertexWeight) :
    ∃ d, ks.zipIdx.foldlM g.placeVertex {} = some d ∧ Placed g ks d := by
  have names : ks.zipIdx.map Prod.fst = ks := List.zipIdx_map_fst 0 ks
  have loop := foldlM_invariant (f := g.placeVertex) (l := ks.zipIdx) (s := {})
    (fun done d => Placed g (done.map Prod.fst) d) ⟨by simp, rfl, rfl, rfl⟩ ?round
  case round =>
    intro done v rest d split placed
    have at_v : ks.zipIdx[done.length]? = some v := by rw [split]; simp
    rw [List.getElem?_zipIdx, Option.map_eq_some_iff] at at_v
    obtain ⟨k, hk, rfl⟩ := at_v
    obtain ⟨w, hw⟩ := Finmap.mem_iff.mp (vertices k (List.mem_of_getElem? hk))
    have fresh : k ∉ done.map Prod.fst := by
      rw [← names, split, List.map_append, List.map_cons] at nodup
      exact fun mem => (List.nodup_append.mp nodup).2.2 k mem k List.mem_cons_self rfl
    have weight : g.weightAt k = w := by rw [Graph.weightAt, hw, Option.getD_some]
    have step : g.placeVertex d (k, 0 + done.length) = some { d with
        verticeWeight := d.verticeWeight ++ [w]
        verticeToPos := d.verticeToPos.insert k (done.map Prod.fst).length } := by
      rw [Graph.placeVertex, hw, Nat.zero_add, List.length_map]
      rfl
    rw [List.map_append, List.map_singleton]
    refine ⟨_, step, position_snoc placed.position fresh, ?_, placed.edges, placed.edgesWeight⟩
    rw [List.map_append, ← placed.weights, List.map_singleton, weight]
  obtain ⟨d, ran, placed⟩ := loop
  rw [names] at placed
  exact ⟨d, ran, placed⟩

/-- The rows of the vertices `ks`. -/
def rowsOf (order : g.RowOrder) (positions : UnorderedMap Int Nat) (ks : List Int) : List (List (Nat × Int)) :=
  ks.map fun v => adjacent positions (order v).entries

/-- What `multilevel_cut_data` builds, for the vertices `ks`. -/
structure Laid (g : Graph) (order : g.RowOrder) (ks : List Int) (d : InputGraph) : Prop where
  offsets : d.xEdges = offsetsFrom 0 (rowsOf order d.verticeToPos ks)
  edges : d.edges = (rowsOf order d.verticeToPos ks).flatten.map Prod.fst
  edgesWeight : d.edgesWeight = (rowsOf order d.verticeToPos ks).flatten.map Prod.snd

/-- A round of the second loop. -/
theorem pushRow_laid {order : g.RowOrder} {done : List Int} {v : Int} (mem : v ∈ g.edgesWeight)
    (laid : Laid g order done d) : ∃ d', g.pushRow order d v = some d' ∧ Laid g order (done ++ [v]) d' ∧
      d'.verticeToPos = d.verticeToPos ∧ d'.verticeWeight = d.verticeWeight := by
  have rows : rowsOf order d.verticeToPos (done ++ [v]) =
      rowsOf order d.verticeToPos done ++ [adjacent d.verticeToPos (order v).entries] := List.map_append
  unfold Graph.pushRow
  rw [if_pos mem, foldl_pushNeighbour]
  refine ⟨_, rfl, ⟨?_, ?_, ?_⟩, rfl, rfl⟩
  · have last : d.xEdges.getLastD 0 = 0 + (rowsOf order d.verticeToPos done).flatten.length := by
      rw [List.getLastD_eq_getLast?, laid.offsets, last_offsetsFrom, Option.getD_some]
    show d.xEdges ++ [d.xEdges.getLastD 0 + (0 + _)] = offsetsFrom 0 (rowsOf order d.verticeToPos (done ++ [v]))
    rw [last, rows, offsetsFrom_snoc, ← laid.offsets, Nat.zero_add (List.length (adjacent _ _))]
  · show d.edges ++ _ = (rowsOf order d.verticeToPos (done ++ [v])).flatten.map Prod.fst
    rw [laid.edges, rows, List.flatten_append, List.map_append, List.flatten_singleton]
  · show d.edgesWeight ++ _ = (rowsOf order d.verticeToPos (done ++ [v])).flatten.map Prod.snd
    rw [laid.edgesWeight, rows, List.flatten_append, List.map_append, List.flatten_singleton]

/-- What `multilevel_cut_data` builds. -/
structure Built (g : Graph) (order : g.RowOrder) (d : InputGraph) : Prop where
  position : ∀ k i, d.verticeToPos.lookup k = some i ↔ g.sortedVertex[i]? = some k
  weights : d.verticeWeight = g.sortedVertex.map g.weightAt
  laid : Laid g order g.sortedVertex d

theorem mem_sortedVertex {k : Int} : k ∈ g.sortedVertex ↔ k ∈ g.vertexWeight := by
  rw [Graph.sortedVertex, Finset.mem_sort, Finmap.mem_keys]

theorem length_sortedVertex (g : Graph) : g.sortedVertex.length = g.vertexWeight.size := Finset.length_sort _

/-- **`multilevel_cut_data`** does not throw where every vertex has a row. -/
theorem multilevelCutData_built (rows : ∀ k, k ∈ g.edgesWeight ↔ k ∈ g.vertexWeight) (order : g.RowOrder) :
    ∃ d, g.multilevelCutData order = some d ∧ Built g order d := by
  obtain ⟨d, first, placed⟩ := placeVertices (g := g) (Finset.sort_nodup g.vertexWeight.keys (· ≤ ·)) fun k mem =>
    mem_sortedVertex.mp mem
  have second := foldlM_invariant (f := g.pushRow order) (l := g.sortedVertex) (s := { d with xEdges := [0] })
    (fun done d' => Laid g order done d' ∧ d'.verticeToPos = d.verticeToPos ∧ d'.verticeWeight = d.verticeWeight)
    ⟨⟨rfl, placed.edges, placed.edgesWeight⟩, rfl, rfl⟩ ?round
  case round =>
    rintro done v rest d' split ⟨laid, positions, weights⟩
    have mem : v ∈ g.sortedVertex := by rw [split]; exact List.mem_append_right _ List.mem_cons_self
    obtain ⟨d'', step, laid, positions', weights'⟩ := pushRow_laid ((rows v).mpr (mem_sortedVertex.mp mem)) laid
    exact ⟨d'', step, laid, positions'.trans positions, weights'.trans weights⟩
  obtain ⟨d', ran, laid, positions, weights⟩ := second
  refine ⟨d', ?_, ?_, weights.trans placed.weights, laid⟩
  · rw [Graph.multilevelCutData, Graph.sortedVertex, first]
    exact ran
  · rw [positions]
    exact placed.position

end Loops

/-! ### The graph as a partitioner reads it -/

/-- A graph with a row for each vertex, whose edges join vertices, both ways, with positive weights. -/
structure Graph.WellFormed (g : Graph) : Prop where
  row : ∀ k, k ∈ g.edgesWeight ↔ k ∈ g.vertexWeight
  inside : ∀ a b, b ∈ g.edgesWeight.row a → b ∈ g.vertexWeight
  loopless : ∀ a, a ∉ g.edgesWeight.row a
  symmetric : ∀ a b, (g.edgesWeight.row a).lookup b = (g.edgesWeight.row b).lookup a
  heavy : ∀ k w, g.vertexWeight.lookup k = some w → 0 < w
  positive : ∀ a b w, (g.edgesWeight.row a).lookup b = some w → 0 < w
  nEdges : g.nEdges = g.edgePairs.card

/-- A graph that counts a window has what `multilevel_cut_data` relies on: edges between vertices, both ways, with one
weight, and none from a vertex to itself. -/
theorem Graph.Windowed.wellFormed {g : Graph} {W : List ClientMessage} (h : g.Windowed W) : g.WellFormed where
  row := h.row
  inside a b mem := by
    obtain ⟨w, hw⟩ := Finmap.mem_iff.mp mem
    rw [h.edge] at hw
    split at hw
    · rename_i both
      obtain ⟨-, m, inW, -, mb⟩ := both
      rw [Finmap.mem_iff]
      exact ⟨_, by rw [h.vertex, if_pos ⟨m, inW, mb⟩]⟩
    · cases hw
  loopless a mem := by
    obtain ⟨w, hw⟩ := Finmap.mem_iff.mp mem
    rw [h.edge, if_neg fun both => both.1 rfl] at hw
    cases hw
  symmetric := h.symmetric
  heavy k w hw := by
    rw [h.vertex] at hw
    split at hw
    · rename_i covered
      have some : 0 < W.countP (k ∈ ·.keys) := by
        rw [List.countP_pos_iff]
        simpa using covered
      cases hw
      omega
    · cases hw
  positive := h.positive
  nEdges := h.nEdges

theorem Workload.run_wellFormed {TL : Nat} {history : List ClientMessage} {w : Workload}
    (h : Workload.run TL history = some w) : w.workloadGraph.WellFormed :=
  (run_windowed h).wellFormed

namespace Graph.WellFormed

variable {g : Graph}

/-- Each edge is met twice, once from each end. -/
theorem two_mul_nEdges (wf : g.WellFormed) {pairs : List (Int × Int)} (nodup : pairs.Nodup)
    (mem : ∀ p, p ∈ pairs ↔ p.2 ∈ g.edgesWeight.row p.1) : (pairs.length : Int) = 2 * g.nEdges := by
  have mirrored : ∀ a b, b ∈ g.edgesWeight.row a ↔ a ∈ g.edgesWeight.row b := by
    intro a b
    rw [← Finmap.lookup_isSome, wf.symmetric, Finmap.lookup_isSome]
  have smaller : ∀ p, p ∈ g.edgePairs ↔ p.1 < p.2 ∧ p.2 ∈ g.edgesWeight.row p.1 := by
    intro p
    unfold edgePairs
    rw [Finset.mem_filter, Finset.mem_product, Finmap.mem_keys, Finmap.mem_keys, wf.row, wf.row]
    constructor
    · exact And.right
    · rintro ⟨lt, edge⟩
      exact ⟨⟨wf.inside _ _ ((mirrored _ _).mp edge), wf.inside _ _ edge⟩, lt, edge⟩
  have halves : pairs.toFinset = g.edgePairs ∪ g.edgePairs.image Prod.swap := by
    ext ⟨a, b⟩
    rw [List.mem_toFinset, mem, Finset.mem_union, smaller, Finset.mem_image]
    constructor
    · intro edge
      rcases lt_trichotomy a b with lt | rfl | lt
      · exact Or.inl ⟨lt, edge⟩
      · exact absurd edge (wf.loopless a)
      · exact Or.inr ⟨(b, a), (smaller (b, a)).mpr ⟨lt, (mirrored a b).mp edge⟩, rfl⟩
    · rintro (⟨-, edge⟩ | ⟨⟨c, d⟩, mem', eq⟩)
      · exact edge
      · cases eq
        exact (mirrored _ _).mp ((smaller _).mp mem').2
  have apart : Disjoint g.edgePairs (g.edgePairs.image Prod.swap) := by
    rw [Finset.disjoint_left]
    rintro ⟨a, b⟩ mem' swapped
    obtain ⟨⟨c, d⟩, mem'', eq⟩ := Finset.mem_image.mp swapped
    cases eq
    have lt := ((smaller _).mp mem').1
    have lt' := ((smaller _).mp mem'').1
    exact lt_asymm lt lt'
  have count : pairs.length = g.edgePairs.card + g.edgePairs.card := by
    rw [← List.toFinset_card_of_nodup nodup, halves, Finset.card_union_of_disjoint apart,
      Finset.card_image_of_injective _ Prod.swap_injective]
  rw [count, wf.nEdges]
  omega

end Graph.WellFormed

namespace Built

variable {g : Graph} {order : g.RowOrder} {d : InputGraph} {i : Nat} {k : Int}

theorem row_eq (built : Built g order d) (at_i : g.sortedVertex[i]? = some k) :
    d.row i = adjacent d.verticeToPos (order k).entries := by
  unfold InputGraph.row
  rw [built.laid.offsets, built.laid.edges, built.laid.edgesWeight, ← List.zip_of_prod rfl rfl]
  apply segment_flatten
  rw [rowsOf, List.getElem?_map, at_i, Option.map_some]

/-- A row lists the positions of the neighbours. -/
theorem mem_row (built : Built g order d) (at_i : g.sortedVertex[i]? = some k) {j : Nat} {w : Int} :
    (j, w) ∈ d.row i ↔ ∃ b, (g.edgesWeight.row k).lookup b = some w ∧ g.sortedVertex[j]? = some b := by
  rw [built.row_eq at_i, mem_adjacent]
  refine exists_congr fun b => ?_
  rw [(order k).listed, built.position]

theorem exists_vertex (i : Nat) (lt : i < g.vertexWeight.size) : ∃ k, g.sortedVertex[i]? = some k := by
  rw [← length_sortedVertex] at lt
  exact ⟨_, List.getElem?_eq_getElem lt⟩

/-- The edges of the rows, laid end to end, are the directed edges of the graph. -/
theorem length_edges (wf : g.WellFormed) (built : Built g order d) : (d.edges.length : Int) = 2 * g.nEdges := by
  have found : ∀ k, ∀ e ∈ (order k).entries, ∃ j, d.verticeToPos.lookup e.1 = some j := by
    rintro k ⟨b, w⟩ mem
    have edge : b ∈ g.edgesWeight.row k := Finmap.mem_of_lookup_eq_some (((order k).listed b w).mp mem)
    obtain ⟨j, hj⟩ := List.mem_iff_getElem?.mp (mem_sortedVertex.mpr (wf.inside k b edge))
    exact ⟨j, (built.position b j).mpr hj⟩
  let pairs := g.sortedVertex.flatMap fun k => (order k).entries.map fun e => (k, e.1)
  have length : d.edges.length = pairs.length := by
    rw [built.laid.edges, List.length_map, List.length_flatten, List.length_flatMap, rowsOf, List.map_map]
    refine congrArg List.sum (List.map_congr_left fun k _ => ?_)
    rw [Function.comp, length_adjacent (found k), List.length_map]
  have nodup : pairs.Nodup := by
    refine List.nodup_flatMap.mpr ⟨fun k _ => ?_, ?_⟩
    · have keys := (order k).nodup
      have same : (order k).entries.map (fun e => (k, e.1)) = ((order k).entries.map Prod.fst).map (Prod.mk k) := by
        rw [List.map_map]
        rfl
      rw [same]
      exact keys.map fun a b eq => (Prod.mk.inj eq).2
    · refine (Finset.sort_nodup g.vertexWeight.keys (· ≤ ·)).imp fun {k k'} ne => ?_
      intro p mem mem'
      obtain ⟨e, -, rfl⟩ := List.mem_map.mp mem
      obtain ⟨e', -, eq⟩ := List.mem_map.mp mem'
      exact ne (Prod.mk.inj eq).1.symm
  have mem : ∀ p, p ∈ pairs ↔ p.2 ∈ g.edgesWeight.row p.1 := by
    rintro ⟨a, b⟩
    show (a, b) ∈ List.flatMap _ _ ↔ b ∈ g.edgesWeight.row a
    rw [List.mem_flatMap, Finmap.mem_iff]
    constructor
    · rintro ⟨k, -, mem⟩
      obtain ⟨⟨b', w⟩, entry, eq⟩ := List.mem_map.mp mem
      cases eq
      exact ⟨w, ((order _).listed _ w).mp entry⟩
    · rintro ⟨w, hw⟩
      have edge : a ∈ g.edgesWeight.row b := by
        rw [← Finmap.lookup_isSome, wf.symmetric, hw]
        rfl
      exact ⟨a, mem_sortedVertex.mpr (wf.inside b a edge),
        List.mem_map.mpr ⟨(b, w), ((order a).listed b w).mpr hw, rfl⟩⟩
  rw [length]
  exact wf.two_mul_nEdges nodup mem

/-- **A valid input.** -/
theorem valid (wf : g.WellFormed) (built : Built g order d) : d.Valid g.vertexWeight.size where
  weights := by rw [built.weights, List.length_map, length_sortedVertex]
  offsets := by rw [built.laid.offsets, length_offsetsFrom, rowsOf, List.length_map, length_sortedVertex]
  first := by
    rw [built.laid.offsets]
    exact head_offsetsFrom
  monotone := by
    rw [built.laid.offsets]
    exact offsetsFrom_pairwise
  last := by rw [built.laid.offsets, last_offsetsFrom, built.laid.edges, List.length_map, Nat.zero_add]
  lengths := by rw [built.laid.edgesWeight, built.laid.edges, List.length_map, List.length_map]
  neighbour u mem := by
    rw [built.laid.edges] at mem
    obtain ⟨⟨j, w⟩, laid, rfl⟩ := List.mem_map.mp mem
    obtain ⟨row, inRows, inRow⟩ := List.mem_flatten.mp laid
    obtain ⟨k, -, rfl⟩ := List.mem_map.mp inRows
    obtain ⟨b, -, hj⟩ := mem_adjacent.mp inRow
    obtain ⟨lt, -⟩ := List.getElem?_eq_some_iff.mp ((built.position b j).mp hj)
    rw [← length_sortedVertex]
    exact lt
  vertices w mem := by
    rw [built.weights] at mem
    obtain ⟨k, inKeys, rfl⟩ := List.mem_map.mp mem
    obtain ⟨w, hw⟩ := Finmap.mem_iff.mp (mem_sortedVertex.mp inKeys)
    rw [Graph.weightAt, hw]
    exact wf.heavy k w hw
  positive w mem := by
    rw [built.laid.edgesWeight] at mem
    obtain ⟨⟨j, w⟩, laid, rfl⟩ := List.mem_map.mp mem
    obtain ⟨row, inRows, inRow⟩ := List.mem_flatten.mp laid
    obtain ⟨k, -, rfl⟩ := List.mem_map.mp inRows
    obtain ⟨b, entry, -⟩ := mem_adjacent.mp inRow
    exact wf.positive k b w (((order k).listed b w).mp entry)
  loopless i lt w mem := by
    obtain ⟨k, at_i⟩ := exists_vertex i lt
    obtain ⟨b, hb, at_i'⟩ := (built.mem_row at_i).mp mem
    obtain rfl : k = b := Option.some_inj.mp (at_i.symm.trans at_i')
    exact wf.loopless k (Finmap.mem_of_lookup_eq_some hb)
  distinct i lt := by
    obtain ⟨k, at_i⟩ := exists_vertex i lt
    rw [built.row_eq at_i, adjacent, List.map_filterMap]
    have keys : ((order k).entries.map Prod.fst).Nodup := (order k).nodup
    have positions : (order k).entries.filterMap
          (fun e => ((d.verticeToPos.lookup e.1).map (·, e.2)).map Prod.fst) =
        ((order k).entries.map Prod.fst).filterMap fun b => d.verticeToPos.lookup b := by
      rw [List.filterMap_map]
      congr 1
      funext e
      rw [Option.map_map]
      exact Option.map_id'
    rw [positions]
    apply keys.filterMap
    intro b b' j hj hj'
    have at_j := (built.position b j).mp hj
    have at_j' := (built.position b' j).mp hj'
    exact Option.some_inj.mp (at_j.symm.trans at_j')
  symmetric i lt j lt' w mem := by
    obtain ⟨a, at_i⟩ := exists_vertex i lt
    obtain ⟨b, at_j⟩ := exists_vertex j lt'
    obtain ⟨b', hb, at_j'⟩ := (built.mem_row at_i).mp mem
    obtain rfl : b = b' := Option.some_inj.mp (at_j.symm.trans at_j')
    exact (built.mem_row at_j).mpr ⟨a, (wf.symmetric b a).trans hb, at_i⟩

/-- **The input is the graph.** -/
theorem encodes (wf : g.WellFormed) (built : Built g order d) : d.Encodes g where
  domain k := by
    rw [Finmap.mem_iff, ← mem_sortedVertex, List.mem_iff_getElem?]
    exact exists_congr fun i => built.position k i
  bounded k i hi := by
    obtain ⟨lt, -⟩ := List.getElem?_eq_some_iff.mp ((built.position k i).mp hi)
    rw [← length_sortedVertex]
    exact lt
  onto i lt := by
    obtain ⟨k, at_i⟩ := exists_vertex i lt
    exact ⟨k, (built.position k i).mpr at_i⟩
  ordered k k' i i' hi hi' := by
    obtain ⟨lt, at_i⟩ := List.getElem?_eq_some_iff.mp ((built.position k i).mp hi)
    obtain ⟨lt', at_i'⟩ := List.getElem?_eq_some_iff.mp ((built.position k' i').mp hi')
    have sorted := List.pairwise_iff_getElem.mp (Finset.sortedLT_sort g.vertexWeight.keys).pairwise
    rcases Nat.lt_trichotomy i i' with less | rfl | more
    · have := sorted i i' lt lt' less
      exact iff_of_true (at_i ▸ at_i' ▸ this) less
    · exact iff_of_false (at_i ▸ at_i' ▸ lt_irrefl _) (Nat.lt_irrefl i)
    · have := sorted i' i lt' lt more
      exact iff_of_false (not_lt.mpr (at_i ▸ at_i' ▸ this).le) (by omega)
  weight k i hi := by
    have at_i := (built.position k i).mp hi
    obtain ⟨w, hw⟩ := Finmap.mem_iff.mp (mem_sortedVertex.mp (List.mem_of_getElem? at_i))
    rw [built.weights, List.getElem?_map, at_i, Option.map_some, Graph.weightAt, hw, Option.getD_some]
  edge a b w := by
    constructor
    · intro hw
      have edge : b ∈ g.edgesWeight.row a := Finmap.mem_of_lookup_eq_some hw
      have back : a ∈ g.edgesWeight.row b := Finmap.mem_of_lookup_eq_some ((wf.symmetric b a).trans hw)
      obtain ⟨i, at_i⟩ := List.mem_iff_getElem?.mp (mem_sortedVertex.mpr (wf.inside b a back))
      obtain ⟨j, at_j⟩ := List.mem_iff_getElem?.mp (mem_sortedVertex.mpr (wf.inside a b edge))
      exact ⟨i, j, (built.position a i).mpr at_i, (built.position b j).mpr at_j,
        (built.mem_row at_i).mpr ⟨b, hw, at_j⟩⟩
    · rintro ⟨i, j, hi, hj, mem⟩
      obtain ⟨b', hb, at_j⟩ := (built.mem_row ((built.position a i).mp hi)).mp mem
      obtain rfl : b = b' := Option.some_inj.mp (((built.position b j).mp hj).symm.trans at_j)
      exact hb
  size := length_edges wf built

end Built

/-- A copy of the graph has the vertices of the graph, each with a position in range. -/
theorem Workload.copied {TL : Nat} {history : List ClientMessage} {w : Workload} (h : Workload.run TL history = some w)
    {order : w.workloadGraph.RowOrder} {d : InputGraph} (copied : w.workloadGraph.multilevelCutData order = some d) :
    (∀ k, k ∈ d.verticeToPos ↔ k ∈ w.workloadGraph.vertexWeight) ∧
      ∀ k i, d.verticeToPos.lookup k = some i → i < d.verticeWeight.length := by
  have wf := Workload.run_wellFormed h
  obtain ⟨d', copied', built⟩ := multilevelCutData_built wf.row order
  obtain rfl : d = d' := Option.some_inj.mp (copied.symm.trans copied')
  refine ⟨(built.encodes wf).domain, fun k i hi => ?_⟩
  rw [(built.valid wf).weights]
  exact (built.encodes wf).bounded k i hi

/-! ### Reading the answer back -/

theorem partitionAt_of_range {n : Nat} {id : Int} (h : 0 ≤ id ∧ id < n) :
    ∃ p : Fin n, partitionAt n id = some p ∧ id = p := by
  refine ⟨⟨id.toNat, by omega⟩, dif_pos h, ?_⟩
  show id = (id.toNat : Int)
  omega

/-- **`partitioning`** maps each key to the partition of its own position. -/
theorem partitioning_spec {n : Nat} {d : InputGraph} (order : Iteration d.verticeToPos) {scheme : List Int}
    (positions : ∀ k i, d.verticeToPos.lookup k = some i → i < scheme.length)
    (inRange : ∀ p ∈ scheme, 0 ≤ p ∧ p < n) :
    ∃ map, partitioning n d order scheme = some map ∧
      ∀ k, map.lookup k = ((d.verticeToPos.lookup k).bind (scheme[·]?)).bind (partitionAt n) := by
  have loop := foldlM_invariant (f := assignKey scheme) (l := order.entries) (s := (∅ : UnorderedMap Int (Fin n)))
    (fun done map => ∀ k, map.lookup k =
      if k ∈ done.map Prod.fst then ((d.verticeToPos.lookup k).bind (scheme[·]?)).bind (partitionAt n) else none)
    ?init ?round
  case init =>
    intro k
    simp
  case round =>
    rintro done ⟨k, i⟩ rest map split assigned
    have hi : d.verticeToPos.lookup k = some i := by
      rw [← order.listed, split]
      exact List.mem_append_right _ List.mem_cons_self
    have at_i := List.getElem?_eq_getElem (positions k i hi)
    obtain ⟨p, hp, -⟩ := partitionAt_of_range (inRange _ (List.getElem_mem (positions k i hi)))
    have fresh : k ∉ done.map Prod.fst := by
      have nodup := order.nodup
      rw [split, List.map_append, List.map_cons] at nodup
      exact fun mem => (List.nodup_append.mp nodup).2.2 k mem k List.mem_cons_self rfl
    have absent : k ∉ map := by
      rw [← Finmap.lookup_eq_none, assigned, if_neg fresh]
    refine ⟨emplace map k p, ?_, fun k' => ?_⟩
    · rw [assignKey, at_i]
      show (partitionAt n _).bind _ = _
      rw [hp]
      rfl
    · rw [lookup_emplace, List.map_append, List.map_singleton, assigned]
      by_cases eq : k' = k
      · subst eq
        rw [if_pos ⟨rfl, absent⟩, if_pos (List.mem_append_right _ (List.mem_singleton_self _)), hi]
        show some p = (scheme[i]?).bind _
        rw [at_i, Option.bind_some, hp]
      · have same : k' ∈ done.map Prod.fst ++ [k] ↔ k' ∈ done.map Prod.fst := by
          rw [List.mem_append, List.mem_singleton]
          exact or_iff_left eq
        rw [if_neg fun both => eq both.1]
        exact (if_congr same rfl rfl).symm
  obtain ⟨map, ran, assigned⟩ := loop
  refine ⟨map, ran, fun k => ?_⟩
  rw [assigned]
  split
  · rfl
  · rename_i out
    rw [Finmap.lookup_eq_none.mpr fun mem => out (order.mem_keys.mpr mem), Option.bind_none, Option.bind_none]

/-- `partitioning` maps no other keys. -/
theorem mem_of_partitioning {n : Nat} {d : InputGraph} {order : Iteration d.verticeToPos} {scheme : List Int}
    {map : UnorderedMap Int (Fin n)} (ran : partitioning n d order scheme = some map) {k : Int} (mem : k ∈ map) :
    k ∈ d.verticeToPos := by
  have loop : ∀ (entries : List (Int × Nat)) (before : UnorderedMap Int (Fin n)),
      entries.foldlM (assignKey scheme) before = some map → k ∈ entries.map Prod.fst ∨ k ∈ before := by
    intro entries
    induction entries with
    | nil =>
      intro before eq
      cases eq
      exact Or.inr mem
    | cons it entries ih =>
      intro before eq
      rw [List.foldlM_cons] at eq
      obtain ⟨next, assigned, rest⟩ := Option.bind_eq_some_iff.mp eq
      obtain ⟨id, -, assigned⟩ := Option.bind_eq_some_iff.mp assigned
      obtain ⟨p, -, assigned⟩ := Option.bind_eq_some_iff.mp assigned
      cases assigned
      rcases ih _ rest with later | now
      · exact Or.inl (List.mem_cons_of_mem _ later)
      · rcases mem_emplace.mp now with rfl | old
        · exact Or.inl List.mem_cons_self
        · exact Or.inr old
  rcases loop order.entries ∅ ran with listed | new
  · exact order.mem_keys.mp listed
  · exact absurd new Finmap.notMem_empty

/-- What `partitioning` makes of a vector with one partition in range for each of `size` vertices. -/
theorem partitioning_assigns {n size : Nat} {d : InputGraph} (order : Iteration d.verticeToPos) {scheme : List Int}
    (bounded : ∀ k i, d.verticeToPos.lookup k = some i → i < size) (length : scheme.length = size)
    (inRange : ∀ p ∈ scheme, 0 ≤ p ∧ p < n) :
    ∃ map : UnorderedMap Int (Fin n), partitioning n d order scheme = some map ∧
      (∀ k, k ∈ map ↔ k ∈ d.verticeToPos) ∧
      ∀ k i, d.verticeToPos.lookup k = some i → ∃ p, map.lookup k = some p ∧ scheme[i]? = some (p : Int) := by
  have inside : ∀ k i, d.verticeToPos.lookup k = some i → i < scheme.length := by
    intro k i hi
    rw [length]
    exact bounded k i hi
  obtain ⟨map, ran, assigned⟩ := partitioning_spec order inside inRange
  have value : ∀ k i, d.verticeToPos.lookup k = some i → ∃ p, map.lookup k = some p ∧ scheme[i]? = some (p : Int) := by
    intro k i hi
    have at_i := List.getElem?_eq_getElem (inside k i hi)
    obtain ⟨p, hp, eq⟩ := partitionAt_of_range (inRange _ (List.getElem_mem (inside k i hi)))
    refine ⟨p, ?_, by rw [at_i, eq]⟩
    rw [assigned, hi, Option.bind_some, at_i, Option.bind_some, hp]
  refine ⟨map, ran, fun k => ?_, value⟩
  rw [← Finmap.lookup_isSome, ← Finmap.lookup_isSome]
  cases hi : d.verticeToPos.lookup k with
  | none =>
    rw [assigned, hi]
    rfl
  | some i =>
    obtain ⟨p, hp, -⟩ := value k i hi
    rw [hp]
    exact iff_of_true rfl rfl

/-- There are no more vertices than keys counted. -/
theorem size_le_keysCounted {g : Graph} {W : List ClientMessage} (h : g.Counts W) :
    g.vertexWeight.size ≤ keysCounted W := by
  have inside : g.vertexWeight.keys ⊆ (W.flatMap ClientMessage.keys).toFinset := by
    intro k mem
    have found := Finmap.lookup_isSome.mpr (Finmap.mem_keys.mp mem)
    rw [h.windowed.vertex k] at found
    split at found
    · rename_i covered
      exact List.mem_toFinset.mpr (List.mem_flatMap.mpr covered)
    · cases found
  have few := (Finset.card_le_card inside).trans (List.toFinset_card_le _)
  rw [List.length_flatMap] at few
  exact few

/-- What a valid input with few vertices and edges has for offsets and positions. -/
theorem InputGraph.ints {d : InputGraph} {g : Graph} (valid : d.Valid g.vertexWeight.size) (encodes : d.Encodes g)
    (vertices : g.vertexWeight.size < 2 ^ 31) (edges : 2 * g.nEdges < 2 ^ 31) : d.Ints where
  offsets x mem := by
    have length := encodes.size
    have last : x ≤ d.edges.length := by
      obtain ⟨front, eq⟩ := List.getLast?_eq_some_iff.mp valid.last
      have sorted := valid.monotone
      rw [eq] at sorted mem
      rcases List.mem_append.mp mem with before | here
      · exact (List.pairwise_append.mp sorted).2.2 x before _ (List.mem_singleton_self _)
      · exact (List.mem_singleton.mp here).le
    omega
  neighbours u mem := (valid.neighbour u mem).trans vertices
  positions k i at_i := (encodes.bounded k i at_i).trans vertices

/-- **The partitioner's input is the workload graph, and its answer is read back for the right keys**,
after any history of messages whose counts the graph's `int`s hold, and in whatever order the loops meet
the entries of the maps: `update_graph` and `expire` over the window, `InputGraph` with
`multilevel_cut_data`, and `partitioning` on any vector of one partition in range for each vertex. -/
theorem partitioner_reads_graph (TL : Nat) (history : List ClientMessage)
    (countable : ∀ m ∈ history, m.Countable) (fits : IntWeights.Fits TL history) :
    ∃ w, IntWeights.run TL history = some w ∧ (2 * w.workloadGraph.nEdges < 2 ^ 31 →
      ∀ order : w.workloadGraph.RowOrder, ∃ d, w.workloadGraph.multilevelCutData order = some d ∧
        d.Valid w.workloadGraph.vertexWeight.size ∧ d.Ints ∧ d.Encodes w.workloadGraph ∧
        ∀ (n : Nat) (loop : Iteration d.verticeToPos) (scheme : List Int),
          scheme.length = w.workloadGraph.vertexWeight.size → (∀ p ∈ scheme, 0 ≤ p ∧ p < n) →
          ∃ map : UnorderedMap Int (Fin n), partitioning n d loop scheme = some map ∧
            (∀ k, k ∈ map ↔ k ∈ w.workloadGraph.vertexWeight) ∧
            ∀ k i, d.verticeToPos.lookup k = some i → ∃ p, map.lookup k = some p ∧ scheme[i]? = some (p : Int)) := by
  obtain ⟨w, ran, -, counts⟩ := Workload.run_counts TL history countable
  have wf := counts.windowed.wellFormed
  refine ⟨w, (IntWeights.run_eq countable fits).trans ran, fun edges order => ?_⟩
  obtain ⟨d, run, built⟩ := multilevelCutData_built wf.row order
  have valid := built.valid wf
  have encodes := built.encodes wf
  have vertices : w.workloadGraph.vertexWeight.size < 2 ^ 31 :=
    (size_le_keysCounted counts).trans_lt fits.keys
  refine ⟨d, run, valid, InputGraph.ints valid encodes vertices edges, encodes, fun n loop scheme length inRange => ?_⟩
  obtain ⟨map, ran, domain, assigned⟩ := partitioning_assigns loop encodes.bounded length inRange
  exact ⟨map, ran, fun k => (domain k).trans (encodes.domain k), assigned⟩

/-- Two overlapping scans, the first of them expired: the keys 2 and 3 with one edge are left. -/
theorem partitioner_reads_graph_overlap :
    ∃ w, IntWeights.run 1 [{ type := .SCAN, key := 1, args := ['3'] }, { type := .SCAN, key := 2, args := ['2'] }] =
        some w ∧ (w.workloadGraph.nEdges = 1 ∧ w.workloadGraph.nVertex = 2) ∧
      ∀ order : w.workloadGraph.RowOrder, ∃ d, w.workloadGraph.multilevelCutData order = some d ∧
        d.Valid w.workloadGraph.vertexWeight.size ∧ d.Ints := by
  have countable : ∀ m ∈ [({ type := .SCAN, key := 1, args := ['3'] } : ClientMessage),
      { type := .SCAN, key := 2, args := ['2'] }], m.Countable := by
    intro m mem
    rcases List.mem_pair.mp mem with rfl | rfl
    · exact ⟨3, by decide, by decide⟩
    · exact ⟨2, by decide, by decide⟩
  have left : (IntWeights.run 1 [{ type := .SCAN, key := 1, args := ['3'] },
      { type := .SCAN, key := 2, args := ['2'] }]).all
      (fun w => w.workloadGraph.nEdges = 1 ∧ w.workloadGraph.nVertex = 2) = true := by decide +kernel
  obtain ⟨w, ran, rest⟩ := partitioner_reads_graph 1 _ countable (IntWeights.Fits.of_few (by decide) (by decide))
  rw [ran] at left
  have sizes := of_decide_eq_true left
  refine ⟨w, ran, sizes, fun order => ?_⟩
  obtain ⟨d, run, valid, ints, -⟩ := rest (by rw [sizes.1]; decide) order
  exact ⟨d, run, valid, ints⟩

/-- The partitioner reads the one weight of a graph of one key. -/
theorem oneVertex_weight (k weight : Int) (order : (IntWeights.oneVertex k weight).RowOrder) :
    ∃ d, (IntWeights.oneVertex k weight).multilevelCutData order = some d ∧ weight ∈ d.verticeWeight := by
  have same : ∀ k', k' ∈ (IntWeights.oneVertex k weight).edgesWeight ↔
      k' ∈ (IntWeights.oneVertex k weight).vertexWeight := by
    intro k'
    rw [IntWeights.oneVertex, Finmap.mem_insert, Finmap.mem_insert]
    exact or_congr_right (iff_of_false Finmap.notMem_empty Finmap.notMem_empty)
  obtain ⟨d, run, built⟩ := multilevelCutData_built same order
  refine ⟨d, run, ?_⟩
  have there : k ∈ (IntWeights.oneVertex k weight).sortedVertex :=
    mem_sortedVertex.mpr (Finmap.mem_insert.mpr (Or.inl rfl))
  have value : (IntWeights.oneVertex k weight).weightAt k = weight := by
    rw [Graph.weightAt, IntWeights.oneVertex, UnorderedMap.lookup_insert_ite, if_pos rfl]
    rfl
  rw [built.weights]
  exact List.mem_map.mpr ⟨k, there, value⟩

/-- A key that is written `2 ^ 31` times, where nothing expires, has a negative weight in the partitioner's
input. -/
theorem partitioner_reads_overflow :
    ∃ w, IntWeights.run 0 (List.replicate (2 ^ 31) { type := .WRITE, key := 0 }) = some w ∧
      ∀ order : w.workloadGraph.RowOrder, ∃ d, w.workloadGraph.multilevelCutData order = some d ∧
        -2 ^ 31 ∈ d.verticeWeight ∧ ¬ d.Valid w.workloadGraph.vertexWeight.size := by
  have overflow : Storage.toInt (2 ^ 31 : Nat) = -2 ^ 31 := by decide
  refine ⟨_, IntWeights.run_writes 0 (Nat.two_pow_pos 31), fun order => ?_⟩
  obtain ⟨d, run, weight⟩ := oneVertex_weight 0 _ order
  rw [overflow] at weight
  exact ⟨d, run, weight, fun valid => absurd (valid.vertices _ weight) (by decide)⟩

end KvPaxos
