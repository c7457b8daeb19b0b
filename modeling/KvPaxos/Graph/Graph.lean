import Mathlib.Data.Finset.Prod
import Mathlib.Data.Finset.Sort
import KvPaxos.Lib.UnorderedMap

/-!
# The workload graph

`model::Graph<int>`: vertex weights and adjacency rows in unordered maps, with running
totals, mutated as the C++ does. `operator[]` on a missing key creates it, so touching a
row that has been erased brings it back empty; `row` and `edge` read what such an access
finds, and `setEdge` is the store through both indices.
-/

namespace KvPaxos

open Lib

/-- An `edges_weight_t`. -/
abbrev Rows := UnorderedMap Int (UnorderedMap Int Int)

/-- `model::Graph`. The weights, `n_edges_` and the totals are integers here; the source has `int` weights and
totals, which `IntWeights` adds up as an `int` does. -/
structure Graph where
  vertexWeight : UnorderedMap Int Int := ∅
  edgesWeight : Rows := ∅
  nEdges : Int := 0
  totalVertexWeight : Int := 0
  totalEdgesWeight : Int := 0

namespace Rows

/-- `rows[a]`. -/
def row (rows : Rows) (a : Int) : UnorderedMap Int Int := (rows.lookup a).getD ∅

/-- `rows[a][b]`. -/
def edge (rows : Rows) (a b : Int) : Int := ((row rows a).lookup b).getD 0

/-- `rows[a][b] = w`. -/
def setEdge (rows : Rows) (a b w : Int) : Rows := rows.insert a ((row rows a).insert b w)

/-- `rows[a].erase(b)`. -/
def eraseEdge (rows : Rows) (a b : Int) : Rows := rows.insert a ((row rows a).erase b)

end Rows

namespace Graph

/-- `add_vertice`. -/
def addVertice (g : Graph) (data : Int) : Graph :=
  if data ∈ g.vertexWeight then g
  else { g with
    vertexWeight := g.vertexWeight.insert data 0
    edgesWeight := g.edgesWeight.insert data ∅ }

/-- `n_vertex`. -/
def nVertex (g : Graph) : Nat := UnorderedMap.size g.vertexWeight

/-- `vertex_weight_[v]`. -/
def weightAt (g : Graph) (v : Int) : Int := (g.vertexWeight.lookup v).getD 0

/-- `increment_vertice_weight`, over the integers; `IntWeights.incrementVerticeWeight` is the one in `int`. -/
def incrementVerticeWeight (g : Graph) (data weight : Int) : Graph :=
  { g with
    vertexWeight := g.vertexWeight.insert data (g.weightAt data + weight)
    totalVertexWeight := g.totalVertexWeight + weight }

/-- `remove_weightless_vertice`; the entry that reading a missing vertex creates is erased at once. -/
def removeWeightlessVertice (g : Graph) (vertice : Int) : Graph :=
  if g.weightAt vertice = 0 then { g with
    vertexWeight := g.vertexWeight.erase vertice
    edgesWeight := g.edgesWeight.erase vertice }
  else g

/-- `add_edge`. -/
def addEdge (g : Graph) (a b : Int) : Graph :=
  if b ∈ g.edgesWeight.row a then g
  else { g with
    edgesWeight := (g.edgesWeight.setEdge a b 0).setEdge b a 0
    nEdges := g.nEdges + 1 }

/-- `increment_edge_weight`, over the integers; `IntWeights.incrementEdgeWeight` is the one in `int`. -/
def incrementEdgeWeight (g : Graph) (a b value : Int) : Graph :=
  let rows : Rows := g.edgesWeight.setEdge a b (g.edgesWeight.edge a b + value)
  { g with
    edgesWeight := rows.setEdge b a (rows.edge b a + value)
    totalEdgesWeight := g.totalEdgesWeight + value }

/-- `remove_weightless_edge`; the entry that reading a missing edge creates is erased at once, the
rows stay. -/
def removeWeightlessEdge (g : Graph) (a b : Int) : Graph :=
  if g.edgesWeight.edge a b = 0 then { g with
    nEdges := g.nEdges - 1
    edgesWeight := (g.edgesWeight.eraseEdge b a).eraseEdge a b }
  else g

/-- The unordered pairs with an edge, the smaller key first. -/
def edgePairs (g : Graph) : Finset (Int × Int) :=
  (g.edgesWeight.keys ×ˢ g.edgesWeight.keys).filter fun p => p.1 < p.2 ∧ p.2 ∈ g.edgesWeight.row p.1

/-- `sorted_vertex`. -/
def sortedVertex (g : Graph) : List Int := g.vertexWeight.keys.sort (· ≤ ·)

end Graph

end KvPaxos
