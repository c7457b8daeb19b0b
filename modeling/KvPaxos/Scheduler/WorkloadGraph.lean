import KvPaxos.Graph.Weights
import KvPaxos.Lib.Loops
import KvPaxos.Types.ClientMessage

/-!
# The sliding window over the workload

`update_graph` and `expire`, and the window step that `process_populate_request` and
`update_graph_loop` share: count a message, push it on the deletion queue, pop the front
and expire it. The pairs of loops over `i` and `j > i` are written over the list of keys
the message covers: an outer step takes a key, the inner loop the keys after it.

Expiring goes from the last key to the first, so when the edges of a key are taken off,
the keys after it may have gone with their rows; the decrement brings such a row back and
the removal that follows takes it away again. `weighted_expireKeys` carries this through
both loops, from the masses of the messages still in the window.
-/

namespace KvPaxos

open Lib Finsupp

namespace Graph

/-- `update_graph`, the inner loop's body. -/
def countEdge (i : Int) (g : Graph) (j : Int) : Graph :=
  ((g.addVertice j).addEdge i j).incrementEdgeWeight i j 1

/-- `update_graph`, the loops. -/
def countKeys : List Int → Graph → Graph
  | [], g => g
  | i :: js, g => countKeys js (js.foldl (countEdge i) ((g.addVertice i).incrementVerticeWeight i 1))

/-- `expire`, the inner loop's body. -/
def expireEdge (i j : Int) (g : Graph) : Graph :=
  ((g.incrementEdgeWeight i j (-1)).removeWeightlessEdge i j).removeWeightlessVertice j

/-- `expire`, the loops: the last key first. -/
def expireKeys : List Int → Graph → Graph
  | [], g => g
  | i :: js, g =>
    ((js.foldr (expireEdge i) (expireKeys js g)).incrementVerticeWeight i (-1)).removeWeightlessVertice i

end Graph

/-- `update_graph`; `none` where `stoi` throws. A negative length becomes a huge unsigned bound
and runs the indexes out of `int`: `none` as well. -/
def updateGraph (g : Graph) (message : ClientMessage) : Option Graph :=
  message.range.bind fun dataSize =>
    if dataSize < 0 then none else some (g.countKeys (message.keysFrom dataSize))

/-- `expire`; `none` where `stoi` throws. -/
def expire (g : Graph) (message : ClientMessage) : Option Graph :=
  if message.type = .DUMMY then some g
  else message.range.map fun dataSize => g.expireKeys (message.keysFrom dataSize)

/-- `workload_graph_` and `graph_deletion_queue_`. -/
structure Workload where
  workloadGraph : Graph := {}
  graphDeletionQueue : List ClientMessage := []

namespace Workload

/-- The constructor: `TL` dummies wait in the deletion queue. -/
def start (TL : Nat) : Workload where
  graphDeletionQueue := List.replicate TL { type := .DUMMY }

/-- One message of `process_populate_request` or `update_graph_loop`. -/
def observe (TL : Nat) (w : Workload) (request : ClientMessage) : Option Workload := do
  let g ← updateGraph w.workloadGraph request
  if TL = 0 then
    return { w with workloadGraph := g }
  else match w.graphDeletionQueue ++ [request] with
    | [] => none
    | expired :: rest =>
      let g ← expire g expired
      return { workloadGraph := g, graphDeletionQueue := rest }

/-- The state after the messages of `history`. -/
def run (TL : Nat) (history : List ClientMessage) : Option Workload :=
  history.foldlM (observe TL) (start TL)

/-- The messages the graph stands for: the last `TL`, or all of them where nothing expires. -/
def window (TL : Nat) (history : List ClientMessage) : List ClientMessage :=
  if TL = 0 then history else history.drop (history.length - TL)

end Workload

/-! ### Masses -/

/-- What counting the keys adds to the vertices. -/
noncomputable def vertexMass (keys : List Int) : Int →₀ ℤ :=
  (keys.map fun k => single k 1).sum

/-- What counting an edge from `i` to each of `js` adds. -/
noncomputable def starMass (i : Int) (js : List Int) : Sym2 Int →₀ ℤ :=
  (js.map fun j => single s(i, j) 1).sum

/-- What counting the keys adds to the edges. -/
noncomputable def edgeMass : List Int → Sym2 Int →₀ ℤ
  | [] => 0
  | i :: js => starMass i js + edgeMass js

section Masses

variable {keys js : List Int} {i a b : Int}

theorem vertexMass_cons (i : Int) (js : List Int) : vertexMass (i :: js) = single i 1 + vertexMass js := rfl

theorem starMass_cons (i j : Int) (js : List Int) : starMass i (j :: js) = single s(i, j) 1 + starMass i js := rfl

theorem edgeMass_cons (i : Int) (js : List Int) : edgeMass (i :: js) = starMass i js + edgeMass js := rfl

/-- A key is counted once. -/
theorem vertexMass_apply (nodup : keys.Nodup) : vertexMass keys a = if a ∈ keys then 1 else 0 := by
  induction keys with
  | nil => rfl
  | cons i js ih =>
    obtain ⟨out, nodup⟩ := List.nodup_cons.mp nodup
    rw [vertexMass_cons, Finsupp.add_apply, ih nodup]
    by_cases eq : a = i
    · subst eq
      simp [out]
    · simp [eq, single_eq_of_ne eq]

theorem starMass_apply (out : i ∉ js) (nodup : js.Nodup) (e : Sym2 Int) :
    starMass i js e = if ∃ j ∈ js, e = s(i, j) then 1 else 0 := by
  induction js with
  | nil => simp [starMass]
  | cons j js ih =>
    obtain ⟨fresh, nodup⟩ := List.nodup_cons.mp nodup
    rw [List.mem_cons, not_or] at out
    rw [starMass_cons, Finsupp.add_apply, ih out.2 nodup]
    by_cases eq : e = s(i, j)
    · have later : ¬∃ j' ∈ js, e = s(i, j') := by
        rintro ⟨j', mem, eq'⟩
        rw [eq, Sym2.congr_right] at eq'
        exact fresh (eq' ▸ mem)
      rw [if_neg later, if_pos ⟨j, List.mem_cons_self, eq⟩, eq, single_eq_same]
      rfl
    · rw [single_eq_of_ne eq, zero_add]
      refine if_congr ?_ rfl rfl
      simp [eq]

/-- An edge is counted once, between each two of the keys. -/
theorem edgeMass_apply (nodup : keys.Nodup) :
    edgeMass keys s(a, b) = if a ≠ b ∧ a ∈ keys ∧ b ∈ keys then 1 else 0 := by
  induction keys with
  | nil => simp [edgeMass]
  | cons i js ih =>
    obtain ⟨out, nodup⟩ := List.nodup_cons.mp nodup
    rw [edgeMass_cons, Finsupp.add_apply, ih nodup, starMass_apply out nodup]
    have star : (∃ j ∈ js, s(a, b) = s(i, j)) ↔ a = i ∧ b ∈ js ∨ b = i ∧ a ∈ js := by
      constructor
      · rintro ⟨j, mem, eq⟩
        rcases Sym2.eq_iff.mp eq with ⟨rfl, rfl⟩ | ⟨rfl, rfl⟩
        · exact Or.inl ⟨rfl, mem⟩
        · exact Or.inr ⟨rfl, mem⟩
      · rintro (⟨rfl, mem⟩ | ⟨rfl, mem⟩)
        · exact ⟨b, mem, rfl⟩
        · exact ⟨a, mem, Sym2.eq_swap⟩
    rw [if_congr star rfl rfl]
    by_cases ha : a = i <;> by_cases hb : b = i
    · subst ha hb
      simp [out]
    · subst ha
      simp [out, hb, Ne.symm hb]
    · subst hb
      simp [out, ha]
    · simp [ha, hb]

end Masses

/-! ### The loops -/

section Loops

variable {g : Graph} {vs : Finset Int} {vw : Int →₀ ℤ} {ew : Sym2 Int →₀ ℤ} {i : Int} {keys js : List Int}

namespace Graph

/-- No weight is negative, and only vertices have edges. -/
structure Closed (vs : Finset Int) (ew : Sym2 Int →₀ ℤ) : Prop where
  nonneg : ∀ e, 0 ≤ ew e
  outside : ∀ a ∉ vs, ∀ b, ew s(a, b) = 0

theorem Closed.insert (h : Closed vs ew) (a : Int) : Closed (insert a vs) ew where
  nonneg := h.nonneg
  outside c out b := h.outside c (fun mem => out (Finset.mem_insert_of_mem mem)) b

theorem Closed.add (h : Closed vs ew) {a b : Int} (ma : a ∈ vs) (mb : b ∈ vs) :
    Closed vs (ew + single s(a, b) 1) where
  nonneg e := by
    have here := h.nonneg e
    have there : (0 : ℤ) ≤ single s(a, b) 1 e := by
      rw [single_apply]
      split <;> decide
    rw [Finsupp.add_apply]
    omega
  outside c out d := by
    have ne : s(c, d) ≠ s(a, b) := by
      intro eq
      rcases Sym2.eq_iff.mp eq with ⟨rfl, -⟩ | ⟨rfl, -⟩
      · exact out ma
      · exact out mb
    rw [Finsupp.add_apply, single_eq_of_ne ne, h.outside c out d, add_zero]

/-- The inner loop of `update_graph`. -/
theorem weighted_countEdges (h : Weighted g vs vw ew) (closed : Closed vs ew) (mem : i ∈ vs) (out : i ∉ js) :
    Weighted (js.foldl (countEdge i) g) (vs ∪ js.toFinset) vw (ew + starMass i js) ∧
      Closed (vs ∪ js.toFinset) (ew + starMass i js) := by
  induction js generalizing g vs ew with
  | nil =>
    simp only [starMass, List.map_nil, List.sum_nil, add_zero, List.toFinset_nil, Finset.union_empty, List.foldl_nil]
    exact ⟨h, closed⟩
  | cons j js ih =>
    rw [List.mem_cons, not_or] at out
    have mi : i ∈ insert j vs := Finset.mem_insert_of_mem mem
    have mj : j ∈ insert j vs := Finset.mem_insert_self j vs
    have linked : Weighted (countEdge i g j) (insert j vs) vw (ew + single s(i, j) 1) :=
      (h.addVertice fun new => closed.outside j new).link mi mj out.1 (closed.nonneg _)
    have next := ih linked ((closed.insert j).add mi mj) mi out.2
    rw [List.foldl_cons, starMass_cons, ← add_assoc, List.toFinset_cons, Finset.union_insert, ← Finset.insert_union]
    exact next

/-- **`update_graph`** adds the masses of its keys. -/
theorem weighted_countKeys (nodup : keys.Nodup) (h : Weighted g vs vw ew) (closed : Closed vs ew) :
    Weighted (g.countKeys keys) (vs ∪ keys.toFinset) (vw + vertexMass keys) (ew + edgeMass keys) := by
  induction keys generalizing g vs vw ew with
  | nil =>
    simp only [vertexMass, edgeMass, List.map_nil, List.sum_nil, add_zero, List.toFinset_nil, Finset.union_empty]
    exact h
  | cons i js ih =>
    obtain ⟨out, nodup⟩ := List.nodup_cons.mp nodup
    have mi : i ∈ insert i vs := Finset.mem_insert_self i vs
    have counted : Weighted ((g.addVertice i).incrementVerticeWeight i 1) (insert i vs) (vw + single i 1) ew :=
      (h.addVertice fun new => closed.outside i new).incrementVerticeWeight mi 1
    obtain ⟨inner, closed⟩ := weighted_countEdges counted (closed.insert i) mi out
    have next := ih nodup inner closed
    have sets : insert i vs ∪ js.toFinset ∪ js.toFinset = vs ∪ (i :: js).toFinset := by
      rw [Finset.union_assoc, Finset.union_self, List.toFinset_cons, Finset.union_insert, Finset.insert_union]
    rw [sets, add_assoc, add_assoc] at next
    exact next

/-- The inner loop of `expire`: every later key is either still there with a weight, or gone, and
then nothing but this message holds the edge to it. -/
theorem weighted_expireEdges (h : Weighted g vs vw (ew + starMass i js)) (mem : i ∈ vs) (out : i ∉ js)
    (nodup : js.Nodup) (nonneg : ∀ e, 0 ≤ ew e)
    (other : ∀ j ∈ js, j ∈ vs ∧ vw j ≠ 0 ∨ j ∉ vs ∧ ew s(i, j) = 0) :
    Weighted (js.foldr (expireEdge i) g) vs vw ew := by
  induction js generalizing ew with
  | nil =>
    rw [starMass, List.map_nil, List.sum_nil, add_zero] at h
    exact h
  | cons j js ih =>
    obtain ⟨fresh, nodup⟩ := List.nodup_cons.mp nodup
    rw [List.mem_cons, not_or] at out
    rw [starMass_cons, ← add_assoc] at h
    have apart : ∀ j' ∈ js, s(i, j') ≠ s(i, j) := by
      intro j' mem' eq
      rw [Sym2.congr_right] at eq
      exact fresh (eq ▸ mem')
    have before : Weighted (js.foldr (expireEdge i) g) vs vw (ew + single s(i, j) 1) := by
      apply ih h out.2 nodup
      · intro e
        have here := nonneg e
        have there : (0 : ℤ) ≤ single s(i, j) 1 e := by
          rw [single_apply]
          split <;> decide
        rw [Finsupp.add_apply]
        omega
      · intro j' mem'
        rw [Finsupp.add_apply, single_eq_of_ne (apart j' mem'), add_zero]
        exact other j' (List.mem_cons_of_mem j mem')
    have value : (ew + single s(i, j) 1 : Sym2 Int →₀ ℤ) s(i, j) = ew s(i, j) + 1 := by
      rw [Finsupp.add_apply, single_eq_same]
    have at_j : j ∈ vs ∧ vw j ≠ 0 ∨ j ∉ vs ∧ (ew + single s(i, j) 1 : Sym2 Int →₀ ℤ) s(i, j) = 1 := by
      rw [value]
      rcases other j List.mem_cons_self with there | ⟨gone, zero⟩
      · exact Or.inl there
      · exact Or.inr ⟨gone, by omega⟩
    have pos := nonneg s(i, j)
    have dropped := before.drop mem out.1 (by omega) at_j
    rw [add_assoc, ← single_add, Int.add_right_neg, single_zero, add_zero] at dropped
    exact dropped

/-- **`expire`** takes the masses of its keys off again. The rest must hold no edge between two of
the keys more often than it holds either of them. -/
theorem weighted_expireKeys (nodup : keys.Nodup)
    (h : Weighted g (vw + vertexMass keys).support (vw + vertexMass keys) (ew + edgeMass keys))
    (vnonneg : ∀ a, 0 ≤ vw a) (enonneg : ∀ e, 0 ≤ ew e)
    (bound : ∀ a ∈ keys, ∀ b ∈ keys, a ≠ b → ew s(a, b) ≤ vw b) :
    Weighted (g.expireKeys keys) vw.support vw ew := by
  induction keys generalizing g vw ew with
  | nil =>
    simp only [vertexMass, edgeMass, List.map_nil, List.sum_nil, add_zero] at h
    exact h
  | cons i js ih =>
    obtain ⟨out, nodup⟩ := List.nodup_cons.mp nodup
    have far : ∀ j ∈ js, j ≠ i := by
      rintro j mem rfl
      exact out mem
    have later : Weighted (g.expireKeys js) (vw + single i 1).support (vw + single i 1) (ew + starMass i js) := by
      rw [vertexMass_cons, edgeMass_cons, ← add_assoc, ← add_assoc] at h
      apply ih nodup h
      · intro a
        have here := vnonneg a
        have there : (0 : ℤ) ≤ single i 1 a := by
          rw [single_apply]
          split <;> decide
        rw [Finsupp.add_apply]
        omega
      · intro e
        have here := enonneg e
        have there : 0 ≤ starMass i js e := by
          rw [starMass_apply out nodup]
          split <;> decide
        rw [Finsupp.add_apply]
        omega
      · intro a ma b mb ne
        have apart : ¬∃ j ∈ js, s(a, b) = s(i, j) := by
          rintro ⟨j, -, eq⟩
          rcases Sym2.eq_iff.mp eq with ⟨eq, -⟩ | ⟨-, eq⟩
          · exact far a ma eq
          · exact far b mb eq
        rw [Finsupp.add_apply, Finsupp.add_apply, starMass_apply out nodup, if_neg apart, single_eq_of_ne (far b mb),
          add_zero, add_zero]
        exact bound a (List.mem_cons_of_mem i ma) b (List.mem_cons_of_mem i mb) ne
    have here := vnonneg i
    have weight : (vw + single i 1 : Int →₀ ℤ) i = vw i + 1 := by
      rw [Finsupp.add_apply, single_eq_same]
    have mem : i ∈ (vw + single i 1).support := by
      rw [mem_support_iff, weight]
      omega
    have edges : Weighted (js.foldr (expireEdge i) (g.expireKeys js)) (vw + single i 1).support (vw + single i 1) ew := by
      apply weighted_expireEdges later mem out nodup enonneg
      intro j mj
      have same : (vw + single i 1 : Int →₀ ℤ) j = vw j := by
        rw [Finsupp.add_apply, single_eq_of_ne (far j mj), add_zero]
      rw [mem_support_iff, same]
      by_cases zero : vw j = 0
      · have small := bound i List.mem_cons_self j (List.mem_cons_of_mem i mj) (far j mj).symm
        have pos := enonneg s(i, j)
        exact Or.inr ⟨not_not.mpr zero, by omega⟩
      · exact Or.inl ⟨zero, zero⟩
    have final := (edges.incrementVerticeWeight mem (-1)).removeWeightlessVertice (a := i)
    rw [add_assoc, ← single_add, Int.add_right_neg, single_zero, add_zero] at final
    have support : (if vw i = 0 then (vw + single i 1).support.erase i else (vw + single i 1).support) = vw.support := by
      ext a
      by_cases eq : a = i
      · subst eq
        split
        · rename_i zero
          simp [zero]
        · rename_i some
          simp only [mem_support_iff, weight]
          exact iff_of_true (by omega) some
      · have same : (vw + single i 1 : Int →₀ ℤ) a = vw a := by
          rw [Finsupp.add_apply, single_eq_of_ne eq, add_zero]
        split
        · simp [same, eq]
        · rw [mem_support_iff, mem_support_iff, same]
    rw [support] at final
    exact final

end Graph

end Loops

/-! ### The window -/

/-- The vertex weights of the messages `W`. -/
noncomputable def windowVertexMass (W : List ClientMessage) : Int →₀ ℤ :=
  (W.map fun m => vertexMass m.keys).sum

/-- The edge weights of the messages `W`. -/
noncomputable def windowEdgeMass (W : List ClientMessage) : Sym2 Int →₀ ℤ :=
  (W.map fun m => edgeMass m.keys).sum

/-- The graph counts the messages `W`. -/
def Graph.Counts (g : Graph) (W : List ClientMessage) : Prop :=
  g.Weighted (windowVertexMass W).support (windowVertexMass W) (windowEdgeMass W)

section Window

variable {W : List ClientMessage} {m : ClientMessage} {g : Graph} {a b : Int}

theorem windowVertexMass_cons (m : ClientMessage) (W : List ClientMessage) :
    windowVertexMass (m :: W) = vertexMass m.keys + windowVertexMass W := rfl

theorem windowEdgeMass_cons (m : ClientMessage) (W : List ClientMessage) :
    windowEdgeMass (m :: W) = edgeMass m.keys + windowEdgeMass W := rfl

theorem windowVertexMass_snoc (W : List ClientMessage) (m : ClientMessage) :
    windowVertexMass (W ++ [m]) = windowVertexMass W + vertexMass m.keys := by
  simp [windowVertexMass]

theorem windowEdgeMass_snoc (W : List ClientMessage) (m : ClientMessage) :
    windowEdgeMass (W ++ [m]) = windowEdgeMass W + edgeMass m.keys := by
  simp [windowEdgeMass]

theorem keys_nodup (m : ClientMessage) : m.keys.Nodup := m.keysFrom_nodup _

/-- A vertex weighs as many messages as contain its key. -/
theorem windowVertexMass_apply (W : List ClientMessage) (a : Int) :
    windowVertexMass W a = (W.countP (a ∈ ·.keys) : Nat) := by
  induction W with
  | nil => rfl
  | cons m W ih =>
    rw [windowVertexMass_cons, Finsupp.add_apply, ih, vertexMass_apply (keys_nodup m), List.countP_cons]
    split
    · simp_all
      omega
    · simp_all

/-- An edge weighs as many messages as contain both of its keys. -/
theorem windowEdgeMass_apply (W : List ClientMessage) (a b : Int) :
    windowEdgeMass W s(a, b) = if a = b then 0 else (W.countP fun m => a ∈ m.keys ∧ b ∈ m.keys : Nat) := by
  induction W with
  | nil => simp [windowEdgeMass]
  | cons m W ih =>
    rw [windowEdgeMass_cons, Finsupp.add_apply, ih, edgeMass_apply (keys_nodup m), List.countP_cons]
    by_cases eq : a = b
    · simp [eq]
    · by_cases both : a ∈ m.keys ∧ b ∈ m.keys
      · simp [eq, both]
        omega
      · simp [eq, both]

theorem windowVertexMass_nonneg (W : List ClientMessage) (a : Int) : 0 ≤ windowVertexMass W a := by
  rw [windowVertexMass_apply]
  exact Int.natCast_nonneg _

theorem windowEdgeMass_nonneg (W : List ClientMessage) (e : Sym2 Int) : 0 ≤ windowEdgeMass W e := by
  induction e using Sym2.inductionOn with
  | _ a b =>
    rw [windowEdgeMass_apply]
    split
    · exact le_rfl
    · exact Int.natCast_nonneg _

/-- An edge weighs no more than either of its ends. -/
theorem windowEdgeMass_le (W : List ClientMessage) (a b : Int) : windowEdgeMass W s(a, b) ≤ windowVertexMass W b := by
  rw [windowEdgeMass_apply, windowVertexMass_apply]
  split
  · exact Int.natCast_nonneg _
  · have le : (W.countP fun m => a ∈ m.keys ∧ b ∈ m.keys) ≤ W.countP (b ∈ ·.keys) :=
      List.countP_mono_left fun m _ both => decide_eq_true (of_decide_eq_true both).2
    exact Int.ofNat_le.mpr le

/-- The order of the messages does not matter. -/
theorem Graph.Counts.perm {W' : List ClientMessage} (h : g.Counts W) (same : W.Perm W') : g.Counts W' := by
  have vertices : windowVertexMass W' = windowVertexMass W := (same.map _).sum_eq.symm
  have edges : windowEdgeMass W' = windowEdgeMass W := (same.map _).sum_eq.symm
  unfold Graph.Counts
  rw [vertices, edges]
  exact h

/-- A message `update_graph` can count: if it is a SCAN, its length is readable and not negative. -/
def ClientMessage.Countable (m : ClientMessage) : Prop :=
  ∃ r, m.range = some r ∧ 0 ≤ r

theorem ClientMessage.IsRequest.countable (h : m.IsRequest) : m.Countable := by
  obtain ⟨r, hr, pos⟩ := h.range
  exact ⟨r, hr, by omega⟩

theorem ClientMessage.IsRequest.not_dummy (h : m.IsRequest) : m.type ≠ .DUMMY := by
  rcases h.type with eq | eq | eq <;> rw [eq] <;> decide

/-- `update_graph` adds a message to what the graph counts. -/
theorem Graph.Counts.update (h : g.Counts W) (countable : m.Countable) :
    ∃ g', updateGraph g m = some g' ∧ g'.Counts (W ++ [m]) := by
  obtain ⟨r, hr, pos⟩ := countable
  have keys : m.keysFrom r = m.keys := by rw [ClientMessage.keys, hr, Option.getD_some]
  refine ⟨g.countKeys m.keys, ?_, ?_⟩
  · rw [updateGraph, hr, Option.bind_some, if_neg (by omega), keys]
  · have closed : Graph.Closed (windowVertexMass W).support (windowEdgeMass W) := by
      refine ⟨windowEdgeMass_nonneg W, fun a out b => ?_⟩
      have small := windowEdgeMass_le W b a
      have nonneg := windowEdgeMass_nonneg W s(a, b)
      rw [Sym2.eq_swap, notMem_support_iff.mp out] at small
      exact le_antisymm small nonneg
    have counted := Graph.weighted_countKeys (keys_nodup m) h closed
    have support : (windowVertexMass W).support ∪ m.keys.toFinset = (windowVertexMass (W ++ [m])).support := by
      ext a
      have nonneg := windowVertexMass_nonneg W a
      rw [Finset.mem_union, List.mem_toFinset, mem_support_iff, mem_support_iff, windowVertexMass_snoc,
        Finsupp.add_apply, vertexMass_apply (keys_nodup m)]
      split
      · rename_i mem
        exact iff_of_true (Or.inr mem) (by omega)
      · rename_i out
        rw [add_zero]
        exact or_iff_left out
    rw [support, ← windowVertexMass_snoc, ← windowEdgeMass_snoc] at counted
    exact counted

/-- `expire` takes the oldest message from what the graph counts, unless it is a dummy: a dummy that
was counted stays. -/
theorem Graph.Counts.expire (h : g.Counts (m :: W)) (countable : m.Countable) :
    ∃ g', KvPaxos.expire g m = some g' ∧ g'.Counts (if m.type = .DUMMY then m :: W else W) := by
  obtain ⟨r, hr, -⟩ := countable
  have keys : m.keysFrom r = m.keys := by rw [ClientMessage.keys, hr, Option.getD_some]
  unfold KvPaxos.expire
  by_cases dummy : m.type = .DUMMY
  · rw [if_pos dummy, if_pos dummy]
    exact ⟨g, rfl, h⟩
  · rw [if_neg dummy, if_neg dummy]
    refine ⟨g.expireKeys m.keys, by rw [hr, Option.map_some, keys], ?_⟩
    unfold Graph.Counts at h
    rw [windowVertexMass_cons, windowEdgeMass_cons, add_comm (vertexMass _), add_comm (edgeMass _)] at h
    exact Graph.weighted_expireKeys (keys_nodup m) h (windowVertexMass_nonneg W) (windowEdgeMass_nonneg W)
      fun a _ b _ _ => windowEdgeMass_le W a b

theorem Graph.counts_empty : Graph.Counts {} [] := Graph.weighted_empty

namespace Workload

/-- What the deletion queue holds: dummies, then the window. -/
def deletionQueue (TL : Nat) (history : List ClientMessage) : List ClientMessage :=
  if TL = 0 then [] else List.replicate (TL - history.length) { type := .DUMMY } ++ window TL history

/-- Dummies among the messages, which were counted and never expire. -/
def lingering (TL : Nat) (history : List ClientMessage) : List ClientMessage :=
  if TL = 0 then [] else (history.take (history.length - TL)).filter (·.type = .DUMMY)

/-- **One message** moves the window on by one. -/
theorem observe_counts {TL : Nat} {history : List ClientMessage} {w : Workload}
    (before : ∀ m ∈ history, m.Countable) (countable : m.Countable)
    (queue : w.graphDeletionQueue = deletionQueue TL history)
    (h : w.workloadGraph.Counts (lingering TL history ++ window TL history)) :
    ∃ w', observe TL w m = some w' ∧ w'.graphDeletionQueue = deletionQueue TL (history ++ [m]) ∧
      w'.workloadGraph.Counts (lingering TL (history ++ [m]) ++ window TL (history ++ [m])) := by
  obtain ⟨g, update, counts⟩ := h.update countable
  unfold observe
  rw [update, Option.bind_eq_bind, Option.bind_some]
  by_cases zero : TL = 0
  · rw [if_pos zero]
    refine ⟨_, rfl, ?_, ?_⟩
    · rw [queue, deletionQueue, deletionQueue, if_pos zero, if_pos zero]
    · rw [lingering, window, if_pos zero, if_pos zero] at counts ⊢
      exact counts
  · rw [if_neg zero]
    by_cases filling : history.length < TL
    · -- a dummy of the constructor is popped and the window grows
      have whole : ∀ l : List ClientMessage, l.length ≤ TL → window TL l = l ∧ lingering TL l = [] := by
        intro l le
        rw [window, lingering, if_neg zero, if_neg zero, show l.length - TL = 0 by omega]
        exact ⟨rfl, rfl⟩
      obtain ⟨now, none⟩ := whole history (by omega)
      obtain ⟨next, none'⟩ := whole (history ++ [m]) (by rw [List.length_append, List.length_singleton]; omega)
      have dummies : List.replicate (TL - history.length) ({ type := .DUMMY } : ClientMessage) =
          { type := .DUMMY } :: List.replicate (TL - (history.length + 1)) { type := .DUMMY } := by
        rw [← List.replicate_succ]
        congr 1
        omega
      rw [queue, deletionQueue, if_neg zero, dummies]
      refine ⟨_, rfl, ?_, ?_⟩
      · rw [deletionQueue, if_neg zero, now, next, List.length_append, List.length_singleton]
        exact List.append_assoc _ _ _
      · rw [next, none']
        rw [now, none] at counts
        exact counts
    · -- the oldest message is popped
      obtain ⟨oldest, mem, now, next, linger⟩ : ∃ oldest ∈ history,
          window TL history = oldest :: history.drop (history.length - TL + 1) ∧
          window TL (history ++ [m]) = history.drop (history.length - TL + 1) ++ [m] ∧
          lingering TL (history ++ [m]) =
            lingering TL history ++ if oldest.type = .DUMMY then [oldest] else [] := by
        have inside : history.length - TL < history.length := by omega
        have later : (history ++ [m]).length - TL = history.length - TL + 1 := by
          rw [List.length_append, List.length_singleton]
          omega
        refine ⟨history[history.length - TL], List.getElem_mem _, ?_, ?_, ?_⟩
        · rw [window, if_neg zero]
          exact List.drop_eq_getElem_cons inside
        · rw [window, if_neg zero, later]
          exact List.drop_append_of_le_length (by omega)
        · rw [lingering, lingering, if_neg zero, if_neg zero, later, List.take_append_of_le_length (by omega),
            ← List.take_concat_get' history _ inside, List.filter_append, List.filter_singleton]
          simp
      have none : ∀ n, TL ≤ n → List.replicate (TL - n) ({ type := .DUMMY } : ClientMessage) = [] := by
        intro n le
        rw [Nat.sub_eq_zero_of_le le, List.replicate_zero]
      rw [now, List.append_assoc, List.cons_append] at counts
      obtain ⟨g', expired, counts⟩ := (counts.perm List.perm_middle).expire (before oldest mem)
      rw [queue, deletionQueue, if_neg zero, none _ (by omega), now]
      refine ⟨{ workloadGraph := g', graphDeletionQueue := history.drop (history.length - TL + 1) ++ [m] },
        ?_, ?_, ?_⟩
      · show (KvPaxos.expire g oldest).bind _ = _
        rw [expired]
        rfl
      · rw [deletionQueue, if_neg zero, List.length_append, List.length_singleton, none _ (by omega), next]
        rfl
      · rw [next, linger]
        by_cases dummy : oldest.type = .DUMMY
        · rw [if_pos dummy] at counts ⊢
          rw [List.append_assoc]
          exact counts.perm List.perm_middle.symm
        · rw [if_neg dummy] at counts ⊢
          rw [List.append_nil]
          exact counts

/-- **Every history** leaves the graph counting its window, and the dummies that were in it. -/
theorem run_counts (TL : Nat) (history : List ClientMessage) (countable : ∀ m ∈ history, m.Countable) :
    ∃ w, run TL history = some w ∧ w.graphDeletionQueue = deletionQueue TL history ∧
      w.workloadGraph.Counts (lingering TL history ++ window TL history) := by
  apply foldlM_invariant (f := observe TL) fun done w => w.graphDeletionQueue = deletionQueue TL done ∧
    w.workloadGraph.Counts (lingering TL done ++ window TL done)
  · have empty : lingering TL [] ++ window TL [] = [] := by
      by_cases zero : TL = 0 <;> simp [lingering, window, zero]
    refine ⟨?_, ?_⟩
    · by_cases zero : TL = 0 <;> simp [deletionQueue, start, window, zero]
    · show Graph.Counts {} _
      rw [empty]
      exact Graph.counts_empty
  · intro done m rest w eq keep
    have before : ∀ m' ∈ done, m'.Countable := fun m' mem => countable m' (by rw [eq]; exact List.mem_append_left _ mem)
    have last : m.Countable := countable m (by rw [eq]; exact List.mem_append_right _ List.mem_cons_self)
    exact observe_counts before last keep.1 keep.2

/-- No request lingers. -/
theorem lingering_requests {TL : Nat} {history : List ClientMessage} (requests : ∀ m ∈ history, m.IsRequest) :
    lingering TL history = [] := by
  unfold lingering
  split
  · rfl
  · rw [List.filter_eq_nil_iff]
    intro m mem dummy
    exact (requests m (List.mem_of_mem_take mem)).not_dummy (of_decide_eq_true dummy)

end Workload

/-- The graph as a reader sees it: every field says how many messages of `W` contain a key, or
two keys. -/
structure Graph.Windowed (g : Graph) (W : List ClientMessage) : Prop where
  vertex : ∀ k, g.vertexWeight.lookup k =
    if ∃ m ∈ W, k ∈ m.keys then some ((W.countP (k ∈ ·.keys) : Nat) : Int) else none
  row : ∀ k, k ∈ g.edgesWeight ↔ k ∈ g.vertexWeight
  edge : ∀ a b, (g.edgesWeight.row a).lookup b =
    if a ≠ b ∧ ∃ m ∈ W, a ∈ m.keys ∧ b ∈ m.keys then
      some ((W.countP fun m => a ∈ m.keys ∧ b ∈ m.keys : Nat) : Int)
    else none
  symmetric : ∀ a b, (g.edgesWeight.row a).lookup b = (g.edgesWeight.row b).lookup a
  positive : ∀ a b w, (g.edgesWeight.row a).lookup b = some w → 0 < w
  nEdges : g.nEdges = g.edgePairs.card
  totalVertex : g.totalVertexWeight = ∑ k ∈ g.vertexWeight.keys, g.weightAt k
  totalEdges : g.totalEdgesWeight = ∑ p ∈ g.edgePairs, g.edgesWeight.edge p.1 p.2

/-- From the masses of the window to the five fields: a vertex or an edge is there exactly if its mass is not zero,
and the number of edges and the totals are sums over what is there. -/
theorem Graph.Counts.windowed (h : g.Counts W) : g.Windowed W := by
  have covered : ∀ k, k ∈ (windowVertexMass W).support ↔ ∃ m ∈ W, k ∈ m.keys := by
    intro k
    rw [mem_support_iff, windowVertexMass_apply, Int.natCast_ne_zero, Nat.ne_zero_iff_zero_lt, List.countP_pos_iff]
    simp
  have both : ∀ a b, windowEdgeMass W s(a, b) ≠ 0 ↔ a ≠ b ∧ ∃ m ∈ W, a ∈ m.keys ∧ b ∈ m.keys := by
    intro a b
    rw [windowEdgeMass_apply]
    split
    · rename_i eq
      simp [eq]
    · rename_i ne
      rw [Int.natCast_ne_zero, Nat.ne_zero_iff_zero_lt, List.countP_pos_iff]
      simp [ne]
  have inside : ∀ a ∉ (windowVertexMass W).support, ∀ b, windowEdgeMass W s(a, b) = 0 := by
    intro a out b
    by_contra some
    obtain ⟨-, m, mem, ma, -⟩ := (both a b).mp some
    exact out ((covered a).mpr ⟨m, mem, ma⟩)
  refine ⟨fun k => ?_, h.row_iff, fun a b => ?_, h.symmetric inside, fun a b w hw => ?_, h.nEdges_eq inside,
    h.totalVertex_eq, h.totalEdges_eq inside⟩
  · rw [h.vertex, windowVertexMass_apply]
    exact if_congr (covered k) rfl rfl
  · rw [h.lookup_row inside a b]
    by_cases edge : a ≠ b ∧ ∃ m ∈ W, a ∈ m.keys ∧ b ∈ m.keys
    · rw [if_pos edge, if_neg ((both a b).mpr edge), windowEdgeMass_apply, if_neg edge.1]
    · rw [if_neg edge, if_pos (not_not.mp fun some => edge ((both a b).mp some))]
  · rw [h.lookup_row inside a b] at hw
    have nonneg := windowEdgeMass_nonneg W s(a, b)
    split at hw
    · cases hw
    · cases hw
      omega

namespace Workload

theorem observe_countable {TL : Nat} {w w' : Workload} (h : observe TL w m = some w') : m.Countable := by
  obtain ⟨g, update, -⟩ := Option.bind_eq_some_iff.mp h
  obtain ⟨r, hr, counted⟩ := Option.bind_eq_some_iff.mp update
  split at counted
  · cases counted
  · rename_i nonneg
    exact ⟨r, hr, by omega⟩

theorem run_snoc (TL : Nat) (history : List ClientMessage) (m : ClientMessage) :
    run TL (history ++ [m]) = (run TL history).bind fun w => observe TL w m := by
  simp only [run, List.foldlM_append, List.foldlM_cons, List.foldlM_nil, bind_pure]
  rfl

theorem run_countable {TL : Nat} {history : List ClientMessage} {w : Workload} (h : run TL history = some w) :
    ∀ m ∈ history, m.Countable := by
  induction history using List.reverseRecOn generalizing w with
  | nil => exact nofun
  | append_singleton history m ih =>
    rw [run_snoc] at h
    obtain ⟨before, ran, step⟩ := Option.bind_eq_some_iff.mp h
    intro m' mem
    rcases List.mem_append.mp mem with mem | mem
    · exact ih ran m' mem
    · rw [List.mem_singleton.mp mem]
      exact observe_countable step

/-- A run that goes through counts its window and the dummies that linger. -/
theorem run_windowed {TL : Nat} {history : List ClientMessage} {w : Workload} (h : run TL history = some w) :
    w.workloadGraph.Windowed (lingering TL history ++ window TL history) := by
  obtain ⟨w', ran, -, counts⟩ := run_counts TL history (run_countable h)
  obtain rfl : w = w' := Option.some_inj.mp (h.symm.trans ran)
  exact counts.windowed

theorem run_mem {TL : Nat} {history : List ClientMessage} {w : Workload} (h : run TL history = some w) (k : Int) :
    k ∈ w.workloadGraph.vertexWeight ↔ ∃ m ∈ lingering TL history ++ window TL history, k ∈ m.keys := by
  rw [← Finmap.lookup_isSome, (run_windowed h).vertex k]
  split <;> simp_all

/-- Every vertex is a key of a message that was counted. -/
theorem run_source {TL : Nat} {history : List ClientMessage} {w : Workload} (h : run TL history = some w) {k : Int}
    (vertex : k ∈ w.workloadGraph.vertexWeight) : ∃ m ∈ history, k ∈ m.keys := by
  obtain ⟨m, mem, key⟩ := (run_mem h k).mp vertex
  refine ⟨m, ?_, key⟩
  rcases List.mem_append.mp mem with mem | mem
  · unfold lingering at mem
    split at mem
    · cases mem
    · exact List.mem_of_mem_take (List.mem_of_mem_filter mem)
  · unfold window at mem
    split at mem
    · exact mem
    · exact List.mem_of_mem_drop mem

/-- Without expiry the vertices are the keys of the whole history. -/
theorem run_vertices {history : List ClientMessage} {w : Workload} (h : run 0 history = some w) (k : Int) :
    k ∈ w.workloadGraph.vertexWeight ↔ ∃ m ∈ history, k ∈ m.keys := by
  rw [run_mem h]
  rfl

/-- The message just counted is in the window. -/
theorem last_mem_window (TL : Nat) (history : List ClientMessage) (m : ClientMessage) :
    m ∈ window TL (history ++ [m]) := by
  unfold window
  split
  · exact List.mem_append_right _ (List.mem_singleton_self m)
  · rw [List.drop_append_of_le_length (by rw [List.length_append, List.length_singleton]; omega)]
    exact List.mem_append_right _ (List.mem_singleton_self m)

/-- The graph has the keys of the message just counted. -/
theorem run_last {TL : Nat} {history : List ClientMessage} {w : Workload} (h : run TL (history ++ [m]) = some w)
    {k : Int} (mem : k ∈ m.keys) : k ∈ w.workloadGraph.vertexWeight :=
  (run_mem h k).mpr ⟨m, List.mem_append_right _ (last_mem_window TL history m), mem⟩

end Workload

/-- **The sliding window.** After any history of requests behind the DUMMYs that the constructor queues,
`update_graph` and `expire` leave the graph that counts exactly the last `TL` of them (all of them where `TL` is
zero): the weight of each vertex and edge, the number of edges and the two totals. What has come down to zero is gone,
so no vertex or edge is left that the window does not have. -/
theorem workload_windowed (TL : Nat) (history : List ClientMessage) (requests : ∀ m ∈ history, m.IsRequest) :
    ∃ w, Workload.run TL history = some w ∧ w.workloadGraph.Windowed (Workload.window TL history) := by
  obtain ⟨w, ran, -, counts⟩ := Workload.run_counts TL history fun m mem => (requests m mem).countable
  rw [Workload.lingering_requests requests, List.nil_append] at counts
  exact ⟨w, ran, counts.windowed⟩

/-- The keys 1, 2, 3 and then 2, 3 again, in a window of one message. -/
theorem workload_windowed_overlap : ∃ w,
    Workload.run 1 [{ type := .SCAN, key := 1, args := ['3'] }, { type := .SCAN, key := 2, args := ['2'] }] = some w ∧
      w.workloadGraph.Windowed [{ type := .SCAN, key := 2, args := ['2'] }] :=
  workload_windowed 1 _ (by decide)

end Window

end KvPaxos
