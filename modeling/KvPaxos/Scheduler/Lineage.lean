import KvPaxos.Scheduler.Dispatch
import KvPaxos.Scheduler.InputGraph
import KvPaxos.Scheduler.Process
import KvPaxos.Scheduler.RoundRobin

/-!
# Where the live map comes from

A repartition replaces `data_to_partition_` by what `partitioning` makes of a copy of the workload graph, and
between two of them `dispatch` maps new keys and leaves the old ones where they are. So the live map is the
populated one, or a cut of the graph as it was after some of the messages, with more keys. `mark` says after how
many.
-/

namespace KvPaxos

open Lib UnorderedMap

variable {n : Nat}

/-- There is no such object at this place. -/
theorem absent {α : Type} {o : Option α} {P : α → Prop} (none : o = none) : ∀ a, o = some a → P a := by
  intro a eq
  cases none.symm.trans eq

/-- `dispatch` keeps the partitions. -/
theorem Mapping.keeps_involved {m m' : Mapping n} {message : ClientMessage} {partitions : Finset (Fin n)}
    (h : m.involvedPartitions message = some (m', partitions)) : KeepsPartitions m.dataToPartition m'.dataToPartition :=
  (involvedPartitions_spec h).kept

/-- `InputGraph<T>(workload_graph_)` after the messages. -/
def Copied (TL : Nat) (history : List ClientMessage) (d : InputGraph) : Prop :=
  ∃ w, Workload.run TL history = some w ∧ w.workloadGraph.multilevelCutData (fun _ => .sorted _) = some d

/-- The same after the populate requests and the first `k` messages. -/
def CopiedAt (TL : Nat) (populated seen : List ClientMessage) (k : Nat) (d : InputGraph) : Prop :=
  k ≤ seen.length ∧ Copied TL (populated ++ seen.take k) d

/-- More messages are seen. -/
theorem CopiedAt.later {TL k : Nat} {populated seen seen' : List ClientMessage} {d : InputGraph}
    (h : CopiedAt TL populated seen k d) (more : seen <+: seen') : CopiedAt TL populated seen' k d := by
  obtain ⟨le, copied⟩ := h
  obtain ⟨rest, rfl⟩ := more
  refine ⟨by rw [List.length_append]; omega, ?_⟩
  rw [List.take_append_of_le_length le]
  exact copied

/-- The copy is of the graph as it is. -/
theorem CopiedAt.last {TL : Nat} {populated seen : List ClientMessage} {d : InputGraph}
    (copied : Copied TL (populated ++ seen) d) : CopiedAt TL populated seen seen.length d :=
  ⟨le_rfl, by rwa [List.take_length]⟩

/-- What `partitioning` makes of a graph, with one partition in range for each vertex. -/
def CutOf (d : InputGraph) (map : UnorderedMap Int (Fin n)) : Prop :=
  ∃ scheme : List Int, scheme.length = d.verticeWeight.length ∧ (∀ p ∈ scheme, 0 ≤ p ∧ p < n) ∧
    partitioning n d (.sorted _) scheme = some map

/-- **The cut has the keys of the window**, and no others. -/
theorem CutOf.mem_iff {TL : Nat} {history : List ClientMessage} {d : InputGraph} {map : UnorderedMap Int (Fin n)}
    (h : CutOf d map) (copied : Copied TL history d) (real : ∀ m ∈ history, m.type ≠ .DUMMY) (k : Int) :
    k ∈ map ↔ ∃ m ∈ Workload.window TL history, k ∈ m.keys := by
  obtain ⟨scheme, length, inRange, built⟩ := h
  obtain ⟨w, ran, copied⟩ := copied
  obtain ⟨domain, bounded⟩ := Workload.copied ran copied
  obtain ⟨map', built', same, -⟩ := partitioning_assigns (.sorted d.verticeToPos) bounded length inRange
  obtain rfl : map = map' := Option.some_inj.mp (built.symm.trans built')
  obtain ⟨w', ran', -, counts⟩ := Workload.run_counts TL history (Workload.run_countable ran)
  obtain rfl : w = w' := Option.some_inj.mp (ran.symm.trans ran')
  have none : Workload.lingering TL history = [] := by
    unfold Workload.lingering
    split
    · rfl
    · refine List.filter_eq_nil_iff.mpr fun m mem dummy => ?_
      exact real m (List.mem_of_mem_take mem) (of_decide_eq_true dummy)
  rw [none, List.nil_append] at counts
  have vertex := counts.windowed.vertex k
  rw [same k, domain k, ← Finmap.lookup_isSome, vertex]
  split <;> simp_all

/-- Populate requests and what clients send are no dummies. -/
theorem CutMethod.counted_real {method : CutMethod} {cfg : StopTheWorld.Config n} {submitted : List ClientMessage}
    (clients : ∀ m ∈ submitted, m.IsClient) : ∀ m ∈ method.counted cfg ++ submitted, m.type ≠ .DUMMY := by
  intro m mem dummy
  rcases List.mem_append.mp mem with old | new
  · have write : m ∈ cfg.populateRequests := by
      unfold CutMethod.counted at old
      split at old
      · cases old
      · exact old
    obtain ⟨key, -, rfl⟩ := List.mem_map.mp write
    cases dummy
  · rcases clients m new with request | last
    · exact request.not_dummy dummy
    · cases dummy.symm.trans last

/-- Where a live map comes from: from the populate requests, or from the graph after the populate requests and
the first `k` messages. -/
inductive Descends (TL : Nat) (populated : List ClientMessage) (start : UnorderedMap Int (Fin n)) (seen : List ClientMessage)
    (map : UnorderedMap Int (Fin n)) : Option Nat → Prop
  | populated (more : KeepsPartitions start map) : Descends TL populated start seen map none
  | cut {k : Nat} {d : InputGraph} {base : UnorderedMap Int (Fin n)} (copied : CopiedAt TL populated seen k d)
      (cut : CutOf d base) (more : KeepsPartitions base map) : Descends TL populated start seen map (some k)

namespace Descends

variable {TL : Nat} {populated seen seen' : List ClientMessage} {start map map' : UnorderedMap Int (Fin n)} {mark : Option Nat}

theorem extend (h : Descends TL populated start seen map mark) (more : KeepsPartitions map map') :
    Descends TL populated start seen map' mark := by
  cases h with
  | populated before => exact .populated (before.trans more)
  | cut copied cut before => exact .cut copied cut (before.trans more)

/-- More messages are seen. -/
theorem later (h : Descends TL populated start seen map mark) (more : seen <+: seen') :
    Descends TL populated start seen' map mark := by
  cases h with
  | populated before => exact .populated before
  | cut copied cut before => exact .cut (copied.later more) cut before

/-- No key of the window has been forgotten. -/
theorem maps_window {k : Nat} (h : Descends TL populated start seen map (some k))
    (real : ∀ m ∈ populated ++ seen, m.type ≠ .DUMMY) {key : Int}
    (covered : ∃ m ∈ Workload.window TL (populated ++ seen.take k), key ∈ m.keys) : key ∈ map := by
  cases h with
  | cut copied cut more =>
    have cutReal : ∀ m ∈ populated ++ seen.take k, m.type ≠ .DUMMY := by
      intro m mem
      rcases List.mem_append.mp mem with old | new
      · exact real m (List.mem_append_left _ old)
      · exact real m (List.mem_append_right _ (List.mem_of_mem_take new))
    obtain ⟨p, here⟩ := Finmap.mem_iff.mp ((cut.mem_iff copied.2 cutReal key).mpr covered)
    exact Finmap.mem_of_lookup_eq_some (more key p here)

end Descends

end KvPaxos
