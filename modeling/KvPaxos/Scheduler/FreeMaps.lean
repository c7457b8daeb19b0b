import KvPaxos.Scheduler.ControlMessages
import KvPaxos.Scheduler.FreeProcess
import KvPaxos.Scheduler.Lineage

/-!
# By which map an asynchronous scheduler dispatches

The graph thread copies the graph at most once for each request it counts, so the orders are of ever longer
prefixes; `marks` says of which. The maps are made and swapped in in the order of the orders, so no dispatch goes
back to a cut of an older graph: `freeScheduler_informed`.
-/

namespace KvPaxos

open Lib UnorderedMap FlowControl

namespace FreeScheduler

variable {n : Nat} {method : CutMethod} {cfg : Config n} {s s' : State n} {l : Label} {marks : List Nat}

/-! ### The orders -/

/-- The graph thread has counted a request and ordered nothing since. -/
def GraphThread.fresh : GraphThread → Bool
  | .tallying | .waitingItem | .waitingAhead | .popping | .releasing _ | .updating _ | .restarting => false
  | _ => true

/-- The graph that is to be posted. -/
def GraphThread.toPost (inputGraph : InputGraph) : GraphThread → Option InputGraph
  | .assigning copied => some copied
  | .posting => some inputGraph
  | _ => none

theorem fresh_done (v : Variant) : v.done.fresh = false := by cases v <;> rfl

theorem toPost_variants (v : Variant) (d : InputGraph) : v.head.toPost d = none ∧ v.observed.toPost d = none ∧
    v.unclaimed.toPost d = none ∧ v.achieved.toPost d = none ∧ v.sized.toPost d = none ∧ v.raised.toPost d = none ∧
    v.done.toPost d = none := by
  cases v <;> exact ⟨rfl, rfl, rfl, rfl, rfl, rfl, rfl⟩

/-- What has been ordered, each graph with the number of messages it has. -/
structure Marked (method : CutMethod) (cfg : Config n) (s : State n) (marks : List Nat) : Prop where
  workload : Workload.run cfg.TL (method.counted cfg.toConfig ++ s.processed) = some s.workload
  ordered : List.Forall₂ (CopiedAt cfg.TL (method.counted cfg.toConfig) s.processed) marks s.ordered
  increasing : marks.Pairwise (· < ·)
  fresh : s.graphThread.fresh = true → ∀ k ∈ marks, k < s.processed.length
  toPost : ∀ d, s.graphThread.toPost s.inputGraph = some d → Copied cfg.TL (method.counted cfg.toConfig ++ s.processed) d

theorem Marked.past (h : Marked method cfg s marks) : ∀ k ∈ marks, k ≤ s.processed.length :=
  ((List.forall₂_and_left _ _).mp h.ordered).1

/-- The graph thread goes on without an order. -/
theorem Marked.graphTo (h : Marked method cfg s marks) {g : GraphThread}
    (fresh : g.fresh = true → s.graphThread.fresh = true) (none : g.toPost s.inputGraph = none) :
    Marked method cfg { s with graphThread := g } marks :=
  ⟨h.workload, h.ordered, h.increasing, fun on => h.fresh (fresh on), absent none⟩

/-- Nothing has been ordered. -/
theorem Marked.still (h : Marked method cfg s' marks) : ∃ more, Marked method cfg s' (marks ++ more) :=
  ⟨[], by rwa [List.append_nil]⟩

/-- **Each step keeps the orders** and adds the one it posts. -/
theorem marked_move (h : Marked method cfg s marks) (move : Move cfg s l s') : ∃ more, Marked method cfg s' (marks ++ more) := by
  obtain ⟨head, observed, unclaimed, achieved, sized, raised, done⟩ := toPost_variants cfg.variant s.inputGraph
  cases move with
  | @observe b request w place counted =>
    refine Marked.still ⟨?_, h.ordered.imp fun k d copied => copied.later (List.prefix_append _ _), h.increasing, fun _ k mem => ?_, absent observed⟩
    · rw [← List.append_assoc, Workload.run_snoc, h.workload]
      exact counted
    · rw [List.length_append, List.length_singleton]
      exact Nat.lt_succ_of_le (h.past k mem)
  | post place =>
    -- the graph thread has counted a request since the last order
    have newer := h.fresh (by rw [place]; rfl)
    have copied := h.toPost s.inputGraph (by rw [place]; rfl)
    refine ⟨[s.processed.length], h.workload, List.rel_append h.ordered (.cons (.last copied) .nil), ?_, fun on => ?_, absent done⟩
    · refine List.pairwise_append.mpr ⟨h.increasing, List.pairwise_singleton _ _, fun k mem m last => ?_⟩
      rw [List.mem_singleton.mp last]
      exact newer k mem
    · exact absurd ((fresh_done cfg.variant).symm.trans on) Bool.false_ne_true
  | copy place copies =>
    have fresh := h.fresh (by rw [place]; rfl)
    refine Marked.still ⟨h.workload, h.ordered, h.increasing, fun _ => fresh, fun d eq => ?_⟩
    cases eq
    exact ⟨s.workload, h.workload, copies⟩
  | assign place =>
    have fresh := h.fresh (by rw [place]; rfl)
    have copied := h.toPost
    rw [place] at copied
    exact Marked.still ⟨h.workload, h.ordered, h.increasing, fun _ => fresh, copied⟩
  | graphBusy place | graphSkip place | empty place =>
    refine Marked.still (h.graphTo (fun on => ?_) (by assumption))
    rw [place]
    rfl
  | graphFree place | graphStart place | sized place | imbalanced place | seeRequest place =>
    refine Marked.still (h.graphTo (fun _ => ?_) (by first | assumption | rfl))
    rw [place]
    rfl
  | lowerRequest place =>
    have fresh := h.fresh (by rw [place]; rfl)
    exact Marked.still ⟨h.workload, h.ordered, h.increasing, fun _ => fresh, absent rfl⟩
  | graphRaise place =>
    have fresh := h.fresh (by rw [place]; rfl)
    exact Marked.still ⟨h.workload, h.ordered, h.increasing, fun _ => fresh, absent raised⟩
  | tally | item1 | ahead1 | pop1 | release1 | balanced | noRequest | graphRestart =>
    exact Marked.still ⟨h.workload, h.ordered, h.increasing, fun on => (by cases on), absent rfl⟩
  | _ =>
    exact Marked.still ⟨h.workload, h.ordered, h.increasing, h.fresh, h.toPost⟩

/-! ### The maps -/

/-- The maps made, each by its graph, and the one that is live. -/
structure Swapped (cfg : Config n) (s : State n) : Prop where
  made : ∀ p ∈ s.produced, p.2 < s.heap.next ∧ ∃ base : UnorderedMap Int (Fin n), CutOf p.1 base ∧
    ∀ map, s.heap.cells p.2 = some map → KeepsPartitions base map
  installed : ∀ p, s.installed.getLast? = some p → s.dataToPartition = p
  populated : s.installed = [] → ∀ map, s.heap.cells s.dataToPartition = some map →
    KeepsPartitions cfg.populatedMapping.dataToPartition map

/-- A step that leaves the maps alone, or deletes one. -/
theorem Swapped.frame (h : Swapped cfg s) (next : s'.heap.next = s.heap.next)
    (cells : ∀ p map, s'.heap.cells p = some map → s.heap.cells p = some map) (produced : s'.produced = s.produced)
    (installed : s'.installed = s.installed) (data : s'.dataToPartition = s.dataToPartition) : Swapped cfg s' where
  made p mem := by
    rw [produced] at mem
    obtain ⟨lt, base, cut, kept⟩ := h.made p mem
    exact ⟨next ▸ lt, base, cut, fun map here => kept map (cells _ _ here)⟩
  installed p last := data ▸ h.installed p (installed ▸ last)
  populated none map here := h.populated (installed ▸ none) map (cells _ _ (data ▸ here))

theorem swapped_step (h : Swapped cfg s) (mapped : Mapped s) (step : step cfg s l = some s') : Swapped cfg s' := by
  have move := step_move step
  cases move with
  | @dispatch b message map mapping partitions place type read involved =>
    have kept := Mapping.keeps_involved involved
    -- the partitions behind a pointer are kept, whichever it is
    have cells : ∀ p map', (s.heap.write s.dataToPartition mapping.dataToPartition).cells p = some map' →
        ∃ before, s.heap.cells p = some before ∧ KeepsPartitions before map' := by
      intro p map' here
      simp only [Heap.write, Function.update_apply] at here
      split at here
      · rename_i same
        rw [read, Option.map_some] at here
        cases here
        exact ⟨map, same ▸ read, kept⟩
      · exact ⟨map', here, .refl _⟩
    refine ⟨fun p mem => ?_, h.installed, fun none map' here => ?_⟩
    · obtain ⟨lt, base, cut, extends_⟩ := h.made p mem
      refine ⟨lt, base, cut, fun map' here => ?_⟩
      obtain ⟨before, here, kept⟩ := cells _ _ here
      exact (extends_ before here).trans kept
    · obtain ⟨before, here, kept⟩ := cells _ _ here
      exact (h.populated none before here).trans kept
  | swap place =>
    refine ⟨h.made, fun p last => ?_, fun none => ?_⟩
    · rw [List.getLast?_concat] at last
      exact Option.some.inj last
    · exact absurd none (List.append_ne_nil_of_right_ne_nil _ (List.cons_ne_nil _ _))
  | free place =>
    refine h.frame rfl (fun p map here => ?_) rfl rfl rfl
    simp only [Heap.delete, Function.update_apply] at here
    split at here
    · cases here
    · exact here
  | @cut scheme temp place built =>
    -- nobody has the pointer that `new` gives
    have older : ∀ p, p < s.heap.next → (s.heap.new temp).cells p = s.heap.cells p :=
      fun p lt => Function.update_of_ne (Nat.ne_of_lt lt) _ _
    simp only [FreeScheduler.step, FreeScheduler.cut, place] at step
    obtain ⟨⟨length, inRange⟩, -⟩ := Option.ite_none_right_eq_some.mp step
    refine ⟨fun p mem => ?_, h.installed, fun none map here => ?_⟩
    · rcases List.mem_append.mp mem with old | new
      · obtain ⟨lt, base, cut, kept⟩ := h.made p old
        refine ⟨Nat.lt_succ_of_lt lt, base, cut, fun map here => kept map ?_⟩
        rwa [← older _ lt]
      · obtain rfl := List.mem_singleton.mp new
        refine ⟨Nat.lt_succ_self _, temp, ⟨scheme, length, inRange, built⟩, fun map here => ?_⟩
        obtain rfl : temp = map := by simpa [Heap.new] using here
        exact .refl _
    · refine h.populated none map ?_
      rwa [← older _ mapped.lives.lt]
  | _ => exact h.frame rfl (fun _ _ here => here) rfl rfl rfl

/-! ### Which order the live map answers -/

/-- What is known of the orders and the maps. -/
def Known (method : CutMethod) (cfg : Config n) (s : State n) : Prop := (∃ marks, Marked method cfg s marks) ∧ Swapped cfg s

theorem via_known (via : (methodSystem method cfg).Via (fun _ l => ∀ m ∈ l.submits, m.IsClient) s) : Known method cfg s := by
  refine via.invariant (P := Known method cfg) ?_ fun s l s' via known _ stepped => ?_
  · obtain ⟨w, ran, same⟩ := methodInit_eq method cfg
    show Known method cfg (methodInit method cfg)
    rw [same]
    refine ⟨⟨[], ?_, .nil, .nil, fun _ => nofun, absent (toPost_variants cfg.variant _).1⟩, nofun, nofun, fun _ map here => ?_⟩
    · rw [← ran]
      exact congrArg _ (List.append_nil _)
    · obtain rfl : cfg.populatedMapping.dataToPartition = map := Option.some.inj here
      exact .refl _
  · obtain ⟨⟨marks, marked⟩, swapped⟩ := known
    have stepped : methodStep method cfg s l = some s' := stepped
    unfold methodStep at stepped
    split at stepped
    · cases stepped
      exact ⟨⟨marks, marked.workload, marked.ordered, marked.increasing, marked.fresh, marked.toPost⟩,
        swapped.frame rfl (fun _ _ here => here) rfl rfl rfl⟩
    · obtain ⟨more, marked⟩ := marked_move marked (step_move stepped)
      exact ⟨⟨_, marked⟩, swapped_step swapped (via_mapped via) stepped⟩

/-- Under ROUND_ROBIN no map is swapped in. -/
theorem via_installed_roundRobin (via : (methodSystem .ROUND_ROBIN cfg).Via (fun _ l => ∀ m ∈ l.submits, m.IsClient) s) :
    s.installed = [] := by
  refine via.invariant (P := fun s => s.installed = []) ?_ fun s l s' via none _ stepped => ?_
  · show (methodInit .ROUND_ROBIN cfg).installed = []
    rfl
  · have plain := (Anchored.of_reachable via.reachable).plain
    rcases methodStep_move stepped with ⟨move, -⟩ | ⟨-, -, -, rfl⟩
    · cases move with
      | swap place =>
        rw [place] at plain
        cases plain
      | _ => exact none
    · exact none

/-- The maps are swapped in in the order of the orders. -/
theorem via_handShake (other : method ≠ .ROUND_ROBIN)
    (via : (methodSystem method cfg).Via (fun _ l => ∀ m ∈ l.submits, m.IsClient) s) : HandShake cfg s := by
  rw [methodSystem_eq other] at via
  exact one_round_in_flight cfg s (via.mono fun _ l clients => by
    cases l with
    | submit message => exact (clients message rfl).range
    | _ => exact True.intro)

/-- **The live map is the cut of the newest graph that was answered**, with the keys mapped since. -/
theorem Marked.descends (marked : Marked method cfg s marks)
    (via : (methodSystem method cfg).Via (fun _ l => ∀ m ∈ l.submits, m.IsClient) s) {map : UnorderedMap Int (Fin n)}
    (here : s.heap.cells s.dataToPartition = some map) :
    Descends cfg.TL (method.counted cfg.toConfig) cfg.populatedMapping.dataToPartition s.processed map
      (marks.take s.installed.length).getLast? := by
  have swapped := (via_known via).2
  cases last : s.installed.getLast? with
  | none =>
    have none := List.getLast?_eq_none_iff.mp last
    rw [none]
    exact .populated (swapped.populated none map here)
  | some p =>
    have other : method ≠ .ROUND_ROBIN := by
      rintro rfl
      rw [via_installed_roundRobin via] at last
      cases last
    have handShake := via_handShake other via
    obtain ⟨k, d, newest, copied, answered⟩ := Rounds.exists_answered marked.ordered handShake.answers handShake.installs last
    obtain ⟨-, base, cut, kept⟩ := swapped.made _ answered
    rw [newest]
    refine .cut copied cut (kept map ?_)
    rw [← swapped.installed p last]
    exact here

/-! ### The process -/

variable {capacity : Nat} {z : Compresser} {t : Process.State (State n) n}

theorem via_upcoming
    (via : (Process.system (process method cfg capacity z)).Via (Process.FromClients (process method cfg capacity z)) t) :
    t.front.processed ++ upcoming t.front = t.submitted := by
  refine Process.via_submitted (P := fun f messages => f.processed ++ upcoming f = messages) (upcoming_init method cfg)
    (fun f l f' messages held step => ?_) via
  rw [← held]
  exact upcoming_step step

/-- **By which map a request is dispatched**: in every run of the process the graphs ordered so far are of ever
longer prefixes of the submitted messages. The live map is the cut of the last one that has been swapped in, or the
populated one, with the keys mapped since, and it has all keys of its window. At most one order is not swapped in. -/
theorem freeScheduler_informed (method : CutMethod) (cfg : Config n) (capacity : Nat) (compresser : Compresser)
    {s : Process.State (State n) n}
    (via : (Process.system (process method cfg capacity compresser)).Via (Process.FromClients (process method cfg capacity compresser)) s) :
    ∃ marks : List Nat, marks.Pairwise (· < ·) ∧
      List.Forall₂ (CopiedAt cfg.TL (method.counted cfg.toConfig) s.submitted) marks s.front.ordered ∧
      (method ≠ .ROUND_ROBIN → marks.length ≤ s.front.installed.length + 1) ∧
      (s.front.scheduling.due = false →
        Descends cfg.TL (method.counted cfg.toConfig) cfg.populatedMapping.dataToPartition s.submitted
          s.pool.mapping.dataToPartition (marks.take s.front.installed.length).getLast? ∧
        ∀ k, (marks.take s.front.installed.length).getLast? = some k → ∀ key,
          (∃ m ∈ Workload.window cfg.TL (method.counted cfg.toConfig ++ s.submitted.take k), key ∈ m.keys) →
            key ∈ s.pool.mapping.dataToPartition) := by
  have linked := Process.via_linked via
  have seen : s.front.processed <+: s.submitted := ⟨_, via_upcoming via⟩
  obtain ⟨⟨marks, marked⟩, -⟩ := via_known linked.front
  refine ⟨marks, marked.increasing, marked.ordered.imp fun k d copied => copied.later seen, fun other => ?_, fun settled => ?_⟩
  · rw [marked.ordered.length_eq]
    have counts := (via_handShake other linked.front).counts
    exact counts.2.2
  · obtain ⟨mapping, live, -, same⟩ := linked.shared
    obtain ⟨map, here, rfl⟩ := Option.map_eq_some_iff.mp live
    have descends := (marked.descends linked.front here).later seen
    rw [← same settled]
    refine ⟨descends, fun k newest key covered => ?_⟩
    rw [newest] at descends
    exact descends.maps_window (CutMethod.counted_real linked.clients) covered

/-- A request of key 0 is submitted and dispatched to the partition it is mapped to. -/
def dispatchWrite : List (Process.Label Label 2) :=
  [.front (.submit { type := .WRITE, key := 0 }) [], .front .produce [], .front .produce [], .front .produce []] ++
    List.replicate 4 (.front (.schedule true) []) ++ [.front (.schedule true) [0]] ++ List.replicate 3 .push

/-- The first request starts a round, in which the partitioner moves its key; with the second the map is swapped in
and the partitions are synchronised. -/
def installRun : List (Process.Label Label 2) :=
  dispatchWrite ++ List.replicate 5 (.front (.schedule true) []) ++ List.replicate 11 (.front (.graph true) []) ++
    [.front .partition [], .front .partition [], .front .partition [], .front (.cut [1]) [], .front .partition [],
      .front .partition []] ++
    dispatchWrite ++ List.replicate 6 (.front (.schedule true) []) ++ [.front (.schedule true) [0, 1]]

theorem freeScheduler_informed_copy : ∃ s, (Process.system eagerProcess).Via (Process.FromClients eagerProcess) s ∧
    (s.pool.dispatched = 2 ∧ s.pool.mapping.dataToPartition.lookup 0 = some 1) ∧
    ∃ k, Descends 1 (CutMethod.METIS.counted eagerConfig.toConfig) eagerConfig.populatedMapping.dataToPartition
        s.submitted s.pool.mapping.dataToPartition (some k) ∧
      ∀ key, (∃ m ∈ Workload.window 1 (CutMethod.METIS.counted eagerConfig.toConfig ++ s.submitted.take k),
        key ∈ m.keys) → key ∈ s.pool.mapping.dataToPartition := by
  obtain ⟨s, via, moved, ordered, installed, settled⟩ := System.exists_via (M := Process.system eagerProcess)
    (Process.FromClients eagerProcess)
    (P := fun s => (s.pool.dispatched = 2 ∧ s.pool.mapping.dataToPartition.lookup 0 = some 1) ∧
      s.front.ordered.length = 1 ∧ s.front.installed.length = 1 ∧ s.front.scheduling.due = false)
    installRun (by decide +kernel)
  obtain ⟨marks, -, copied, -, live⟩ := freeScheduler_informed .METIS eagerConfig 0 ⟨id, some⟩ via
  obtain ⟨k, rfl⟩ := List.length_eq_one_iff.mp (copied.length_eq.trans ordered)
  obtain ⟨descends, covers⟩ := live settled
  rw [installed] at descends covers
  exact ⟨s, via, moved, k, descends, covers k rfl⟩

end FreeScheduler

end KvPaxos
