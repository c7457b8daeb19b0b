import KvPaxos.Scheduler.Method

/-!
# No partitioning under ROUND_ROBIN

Under ROUND_ROBIN the scheduling thread starts no round and installs no map, so a key keeps its
partition in every scheduler. Where the scheduling thread is the one that starts rounds
(`Scheduler`, `OldImbScheduler`, `AsyncScheduler`) nothing is partitioned either.

In `FreeScheduler`, `NonStopScheduler` and `AsyncImbScheduler` the graph thread starts them, and it
does not look at the method. What it does look at is a matter of the variant: `FreeScheduler` starts a
round where the interval is over and the graph has a vertex, `NonStopScheduler` where the graph has one,
`AsyncImbScheduler` where `imbalance()` finds an imbalance. A run stays without partitioning as long as
none of these tests comes out so, and where one does the graph thread goes on to the round.
-/

namespace KvPaxos

open Lib UnorderedMap

/-- Keys that are mapped keep their partition. -/
def KeepsPartitions {n : Nat} (before after : UnorderedMap Int (Fin n)) : Prop :=
  ∀ k p, before.lookup k = some p → after.lookup k = some p

theorem KeepsPartitions.refl {n : Nat} (map : UnorderedMap Int (Fin n)) : KeepsPartitions map map :=
  fun _ _ same => same

theorem KeepsPartitions.trans {n : Nat} {a b c : UnorderedMap Int (Fin n)} (first : KeepsPartitions a b)
    (second : KeepsPartitions b c) : KeepsPartitions a c :=
  fun k p before => second k p (first k p before)

namespace StopTheWorld

variable {n : Nat} {cfg : Config n} {s s' : State n} {l : Label}

/-- In `scheduling_loop` before the block that starts a repartition. -/
def Scheduling.plain : Scheduling n → Bool
  | .waitingItem | .waitingAhead | .popping | .releasing _ | .dispatching _ | .counting | .ended _ => true
  | _ => false

/-- One step under ROUND_ROBIN starts nothing and keeps the mapping. -/
theorem plain_step (plain : s.scheduling.plain = true) (h : methodStep .ROUND_ROBIN cfg s l = some s') :
    s'.scheduling.plain = true ∧ (s.note = false → s'.note = false) ∧
      KeepsPartitions s.mapping.dataToPartition s'.mapping.dataToPartition := by
  have same := KeepsPartitions.refl s.mapping.dataToPartition
  rcases methodStep_move h with ⟨move, early⟩ | ⟨-, -, -, rfl⟩
  · cases move with
    | start place => exact absurd rfl (early rfl place true)
    | dispatch place type involved =>
      exact ⟨rfl, id, (Mapping.involvedPartitions_spec involved).kept⟩
    | raise place | freeItem place | freeAhead place | park1 place | open1 place | resume1 place | copy place
    | park2 place | open2 place | resume2 place | cut place | install place =>
      rw [place] at plain
      cases plain
    | item0 | ahead0 | pop0 | release0 | finish | count => exact ⟨rfl, id, same⟩
    | answer => exact ⟨plain, fun _ => rfl, same⟩
    | _ => exact ⟨plain, id, same⟩
  · exact ⟨rfl, id, same⟩

/-- In every run. -/
theorem plain_of_reachable (reachable : (methodSystem .ROUND_ROBIN cfg).Reachable s) :
    s.scheduling.plain = true ∧ s.note = false := by
  refine reachable.invariant (P := fun s => s.scheduling.plain = true ∧ s.note = false) ⟨rfl, rfl⟩ ?_
  rintro s l s' ⟨plain, quiet⟩ step
  obtain ⟨plain', quiet', -⟩ := plain_step plain step
  exact ⟨plain', quiet' quiet⟩

/-- The rest of a run keeps the partition of every key that is mapped. -/
theorem plain_exec {ls : List Label} : ∀ {s : State n}, s.scheduling.plain = true →
    (methodSystem .ROUND_ROBIN cfg).exec s ls = some s' →
    KeepsPartitions s.mapping.dataToPartition s'.mapping.dataToPartition := by
  induction ls with
  | nil =>
    intro s _ run
    cases run
    exact KeepsPartitions.refl _
  | cons l ls ih =>
    intro s plain run
    obtain ⟨t, step, run⟩ := Option.bind_eq_some_iff.mp run
    obtain ⟨plain', -, kept⟩ := plain_step plain step
    exact kept.trans (ih plain' run)

/-- `multilevel_cut` is not called outside the block. -/
theorem no_cut (plain : s.scheduling.plain = true) (method : CutMethod) (scheme : List Int) :
    methodStep method cfg s (.cut scheme) = none := by
  cases hs : methodStep method cfg s (.cut scheme) with
  | none => rfl
  | some s' =>
    rcases methodStep_move hs with ⟨move, -⟩ | ⟨-, -, ⟨b, eq⟩, -⟩
    · cases move with
      | cut place =>
        rw [place] at plain
        cases plain
    · cases eq

end StopTheWorld

namespace FreeScheduler

variable {n : Nat} {cfg : Config n} {s s' : State n} {l : Label}

/-- In `scheduling_loop` before the block that starts a round or installs a map. -/
def Scheduling.plain : Scheduling → Bool
  | .waitingItem | .waitingAhead | .popping | .releasing _ | .dispatching _ | .counting | .ended => true
  | _ => false

/-- The graph thread has no round under way; what it may be at depends on who starts rounds. -/
def GraphThread.Idle (v : Variant) : GraphThread → Prop
  | .raisingRepartitioning | .copying | .assigning _ | .posting | .loweringRepartition => False
  | .sizing => v = .free ∨ v = .nonStop
  | .testingImbalance => v = .asyncImb
  | .testingInterval => v ≠ .async ∧ v ≠ .nonStop
  | .loadingRepartitioning => v ≠ .async
  | _ => True

/-- No round has been started, and `multilevel_cut` has not been called. -/
structure Unpartitioned (s : State n) : Prop where
  repartitioning : s.repartitioning = false
  update : s.update = false
  partitioner : s.partitioner = .waiting
  ordered : s.ordered = []
  produced : s.produced = []

/-- The joint invariant of the runs in which no round is started. -/
structure Quiet (cfg : Config n) (s : State n) : Prop extends Unpartitioned s where
  plain : s.scheduling.plain = true
  repartition : s.repartition = false
  repartSemaphore : s.repartSemaphore = 0
  idle : s.graphThread.Idle cfg.variant
  empty : s.graphThread = .sizing → s.workload.workloadGraph.nVertex = 0

/-- The graph thread makes the test its variant starts a round by, and it is true: the interval or the
clock with a vertex in the graph, `repartitioning_` with a vertex in the graph, or `imbalance()`. -/
def due (cfg : Config n) (s : State n) (l : Label) : Bool :=
  match l, cfg.variant, s.graphThread with
  | .graph choice, .free, .testingInterval => choice && decide (0 < s.workload.workloadGraph.nVertex)
  | .graph _, .nonStop, .loadingRepartitioning =>
    !s.repartitioning && decide (0 < s.workload.workloadGraph.nVertex)
  | .graph choice, .asyncImb, .testingImbalance => choice
  | _, _, _ => false

theorem idle_head (v : Variant) : v.head.Idle v := by cases v <;> trivial

theorem idle_done (v : Variant) : v.done.Idle v := by cases v <;> trivial

theorem idle_observed (v : Variant) : v.observed.Idle v := by
  cases v with
  | async => trivial
  | _ => exact fun h => (by cases h)

theorem idle_unclaimed {v : Variant} (other : v ≠ .async) : v.unclaimed.Idle v := by
  cases v with
  | nonStop => exact Or.inr rfl
  | free | asyncImb => exact ⟨other, fun eq => (by cases eq)⟩
  | async => exact absurd rfl other

theorem idle_achieved {v : Variant} (other : v ≠ .async ∧ v ≠ .nonStop) : v.achieved.Idle v := by
  cases v with
  | free => exact Or.inl rfl
  | nonStop => exact absurd rfl other.2
  | async => exact absurd rfl other.1
  | asyncImb => rfl

theorem head_ne_sizing (v : Variant) : v.head ≠ .sizing := by
  cases v <;> exact fun at_ => (by cases at_)

theorem done_ne_sizing (v : Variant) : v.done ≠ .sizing := by
  cases v <;> exact fun at_ => (by cases at_)

/-- The graph thread goes to another place, not to `n_vertex() > 0` with a vertex in the graph. -/
theorem Quiet.graph (h : Quiet cfg s) {g : GraphThread} (idle : g.Idle cfg.variant)
    (empty : g = .sizing → s.workload.workloadGraph.nVertex = 0) : Quiet cfg { s with graphThread := g } :=
  ⟨⟨h.repartitioning, h.update, h.partitioner, h.ordered, h.produced⟩, h.plain, h.repartition, h.repartSemaphore,
    idle, empty⟩

/-- **A step whose tests are not true starts nothing.** -/
theorem Quiet.step (h : Quiet cfg s) (undue : due cfg s l = false) (hs : methodStep .ROUND_ROBIN cfg s l = some s') :
    Quiet cfg s' := by
  obtain ⟨⟨repartitioning, update, partitioner, ordered, produced⟩, plain, repartition, repartSemaphore, idle,
    empty⟩ := id h
  rcases methodStep_move hs with ⟨move, early⟩ | ⟨-, -, -, rfl⟩
  · cases move with
    | count place => exact absurd rfl (early rfl place _)
    | findFree place | findBusy place | skip place | start place | ask place | raise place | noUpdate place
    | seeUpdate place | save place | swap place | restore place | sync place | lowerUpdate place | reset place
    | settle place | restart place =>
      rw [place] at plain
      cases plain
    | item0 | ahead0 | pop0 | release0 | finish | dispatch =>
      exact ⟨⟨repartitioning, update, partitioner, ordered, produced⟩, rfl, repartition, repartSemaphore, idle, empty⟩
    | take place posted =>
      rw [repartSemaphore] at posted
      cases posted
    | aim place | free place | cut place | store place | raiseUpdate place =>
      rw [place] at partitioner
      cases partitioner
    | seeRequest place up =>
      rw [repartition] at up
      cases up
    | copy place | assign place | post place | lowerRequest place | graphRaise place =>
      rw [place] at idle
      exact idle.elim
    | tally place | item1 place | ahead1 place | pop1 place | release1 place | noRequest place | balanced place
    | graphRestart place =>
      exact ⟨⟨repartitioning, update, partitioner, ordered, produced⟩, plain, repartition, repartSemaphore, trivial,
        fun at_ => (by cases at_)⟩
    | observe =>
      refine ⟨⟨repartitioning, update, partitioner, ordered, produced⟩, plain, repartition, repartSemaphore,
        idle_observed _, ?_⟩
      cases cfg.variant <;> exact fun at_ => (by cases at_)
    | graphBusy | graphSkip => exact h.graph (idle_head _) fun at_ => absurd at_ (head_ne_sizing _)
    | empty => exact h.graph (idle_done _) fun at_ => absurd at_ (done_ne_sizing _)
    | graphFree place free =>
      rw [place] at idle
      refine h.graph (idle_unclaimed idle) fun at_ => ?_
      cases variant : cfg.variant with
      | nonStop =>
        simp only [due, variant, place, free, Bool.not_false, Bool.true_and, decide_eq_false_iff_not] at undue
        exact Nat.eq_zero_of_not_pos undue
      | _ =>
        rw [variant] at at_
        cases at_
    | graphStart place =>
      rw [place] at idle
      refine h.graph (idle_achieved idle) fun at_ => ?_
      cases variant : cfg.variant with
      | free =>
        simp only [due, variant, place, Bool.true_and, decide_eq_false_iff_not] at undue
        exact Nat.eq_zero_of_not_pos undue
      | asyncImb =>
        rw [variant] at at_
        cases at_
      | nonStop => exact absurd variant idle.2
      | async => exact absurd variant idle.1
    | imbalanced place =>
      rw [place] at idle
      have variant : cfg.variant = .asyncImb := idle
      simp only [due, variant, place, Bool.true_eq_false] at undue
    | sized place vertex =>
      have none := empty place
      rw [none] at vertex
      cases vertex
    | submit | push | notify0 | notify1 =>
      exact ⟨⟨repartitioning, update, partitioner, ordered, produced⟩, plain, repartition, repartSemaphore, idle, empty⟩
  · exact ⟨⟨repartitioning, update, partitioner, ordered, produced⟩, rfl, repartition, repartSemaphore, idle, empty⟩

theorem Quiet.init (cfg : Config n) : Quiet cfg (methodInit .ROUND_ROBIN cfg) :=
  ⟨⟨rfl, rfl, rfl, rfl, rfl⟩, rfl, rfl, rfl, idle_head _, fun at_ => absurd at_ (head_ne_sizing _)⟩

/-- The runs in which no test for a round is true. -/
theorem Quiet.of_via (via : (methodSystem .ROUND_ROBIN cfg).Via (fun s l => due cfg s l = false) s) : Quiet cfg s :=
  via.invariant (Quiet.init cfg) fun _ _ _ _ quiet undue step => quiet.step undue step

/-- `AsyncScheduler`'s graph thread starts no round of its own. -/
theorem Quiet.of_async (async : cfg.variant = .async) (reachable : (methodSystem .ROUND_ROBIN cfg).Reachable s) :
    Quiet cfg s := by
  refine reachable.invariant (Quiet.init cfg) fun s l s' quiet step => quiet.step ?_ step
  cases l <;> simp only [due, async]

/-- From `repartitioning_.store(true)` the graph thread goes on to the store. -/
theorem exec_raising (cfg : Config n) (place : s.graphThread = .raisingRepartitioning) : ∃ t,
    (methodSystem .ROUND_ROBIN cfg).exec s [.graph true] = some t ∧ t.repartitioning = true := by
  have raise : methodStep .ROUND_ROBIN cfg s (.graph true) =
      some { s with repartitioning := true, graphThread := cfg.variant.raised } := by
    rw [methodStep_graph, FreeScheduler.graph, place]
  exact ⟨_, Option.bind_eq_some_iff.mpr ⟨_, raise, rfl⟩, rfl⟩

/-- From `n_vertex() > 0`, where `FreeScheduler` and `NonStopScheduler` have found the rest. -/
theorem exec_sizing (place : s.graphThread = .sizing) (sizesFirst : cfg.variant = .free ∨ cfg.variant = .nonStop)
    (vertex : 0 < s.workload.workloadGraph.nVertex) : ∃ t,
    (methodSystem .ROUND_ROBIN cfg).exec s [.graph true, .graph true] = some t ∧ t.repartitioning = true := by
  have sized : cfg.variant.sized = .raisingRepartitioning := by
    rcases sizesFirst with eq | eq <;> rw [eq] <;> rfl
  have size : methodStep .ROUND_ROBIN cfg s (.graph true) = some { s with graphThread := .raisingRepartitioning } := by
    rw [methodStep_graph, FreeScheduler.graph, place]
    simp only [if_pos vertex, sized]
  obtain ⟨t, run, up⟩ := exec_raising cfg (s := { s with graphThread := .raisingRepartitioning }) rfl
  exact ⟨t, Option.bind_eq_some_iff.mpr ⟨_, size, run⟩, up⟩

/-- **A test that is true starts a round in spite of the method**: the graph thread's next statements lead to
`repartitioning_.store(true)`. -/
theorem starts_of_due (found : due cfg s l = true) (hs : methodStep .ROUND_ROBIN cfg s l = some s') : ∃ ls t,
    (∀ l ∈ ls, l = .graph true) ∧ (methodSystem .ROUND_ROBIN cfg).exec s' ls = some t ∧ t.repartitioning = true := by
  unfold due at found
  split at found
  · rename_i choice variant place
    obtain ⟨rfl, vertex⟩ := (Bool.and_eq_true _ _).mp found
    rw [methodStep_graph, FreeScheduler.graph, place] at hs
    obtain ⟨-, ⟨⟩⟩ := Option.ite_none_right_eq_some.mp hs
    have next : cfg.variant.achieved = .sizing := by rw [variant]; rfl
    obtain ⟨t, run, up⟩ := exec_sizing (s := { s with graphThread := cfg.variant.achieved }) next (Or.inl variant)
      (of_decide_eq_true vertex)
    exact ⟨_, t, by simp, run, up⟩
  · rename_i choice variant place
    obtain ⟨idle, vertex⟩ := (Bool.and_eq_true _ _).mp found
    have free : ¬ s.repartitioning = true := by simpa using idle
    rw [methodStep_graph, FreeScheduler.graph, place] at hs
    simp only [if_neg free] at hs
    cases hs
    have next : cfg.variant.unclaimed = .sizing := by rw [variant]; rfl
    obtain ⟨t, run, up⟩ := exec_sizing (s := { s with graphThread := cfg.variant.unclaimed }) next (Or.inr variant)
      (of_decide_eq_true vertex)
    exact ⟨_, t, by simp, run, up⟩
  · rename_i choice variant place
    subst found
    rw [methodStep_graph, FreeScheduler.graph, place] at hs
    cases hs
    obtain ⟨t, run, up⟩ := exec_raising cfg (s := { s with graphThread := .raisingRepartitioning }) rfl
    exact ⟨_, t, by simp, run, up⟩
  · cases found

/-- `multilevel_cut` is called by the partitioning thread only. -/
theorem Unpartitioned.no_cut (clear : Unpartitioned s) (method : CutMethod) (scheme : List Int) :
    methodStep method cfg s (.cut scheme) = none := by
  cases hs : methodStep method cfg s (.cut scheme) with
  | none => rfl
  | some s' =>
    rcases methodStep_move hs with ⟨move, -⟩ | ⟨-, -, ⟨b, eq⟩, -⟩
    · cases move with
      | cut place =>
        have waiting := clear.partitioner
        rw [place] at waiting
        cases waiting
    · cases eq

/-! ### The mapping -/

/-- `data_to_partition_` is the map the constructor made, and nobody deletes it. -/
structure Anchored (s : State n) : Prop where
  plain : s.scheduling.plain = true
  data : s.dataToPartition = 0
  updated : s.updatedDataToPartition ≠ 0
  freeing : ∀ p, s.partitioner = .freeing p → p ≠ 0
  storing : ∀ p, s.partitioner = .storing p → p ≠ 0
  live : s.heap.Live 0

/-- What a step leaves of the map behind `data_to_partition_`. -/
def Keeps (s s' : State n) : Prop :=
  ∀ map, s.heap.cells s.dataToPartition = some map →
    ∃ map', s'.heap.cells s'.dataToPartition = some map' ∧ KeepsPartitions map map'

theorem Keeps.refl (s : State n) : Keeps s s := fun map here => ⟨map, here, KeepsPartitions.refl map⟩

theorem Keeps.trans {s'' : State n} (first : Keeps s s') (second : Keeps s' s'') : Keeps s s'' := by
  intro map here
  obtain ⟨map', here', kept⟩ := first map here
  obtain ⟨map'', here'', kept'⟩ := second map' here'
  exact ⟨map'', here'', kept.trans kept'⟩

/-- A step that leaves the first map as it is. -/
theorem Anchored.keeps (h : Anchored s) (data : s'.dataToPartition = s.dataToPartition)
    (same : s'.heap.cells 0 = s.heap.cells 0) : Keeps s s' := by
  intro map here
  rw [h.data] at here
  exact ⟨map, by rw [data, h.data, same, here], KeepsPartitions.refl map⟩

/-- Under ROUND_ROBIN nothing but `dispatch` writes to the live map, and it maps new keys only: the scheduling thread
makes none of the statements that swap the maps, and the partitioning thread writes to the other one. -/
theorem Anchored.step (h : Anchored s) (hs : methodStep .ROUND_ROBIN cfg s l = some s') : Anchored s' ∧ Keeps s s' := by
  obtain ⟨plain, data, updated, freeing, storing, live⟩ := id h
  rcases methodStep_move hs with ⟨move, early⟩ | ⟨-, -, -, rfl⟩
  · cases move with
    | count place => exact absurd rfl (early rfl place _)
    | findFree place | findBusy place | skip place | start place | ask place | raise place | noUpdate place
    | seeUpdate place | save place | swap place | restore place | sync place | lowerUpdate place | reset place
    | settle place | restart place =>
      rw [place] at plain
      cases plain
    | item0 | ahead0 | pop0 | release0 | finish =>
      exact ⟨⟨rfl, data, updated, freeing, storing, live⟩, Keeps.refl s⟩
    | dispatch place type read involved =>
      refine ⟨⟨rfl, data, updated, freeing, storing, live.write⟩, fun map here => ?_⟩
      obtain rfl := Option.some_inj.mp (read.symm.trans here)
      refine ⟨_, ?_, (Mapping.involvedPartitions_spec involved).kept⟩
      show Function.update s.heap.cells s.dataToPartition _ s.dataToPartition = _
      rw [Function.update_self, read, Option.map_some]
    | take => exact ⟨⟨plain, data, updated, nofun, nofun, live⟩, Keeps.refl s⟩
    | aim =>
      refine ⟨⟨plain, data, updated, fun p eq => ?_, nofun, live⟩, Keeps.refl s⟩
      cases eq
      exact updated
    | free place =>
      have other := freeing _ place
      refine ⟨⟨plain, data, updated, nofun, nofun, live.delete other.symm⟩, h.keeps rfl ?_⟩
      exact Function.update_of_ne other.symm _ _
    | cut place built =>
      have other : s.heap.next ≠ 0 := Nat.ne_zero_of_lt live.lt
      refine ⟨⟨plain, data, updated, nofun, fun p eq => ?_, live.new⟩, h.keeps rfl ?_⟩
      · cases eq
        exact other
      · exact Function.update_of_ne other.symm _ _
    | store place => exact ⟨⟨plain, data, storing _ place, nofun, nofun, live⟩, Keeps.refl s⟩
    | raiseUpdate => exact ⟨⟨plain, data, updated, nofun, nofun, live⟩, Keeps.refl s⟩
    | _ => exact ⟨⟨plain, data, updated, freeing, storing, live⟩, Keeps.refl s⟩
  · exact ⟨⟨rfl, data, updated, freeing, storing, live⟩, Keeps.refl s⟩

theorem Anchored.of_reachable (reachable : (methodSystem .ROUND_ROBIN cfg).Reachable s) : Anchored s :=
  reachable.invariant ⟨rfl, rfl, Nat.one_ne_zero, nofun, nofun, Heap.live_new_self.new⟩
    fun _ _ _ anchored step => (anchored.step step).1

/-- The rest of a run keeps the partition of every key that is mapped. -/
theorem Anchored.exec {ls : List Label} : ∀ {s : State n}, Anchored s →
    (methodSystem .ROUND_ROBIN cfg).exec s ls = some s' → Keeps s s' := by
  induction ls with
  | nil =>
    intro s _ run
    cases run
    exact Keeps.refl _
  | cons l ls ih =>
    intro s anchored run
    obtain ⟨t, step, run⟩ := Option.bind_eq_some_iff.mp run
    obtain ⟨anchored', kept⟩ := anchored.step step
    exact kept.trans (ih anchored' run)

end FreeScheduler

/-- **What ROUND_ROBIN keeps from happening.** In `Scheduler` and `OldImbScheduler` nothing is
partitioned, and every key keeps its partition. In the asynchronous schedulers every key keeps its
partition, in every run. Nothing is partitioned in `AsyncScheduler`, and in the others in every run in
which no test the graph thread starts a round by is true; where one is, the graph thread's own next
statements raise `repartitioning_`. -/
theorem round_robin (n : Nat) :
    (∀ (cfg : StopTheWorld.Config n) s, (StopTheWorld.methodSystem .ROUND_ROBIN cfg).Reachable s →
      (∀ scheme, StopTheWorld.methodStep .ROUND_ROBIN cfg s (.cut scheme) = none) ∧ s.note = false ∧
      ∀ ls s', (StopTheWorld.methodSystem .ROUND_ROBIN cfg).exec s ls = some s' →
        KeepsPartitions s.mapping.dataToPartition s'.mapping.dataToPartition) ∧
    (∀ (cfg : FreeScheduler.Config n) s, (FreeScheduler.methodSystem .ROUND_ROBIN cfg).Reachable s →
      (cfg.variant = .async → FreeScheduler.Unpartitioned s ∧
        ∀ scheme, FreeScheduler.methodStep .ROUND_ROBIN cfg s (.cut scheme) = none) ∧
      (∀ l s', FreeScheduler.methodStep .ROUND_ROBIN cfg s l = some s' → FreeScheduler.due cfg s l = true →
        ∃ ls t, (∀ l ∈ ls, l = .graph true) ∧
          (FreeScheduler.methodSystem .ROUND_ROBIN cfg).exec s' ls = some t ∧ t.repartitioning = true) ∧
      s.heap.Live s.dataToPartition ∧
      ∀ ls s', (FreeScheduler.methodSystem .ROUND_ROBIN cfg).exec s ls = some s' → FreeScheduler.Keeps s s') ∧
    (∀ (cfg : FreeScheduler.Config n) s,
      (FreeScheduler.methodSystem .ROUND_ROBIN cfg).Via (fun s l => FreeScheduler.due cfg s l = false) s →
      FreeScheduler.Unpartitioned s ∧
      ∀ scheme, FreeScheduler.methodStep .ROUND_ROBIN cfg s (.cut scheme) = none) := by
  refine ⟨fun cfg s reachable => ?_, fun cfg s reachable => ?_, fun cfg s via => ?_⟩
  · obtain ⟨plain, quiet⟩ := StopTheWorld.plain_of_reachable reachable
    exact ⟨StopTheWorld.no_cut plain _, quiet, fun ls s' => StopTheWorld.plain_exec plain⟩
  · have anchored := FreeScheduler.Anchored.of_reachable reachable
    refine ⟨fun async => ?_, fun l s' step due => FreeScheduler.starts_of_due due step, ?_, fun ls s' => anchored.exec⟩
    · have quiet := FreeScheduler.Quiet.of_async async reachable
      exact ⟨quiet.toUnpartitioned, quiet.toUnpartitioned.no_cut _⟩
    · rw [anchored.data]
      exact anchored.live
  · have quiet := FreeScheduler.Quiet.of_via via
    exact ⟨quiet.toUnpartitioned, quiet.toUnpartitioned.no_cut _⟩

/-- `FreeScheduler` with a repartition after every ten requests. -/
def decimalConfig : FreeScheduler.Config 2 where
  positive := Nat.two_pos
  TL := 0
  queueHeadDistance := 2
  interval := .operations 10 (by decide)
  populated := [0, 1]
  variant := .free

/-- A request is submitted, and the graph thread takes it. -/
def submitRequest : List FreeScheduler.Label :=
  [.submit { type := .WRITE, key := 5 }, .produce, .produce, .produce]

/-- The first request is dispatched before the graph thread takes it: 1 is no multiple of ten. -/
theorem round_robin_first : ∃ s,
    (FreeScheduler.methodSystem .ROUND_ROBIN decimalConfig).Via
      (fun s l => FreeScheduler.due decimalConfig s l = false) s ∧
    (s.nDispatchedRequests = 1 ∧ s.processed.length = 1) ∧ FreeScheduler.Unpartitioned s ∧
    ∀ ls s', (FreeScheduler.methodSystem .ROUND_ROBIN decimalConfig).exec s ls = some s' →
      FreeScheduler.Keeps s s' := by
  obtain ⟨s, via, taken⟩ := System.exists_via (M := FreeScheduler.methodSystem .ROUND_ROBIN decimalConfig)
    (fun s l => FreeScheduler.due decimalConfig s l = false)
    (P := fun s => s.nDispatchedRequests = 1 ∧ s.processed.length = 1)
    (submitRequest ++ List.replicate 6 (.schedule true) ++ List.replicate 6 (.graph true) ++ [.graph false])
    (by decide)
  exact ⟨s, via, taken, ((round_robin 2).2.2 decimalConfig s via).1,
    ((round_robin 2).2.1 decimalConfig s via.reachable).2.2.2⟩

/-- Here the graph thread takes the first request before the scheduling thread has dispatched it. No request
dispatched is a multiple of ten, and the graph thread starts a round. -/
theorem round_robin_starts_round : ∃ s, (FreeScheduler.methodSystem .ROUND_ROBIN decimalConfig).Reachable s ∧
    s.repartitioning = true := by
  exact System.exists_reachable (M := FreeScheduler.methodSystem .ROUND_ROBIN decimalConfig)
    (P := fun s => s.repartitioning = true) (submitRequest ++ List.replicate 9 (.graph true)) (by decide)

end KvPaxos
