import KvPaxos.Scheduler.CounterWidths

/-!
# What a stop-the-world repartition remembers

The graph thread answers a note once it has processed all of the dispatched requests but
one. The one left is the request that started the repartition: where it touched a new key,
`data_to_partition_` maps the key and the snapshot of the graph does not have it, so the
new map forgets it. `repartition_keeps_keys` says that this is the only way: without
expiry a repartition keeps every key exactly when the counters had caught up at the answer,
or the last request brought no key the graph did not have.
-/

namespace KvPaxos

open Lib UnorderedMap

namespace StopTheWorld

variable {n : Nat} {cfg : Config n} {s s' : State n} {l : Label}

/-- A request has been dispatched and its repartition, if any, is not installed yet. -/
def Scheduling.Dispatched : Scheduling n → Prop
  | .waitingItem | .waitingAhead | .popping | .releasing _ | .dispatching _ | .ended _ => False
  | _ => True

/-- The copy of the graph the scheduling thread holds, until it is partitioned. -/
def Scheduling.input : Scheduling n → Option InputGraph
  | .arriving2 d | .waiting2 d _ | .partitioning d => some d
  | _ => none

/-- The keys of that copy, or of the map made from it. -/
def Scheduling.copied : Scheduling n → Option (Int → Prop)
  | .arriving2 d | .waiting2 d _ | .partitioning d => some (· ∈ d.verticeToPos)
  | .installing temp => some (· ∈ temp)
  | _ => none

/-- The key belongs to a request the graph has processed. -/
def Processed (cfg : Config n) (s : State n) (k : Int) : Prop :=
  ∃ m ∈ cfg.populateRequests ++ s.processed, k ∈ m.keys

/-- Where the keys of the mapping, of the graph and of its copy come from. -/
structure Known (cfg : Config n) (s : State n) : Prop where
  workload : Workload.run cfg.TL (cfg.populateRequests ++ s.processed) = some s.workload
  mapped : ∀ k ∈ s.mapping.dataToPartition, Processed cfg s k ∨ ∃ m ∈ s.dispatched, k ∈ m.keys
  last : s.scheduling.Dispatched → ∀ m ∈ s.dispatched.getLast?, ∀ k ∈ m.keys, k ∈ s.mapping.dataToPartition
  copied : ∀ keys, s.scheduling.copied = some keys → ∀ k, keys k → Processed cfg s k
  positions : ∀ d, s.scheduling.input = some d →
    ∀ k i, d.verticeToPos.lookup k = some i → i < d.verticeWeight.length

/-- The map made from the copy has the same keys. -/
theorem Known.cut (h : Known cfg s) {d : InputGraph} {scheme : List Int} {temp : UnorderedMap Int (Fin n)}
    (place : s.scheduling = .partitioning d) (length : scheme.length = d.verticeWeight.length)
    (inRange : ∀ p ∈ scheme, 0 ≤ p ∧ p < n)
    (built : KvPaxos.partitioning n d (.sorted _) scheme = some temp) (k : Int) : k ∈ temp ↔ k ∈ d.verticeToPos := by
  have positions := h.positions d (by rw [place]; rfl)
  obtain ⟨map, ran, domain, -⟩ := partitioning_assigns (.sorted d.verticeToPos) positions length inRange
  obtain rfl : temp = map := Option.some_inj.mp (built.symm.trans ran)
  exact domain k

theorem known_init (cfg : Config n) : Known cfg (init cfg) := by
  obtain ⟨w, ran, -⟩ := Workload.run_counts cfg.TL cfg.populateRequests cfg.populate_countable
  refine ⟨?_, fun k mem => ?_, fun none => False.elim none, fun keys eq => (by cases eq), fun d eq => (by cases eq)⟩
  · show Workload.run cfg.TL (cfg.populateRequests ++ []) = some ((Workload.run cfg.TL cfg.populateRequests).getD _)
    rw [List.append_nil, ran, Option.getD_some]
  · rcases Mapping.mem_foldl_mapKey cfg.populated mem with mem | mem
    · refine Or.inl ⟨{ type := .WRITE, key := k }, List.mem_append_left _ (List.mem_map.mpr ⟨k, mem, rfl⟩), ?_⟩
      rw [ClientMessage.keys_of_not_scan (m := { type := .WRITE, key := k }) nofun]
      exact List.mem_singleton_self k
    · exact absurd mem Finmap.notMem_empty

/-- **Each step keeps where the keys come from.** -/
theorem known_move (TL0 : cfg.TL = 0) (h : Known cfg s) (move : Move cfg s l s') : Known cfg s' := by
  obtain ⟨workload, mapped, last, copied, positions⟩ := id h
  cases move with
  | dispatch place type involved =>
    have spec := Mapping.involvedPartitions_spec involved
    refine ⟨workload, fun k mem => ?_, fun _ m isLast k mem => ?_, nofun, nofun⟩
    · obtain ⟨p, hp⟩ := Finmap.mem_iff.mp mem
      cases old : s.mapping.dataToPartition.lookup k with
      | some q =>
        rcases mapped k (Finmap.mem_of_lookup_eq_some old) with known | ⟨m, mem, inKeys⟩
        · exact Or.inl known
        · exact Or.inr ⟨m, List.mem_append_left _ mem, inKeys⟩
      | none =>
        exact Or.inr ⟨_, List.mem_append_right _ (List.mem_singleton_self _), spec.fresh k p old hp⟩
    · rw [List.getLast?_append] at isLast
      cases isLast
      obtain ⟨p, -, hp⟩ := spec.covered k mem
      exact Finmap.mem_of_lookup_eq_some hp
  | count place | finish place | item0 place | ahead0 place | pop0 place | release0 place =>
    exact ⟨workload, mapped, nofun, nofun, nofun⟩
  | start place | raise place | freeItem place | freeAhead place | park1 place | open1 place | resume1 place =>
    rw [place] at last
    exact ⟨workload, mapped, last, nofun, nofun⟩
  | copy place copies =>
    rw [place] at last
    obtain ⟨domain, bounded⟩ := Workload.copied h.workload copies
    refine ⟨workload, mapped, last, fun keys eq k mem => ?_, fun d eq => ?_⟩
    · cases eq
      rw [TL0] at workload
      exact (Workload.run_vertices workload k).mp ((domain k).mp mem)
    · cases eq
      exact bounded
  | park2 place | open2 place | resume2 place =>
    rw [place] at last copied positions
    exact ⟨workload, mapped, last, copied, positions⟩
  | cut place length inRange built =>
    have domain := h.cut place length inRange built
    rw [place] at last copied
    refine ⟨workload, mapped, last, fun keys eq k mem => ?_, nofun⟩
    cases eq
    exact copied _ rfl k ((domain k).mp mem)
  | install place =>
    rw [place] at copied
    exact ⟨workload, fun k mem => Or.inl (copied _ rfl k mem), nofun, nofun, nofun⟩
  | @update request workload' place observed =>
    have more : ∀ k, Processed cfg s k → ∃ m ∈ cfg.populateRequests ++ (s.processed ++ [request]), k ∈ m.keys := by
      rintro k ⟨m, mem, inKeys⟩
      rw [← List.append_assoc]
      exact ⟨m, List.mem_append_left _ mem, inKeys⟩
    refine ⟨?_, fun k mem => (mapped k mem).imp (more k) id, last, fun keys eq k mem => more k (copied keys eq k mem),
      positions⟩
    rw [← List.append_assoc, Workload.run_snoc, workload]
    exact observed
  | _ => exact ⟨workload, mapped, last, copied, positions⟩

/-! ### The answer -/

/-- The graph thread has decided to answer and has not gone on since. -/
def State.Answering (s : State n) : Prop :=
  s.graphThread = .answering ∨ s.graphThread.round s.barrier.generation ≠ 0

/-- Every key that is mapped satisfies `keys`. -/
def Keeps (s : State n) (keys : Int → Prop) : Prop :=
  ∀ k ∈ s.mapping.dataToPartition, keys k

/-- Whether the graph, and then the copy of it, has every key that is mapped. -/
structure Snapshot (s : State n) : Prop where
  answering : s.Answering → (s.caughtUp = true ↔ Keeps s (· ∈ s.workload.workloadGraph.vertexWeight))
  copied : ∀ keys, s.scheduling.copied = some keys → (s.caughtUp = true ↔ Keeps s keys)

/-- In a round the note is up or answered, so the scheduling thread is at it. -/
theorem Phases.answering {s : State n} (h : s.Phases) (answering : s.Answering) :
    s.scheduling.round s.barrier.generation ≠ 0 := by
  intro zero
  have quiet := h.quiet zero
  rcases answering with place | round
  · have up := h.heard (Or.inr place)
    rw [quiet] at up
    cases up
  · rcases h.rounds with ⟨-, zero', -⟩ | ⟨one, -⟩ | ⟨one, -⟩ | ⟨two, -⟩
    · exact round zero'
    all_goals omega

/-- **At the answer** the graph has every mapped key exactly if the counters have caught up or the last
request brought no new key: only one dispatched request can be unprocessed. -/
theorem upToDate_iff {A : Nat} (TL0 : cfg.TL = 0) (joint : Joint A s) (known : Known cfg s)
    (place : s.graphThread = .comparing) (enough : s.nDispatchedRequests ≤ s.nProcessedRequests + 1) :
    upToDate s = true ↔ Keeps s (· ∈ s.workload.workloadGraph.vertexWeight) := by
  have vertices : ∀ k, k ∈ s.workload.workloadGraph.vertexWeight ↔ Processed cfg s k := by
    have ran := known.workload
    rw [TL0] at ran
    exact Workload.run_vertices ran
  -- the scheduling thread is between the raised note and the first barrier
  have waits : s.scheduling.round s.barrier.generation = 1 := by
    have up := joint.phases.heard (Or.inl place)
    rcases joint.phases.rounds with ⟨-, -, quiet⟩ | ⟨one, -⟩ | ⟨one, -⟩ | ⟨-, -, quiet⟩
    · rw [up] at quiet
      cases quiet
    · exact one
    · exact one
    · rw [up] at quiet
      cases quiet
  obtain ⟨inHand, uncounted, dispatched⟩ : s.scheduling.inHand = [] ∧ s.scheduling.held.uncounted = 0 ∧
      s.scheduling.Dispatched := by
    cases at_ : s.scheduling with
    | freeingItem | freeingAhead | arriving1 | waiting1 => exact ⟨rfl, rfl, True.intro⟩
    | waiting2 => exact ⟨rfl, rfl, True.intro⟩
    | _ =>
      rw [at_] at waits
      cases waits
  have popped0 := joint.contents.popped0
  have popped1 := joint.contents.popped1
  have counted0 := joint.tokens.dispatched
  have counted1 := joint.tokens.processed
  rw [inHand, List.append_nil] at popped0
  rw [place] at popped1 counted1
  rw [uncounted, popped0] at counted0
  simp only [GraphThread.inHand, List.append_nil] at popped1
  simp only [GraphThread.held] at counted1
  rw [popped1] at counted1
  have prefix0 : s.dispatched <+: s.pushed := by
    rw [joint.contents.head0, popped0]
    exact List.prefix_append _ _
  have prefix1 : s.processed <+: s.pushed := by
    rw [joint.contents.head1, popped1, List.append_assoc]
    exact List.prefix_append _ _
  unfold upToDate
  rw [Bool.or_eq_true, decide_eq_true_iff]
  constructor
  · intro covered k mem
    rw [vertices]
    rcases known.mapped k mem with processed | ⟨m, inDispatched, inKeys⟩
    · exact processed
    · rcases Nat.lt_or_ge s.nProcessedRequests s.nDispatchedRequests with less | le
      · -- all but the last dispatched request are processed
        obtain ⟨rest, split⟩ := List.prefix_of_prefix_length_le prefix1 prefix0 (by omega)
        have one := congrArg List.length split
        rw [List.length_append] at one
        obtain ⟨last, rfl⟩ := List.length_eq_one_iff.mp (show rest.length = 1 by omega)
        rw [← split] at inDispatched
        rcases List.mem_append.mp inDispatched with earlier | isLast
        · exact ⟨m, List.mem_append_right _ earlier, inKeys⟩
        · rcases covered with le | covered
          · omega
          · rw [← split, List.getLast?_concat] at covered
            rw [List.mem_singleton.mp isLast] at inKeys
            have vertex := List.all_eq_true.mp covered k inKeys
            exact (vertices k).mp (of_decide_eq_true vertex)
      · have inProcessed := (List.prefix_of_prefix_length_le prefix0 prefix1 (by omega)).subset inDispatched
        exact ⟨m, List.mem_append_right _ inProcessed, inKeys⟩
  · intro keeps
    refine Or.inr ?_
    cases isLast : s.dispatched.getLast? with
    | none => rfl
    | some last =>
      refine List.all_eq_true.mpr fun k inKeys => decide_eq_true ?_
      exact keeps k (known.last dispatched last isLast k inKeys)

/-- A copy is only held once the note has been answered. -/
theorem Scheduling.round_of_copied {a : Scheduling n} {keys : Int → Prop} (h : a.copied = some keys) (i : Nat) :
    a.round i ≠ 1 := by
  cases a with
  | arriving2 => exact Nat.succ_ne_self 1
  | waiting2 =>
    rw [round]
    split <;> decide
  | partitioning => exact Nat.zero_ne_one
  | installing => exact Nat.zero_ne_one
  | _ => cases h

/-- A barrier that opens only brings a graph thread out of a round. -/
theorem GraphThread.round_succ {g : GraphThread} {i : Nat} (past : ∀ j, g.parked = some j → j ≤ i)
    (inside : g.round (i + 1) ≠ 0) : g.round i ≠ 0 := by
  cases g with
  | waiting1 j =>
    rw [round]
    split <;> decide
  | waiting2 j =>
    have := past j rfl
    rw [round, if_neg (by omega)] at inside
    exact absurd rfl inside
  | _ => exact inside

namespace Snapshot

/-- The scheduling thread moves on without a change to the mapping. -/
theorem schedule (h : Snapshot s) {scheduling : Scheduling n} {b : RepartitionBarrier}
    (past : s.graphThread.round b.generation ≠ 0 → s.graphThread.round s.barrier.generation ≠ 0)
    (copied : ∀ keys, scheduling.copied = some keys → (s.caughtUp = true ↔ Keeps s keys)) :
    Snapshot { s with scheduling := scheduling, barrier := b } where
  answering answering := h.answering (answering.imp id past)
  copied := copied

/-- The graph thread moves on without a change to the graph. -/
theorem graph (h : Snapshot s) {graphThread : GraphThread} {b : RepartitionBarrier}
    (past : graphThread = .answering ∨ graphThread.round b.generation ≠ 0 → s.Answering) :
    Snapshot { s with graphThread := graphThread, barrier := b } where
  answering answering := h.answering (past answering)
  copied := h.copied

end Snapshot

/-- **Each step keeps the snapshot.** -/
theorem snapshot_move {A : Nat} (TL0 : cfg.TL = 0) (joint : Joint A s) (known : Known cfg s) (h : Snapshot s)
    (move : Move cfg s l s') : Snapshot s' := by
  have outside : s.scheduling.round s.barrier.generation = 0 → ¬s.Answering :=
    fun zero answering => joint.phases.answering answering zero
  have later := fun inside => GraphThread.round_succ joint.phases.pastGraph inside
  cases move with
  | submit | push | notify0 | notify1 => exact ⟨h.answering, h.copied⟩
  | item0 place | ahead0 place | pop0 place | release0 place | finish place | count place | start place
  | freeItem place | freeAhead place => exact ⟨h.answering, fun keys eq => (by cases eq)⟩
  | raise place => exact ⟨h.answering, fun keys eq => (by cases eq)⟩
  | dispatch place =>
    have idle := outside (by rw [place]; rfl)
    exact ⟨fun answering => absurd answering idle, fun keys eq => (by cases eq)⟩
  | park1 place => exact h.schedule id fun keys eq => (by cases eq)
  | open1 place => exact h.schedule later fun keys eq => (by cases eq)
  | resume1 place => exact ⟨h.answering, fun keys eq => (by cases eq)⟩
  | copy place copies =>
    have domain := (Workload.copied known.workload copies).1
    have between : s.Answering := by
      rcases joint.phases.between place with ⟨g, at_, opened⟩ | at_ | at_
      · exact Or.inr (by rw [at_, GraphThread.round, if_neg opened]; decide)
      · exact Or.inr (by rw [at_]; exact Nat.succ_ne_zero 1)
      · exact Or.inr (by rw [at_, GraphThread.round, if_pos rfl]; decide)
    refine ⟨h.answering, fun keys eq => ?_⟩
    cases eq
    rw [show s.caughtUp = true ↔ _ from h.answering between]
    exact forall₂_congr fun k _ => (domain k).symm
  | park2 place =>
    have copied := h.copied
    rw [place] at copied
    exact h.schedule id copied
  | open2 place =>
    have copied := h.copied
    rw [place] at copied
    exact h.schedule later copied
  | resume2 place =>
    have copied := h.copied
    rw [place] at copied
    exact ⟨h.answering, copied⟩
  | cut place length inRange built =>
    have domain := known.cut place length inRange built
    have copied := h.copied
    rw [place] at copied
    refine ⟨h.answering, fun keys eq => ?_⟩
    cases eq
    rw [show s.caughtUp = true ↔ _ from copied _ rfl]
    exact forall₂_congr fun k _ => (domain k).symm
  | install place =>
    have idle := outside (by rw [place]; rfl)
    exact ⟨fun answering => absurd answering idle, fun keys eq => (by cases eq)⟩
  | agree place enough =>
    have exact_ := upToDate_iff TL0 joint known place enough
    refine ⟨fun _ => exact_, fun keys eq => ?_⟩
    have up := joint.phases.heard (Or.inl place)
    have held := Scheduling.round_of_copied eq s.barrier.generation
    rcases joint.phases.rounds with ⟨-, -, quiet⟩ | ⟨one, -⟩ | ⟨one, -⟩ | ⟨-, -, quiet⟩
    · rw [up] at quiet
      cases quiet
    · exact absurd one held
    · exact absurd one held
    · rw [up] at quiet
      cases quiet
  | answer place => exact ⟨fun _ => h.answering (Or.inl place), h.copied⟩
  | graphPark1 place =>
    refine h.graph fun _ => Or.inr ?_
    rw [place]
    exact Nat.one_ne_zero
  | graphOpen1 place =>
    refine h.graph fun _ => Or.inr ?_
    rw [place]
    exact Nat.one_ne_zero
  | graphResume1 place =>
    refine h.graph fun _ => Or.inr ?_
    rw [place, GraphThread.round]
    split <;> decide
  | graphPark2 place =>
    refine h.graph fun _ => Or.inr ?_
    rw [place]
    exact Nat.succ_ne_zero 1
  | graphOpen2 place => exact h.graph (by rintro (eq | round) <;> contradiction)
  | graphResume2 place => exact h.graph (by rintro (eq | round) <;> contradiction)
  | update place =>
    refine ⟨?_, h.copied⟩
    rintro (eq | round) <;> contradiction
  | item1 | ahead1 | pass | hear | refuse | pop1 | release1 | tally =>
    refine ⟨?_, h.copied⟩
    rintro (eq | round) <;> contradiction

/-! ### Runs -/

theorem reachable_snapshot (TL0 : cfg.TL = 0) (reachable : (system cfg).Reachable s) :
    Joint cfg.ahead1 s ∧ Known cfg s ∧ Snapshot s := by
  apply reachable_invariant reachable
  · refine ⟨reachable_joint System.Reachable.init, known_init cfg, ?_, fun keys eq => (by cases eq)⟩
    rintro (eq | round) <;> contradiction
  · rintro s l s' ⟨joint, known, snapshot⟩ move
    exact ⟨joint_move joint move, known_move TL0 known move, snapshot_move TL0 joint known snapshot move⟩

/-- If the step answers the note, the graph has every key of the dispatched requests. -/
def Fresh (s : State n) (l : Label) : Prop :=
  l = .graph → s.graphThread = .comparing → s.nDispatchedRequests ≤ s.nProcessedRequests + 1 → upToDate s = true

instance (s : State n) (l : Label) : Decidable (Fresh s l) := by
  unfold Fresh
  infer_instance

theorem via_caughtUp (via : (system cfg).Via Fresh s) : s.caughtUp = true := by
  apply via.invariant (P := fun s => s.caughtUp = true)
  · rfl
  · intro s l s' _ caughtUp fresh step
    have move : Move cfg s l s' := step_move step
    cases move with
    | agree place enough => exact fresh rfl place enough
    | _ => exact caughtUp

/-- What a map about to be installed has, in a run of the threads on counts. -/
theorem installing_keeps (TL0 : cfg.TL = 0) (reachable : (system cfg).Reachable s) {temp : UnorderedMap Int (Fin n)}
    (place : s.scheduling = .installing temp) : Keeps s (· ∈ temp) ↔ s.caughtUp = true := by
  obtain ⟨-, -, snapshot⟩ := reachable_snapshot TL0 reachable
  exact (snapshot.copied _ (by rw [place]; rfl)).symm

/-- **What a repartition remembers**, without expiry, in the words of the source's counters. As long as fewer than
`2 ^ 31` requests are dispatched, a map that `schedule_and_answer` is about to install has every key that is mapped in
`data_to_partition_`, populated or of a dispatched request, exactly if the last answer of `update_graph_loop` found the
graph up to date; so a run all of whose answers do forgets no key. The partitioner may answer with any vector that
has a partition in range for each vertex. -/
theorem repartition_keeps_keys (cfg : Config n) (TL0 : cfg.TL = 0) (fits : CounterWidths.Fits cfg.interval) :
    (∀ s, (CounterWidths.system cfg).Via CounterWidths.Small s → ∀ temp, s.threads.scheduling = .installing temp →
      (Keeps s.threads (· ∈ temp) ↔ s.threads.caughtUp = true)) ∧
    (∀ s, (CounterWidths.system cfg).Via (fun s l => CounterWidths.Small s l ∧ Fresh s.threads l) s →
      ∀ temp, s.threads.scheduling = .installing temp → Keeps s.threads (· ∈ temp)) := by
  refine ⟨fun s via temp place => ?_, fun s via temp place => ?_⟩
  · exact installing_keeps TL0 (CounterWidths.small_related fits via).1 place
  · obtain ⟨via, -⟩ := CounterWidths.small_guarded fits via
    exact (installing_keeps TL0 via.reachable place).mpr (via_caughtUp via)

/-- One populated key, and a repartition after every request. -/
def oneKeyConfig : Config 2 where
  positive := Nat.two_pos
  TL := 0
  queueHeadDistance := 2
  interval := .operations 1 Nat.one_pos
  populated := [0]

/-- A request for the populated key and its repartition, up to the new map. -/
def oneKeyRun : List Label :=
  .submit { type := .WRITE } :: List.replicate 3 .produce ++ List.replicate 5 (.schedule false) ++
    List.replicate 5 (.schedule true) ++ List.replicate 6 .graph ++ List.replicate 3 (.schedule false) ++
      [.graph, .schedule false, .cut [1]]

theorem repartition_keeps_keys_one : ∃ s temp,
    (CounterWidths.system oneKeyConfig).Via (fun s l => CounterWidths.Small s l ∧ Fresh s.threads l) s ∧
      s.threads.scheduling = .installing temp ∧ s.threads.dispatched.length = 1 ∧ 0 ∈ s.threads.mapping.dataToPartition ∧
        Keeps s.threads (· ∈ temp) := by
  have fits : CounterWidths.Fits oneKeyConfig.interval := fun k pos eq => by cases eq; decide
  obtain ⟨s, via, place, one, mapped⟩ := System.exists_via (M := CounterWidths.system oneKeyConfig)
    (fun s l => CounterWidths.Small s l ∧ Fresh s.threads l) (P := fun s => (s.threads.scheduling matches .installing _) ∧
      s.threads.dispatched.length = 1 ∧ 0 ∈ s.threads.mapping.dataToPartition) oneKeyRun (by decide +kernel)
  cases at_ : s.threads.scheduling with
  | installing temp => exact ⟨s, temp, via, at_, one, mapped, (repartition_keeps_keys oneKeyConfig rfl fits).2 s via temp at_⟩
  | _ =>
    rw [at_] at place
    cases place
/-- From a copy under way the repartition goes through, whatever the partitioner answers. -/
theorem exists_installing (reachable : (system cfg).Reachable s) (known : Known cfg s)
    (copying : s.scheduling = .copying) (arriving : s.graphThread = .arriving2) (empty : s.barrier.waiting = false) :
    ∃ s' temp, (system cfg).Reachable s' ∧ s'.scheduling = .installing temp ∧ s'.caughtUp = s.caughtUp := by
  obtain ⟨d, copied, -⟩ := multilevelCutData_built (Workload.run_wellFormed known.workload).row fun _ => .sorted _
  have positions := (Workload.copied known.workload copied).2
  have copy : (system cfg).step s (.schedule false) = some { s with scheduling := .arriving2 d } := by
    simp only [system, step, schedule, copying, copied, Option.map_some]
  have park : (system cfg).step { s with scheduling := .arriving2 d } (.schedule false) = some { s with
      scheduling := .waiting2 d s.barrier.generation
      barrier := { s.barrier with waiting := true } } := by
    simp only [system, step, schedule, RepartitionBarrier.arrive_of_empty empty, Option.elim_some]
  have opens : (system cfg).step { s with
        scheduling := .waiting2 d s.barrier.generation
        barrier := { s.barrier with waiting := true } } .graph = some { s with
      scheduling := .waiting2 d s.barrier.generation
      barrier := { waiting := false, generation := s.barrier.generation + 1 }
      graphThread := .waitingItem } := by
    simp only [system, step, StopTheWorld.graph, arriving, RepartitionBarrier.arrive, if_true, Option.elim_none]
  have resume : (system cfg).step { s with
        scheduling := .waiting2 d s.barrier.generation
        barrier := { waiting := false, generation := s.barrier.generation + 1 }
        graphThread := .waitingItem } (.schedule false) = some { s with
      scheduling := .partitioning d
      barrier := { waiting := false, generation := s.barrier.generation + 1 }
      graphThread := .waitingItem } := by
    simp only [system, step, schedule, if_neg (Nat.ne_of_lt (Nat.lt_succ_self _))]
  have scheme : ∀ p ∈ List.replicate d.verticeWeight.length (0 : Int), 0 ≤ p ∧ p < n := by
    intro p mem
    rw [List.eq_of_mem_replicate mem]
    have := cfg.positive
    omega
  obtain ⟨temp, built, -⟩ := partitioning_assigns (n := n) (.sorted d.verticeToPos) positions
    List.length_replicate scheme
  have cut : (system cfg).step { s with
        scheduling := .partitioning d
        barrier := { waiting := false, generation := s.barrier.generation + 1 }
        graphThread := .waitingItem } (.cut (List.replicate d.verticeWeight.length 0)) = some { s with
      scheduling := .installing temp
      barrier := { waiting := false, generation := s.barrier.generation + 1 }
      graphThread := .waitingItem } := by
    simp only [system, step, StopTheWorld.cut, List.length_replicate, built, Option.map_some]
    exact if_pos ⟨trivial, scheme⟩
  exact ⟨_, temp, ((((reachable.step copy).step park).step opens).step resume).step cut, rfl, rfl⟩

/-- The request for key 5 that starts the repartition is dispatched and not processed when the graph
thread answers: the new map has the populated keys and not 5. -/
theorem repartition_forgets_key : ∃ s temp, (system laggingConfig).Reachable s ∧
    s.scheduling = .installing temp ∧ ¬Keeps s (· ∈ temp) := by
  obtain ⟨s, reachable, round, parked, input, arriving, empty, lagging⟩ :=
    System.exists_reachable (M := system laggingConfig)
      (P := fun s => s.scheduling.round s.barrier.generation = 2 ∧ s.scheduling.parked = none ∧
        s.scheduling.input.isNone = true ∧ s.graphThread = .arriving2 ∧ s.barrier.waiting = false ∧
        s.caughtUp = false) laggingRun (by decide)
  have copying : s.scheduling = .copying := by
    cases place : s.scheduling with
    | copying => rfl
    | waiting1 | waiting2 =>
      rw [place] at parked
      cases parked
    | arriving2 =>
      rw [place] at input
      cases input
    | _ =>
      rw [place] at round
      cases round
  obtain ⟨-, known, -⟩ := reachable_snapshot rfl reachable
  obtain ⟨s', temp, reachable', place, same⟩ := exists_installing reachable known copying arriving empty
  obtain ⟨-, -, snapshot⟩ := reachable_snapshot rfl reachable'
  refine ⟨s', temp, reachable', place, fun keeps => ?_⟩
  have caughtUp := (snapshot.copied _ (by rw [place]; rfl)).mpr keeps
  rw [same, lagging] at caughtUp
  cases caughtUp

end StopTheWorld

end KvPaxos
