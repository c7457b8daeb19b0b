import KvPaxos.Scheduler.Drain
import KvPaxos.Scheduler.Method
import KvPaxos.Scheduler.Snapshot

/-!
# The process of the stop-the-world schedulers

`Scheduler` and `OldImbScheduler` with their workers: the threads of `StopTheWorld`, for any repartition
method, as the frontend of a `Process`. Its `dispatch` is made at the place `dispatching` and its
`sync_all_partitions` right after the new map is installed.

The threads come to rest because every pass through a loop takes a post of a semaphore. They do not block
each other before: to the balances of the hand-shake comes that of the distance semaphore of head 0.
-/

namespace KvPaxos

open Lib UnorderedMap FlowControl

namespace StopTheWorld

variable {n : Nat} {method : CutMethod} {cfg : Config n} {s s' : State n} {l : Label}

/-- The message the scheduling thread has still to dispatch. -/
def Scheduling.hand : Scheduling n → List ClientMessage
  | .releasing message | .dispatching message => [message]
  | _ => []

def Scheduling.call : Scheduling n → Call
  | .dispatching message => if message.type = .END then .stop message else .dispatch message
  | .installing _ => .syncAll
  | _ => .quiet

def call (s : State n) : Label → Call
  | .schedule _ | .cut _ => s.scheduling.call
  | .submit _ | .produce | .graph => .aside

def backlog (s : State n) : List ClientMessage := s.scheduling.hand ++ s.queue.queues 0

/-- The map of the populate requests. -/
def Config.populatedMapping (cfg : Config n) : Mapping n :=
  cfg.populated.foldl Mapping.mapKey ⟨∅, ⟨0, cfg.positive⟩⟩

/-- Under ROUND_ROBIN too a step is a move; the test of the interval counts as failed. -/
theorem exists_move (h : methodStep method cfg s l = some s') :
    ∃ l', Move cfg s l' s' ∧ call s l' = call s l ∧ l'.submits = l.submits := by
  rcases methodStep_move h with ⟨move, -⟩ | ⟨-, place, ⟨b, rfl⟩, rfl⟩
  · exact ⟨l, move, rfl, rfl⟩
  · exact ⟨.schedule false, Move.count place, rfl, rfl⟩

/-! ### The frontend -/

/-- What the scheduling thread takes comes off the front of what waits for it, and a submit adds to the end. -/
theorem Move.backlog (h : Move cfg s l s') : (call s l).taken ++ backlog s' = backlog s ++ l.submits.toList := by
  cases h with
  | submit message place =>
    show s.scheduling.hand ++ (s.queue.pushTo 0 message).queues 0 = (s.scheduling.hand ++ s.queue.queues 0) ++ [message]
    simp [Queue.pushTo]
  | push place =>
    show s.scheduling.hand ++ (s.queue.pushTo 1 _).queues 0 = (s.scheduling.hand ++ s.queue.queues 0) ++ []
    simp [Queue.pushTo]
  | pop0 place front =>
    obtain ⟨rest, queued, rfl⟩ := Queue.popFront_eq_some.mp front
    simp [call, backlog, place, Scheduling.call, Scheduling.hand, Call.taken, queued, Label.submits]
  | finish place type =>
    simp [call, backlog, place, Scheduling.call, Scheduling.hand, Call.taken, type, Label.submits]
  | dispatch place type involved =>
    simp [call, backlog, place, Scheduling.call, Scheduling.hand, Call.taken, type, Label.submits]
  | item0 place taken =>
    obtain ⟨-, rfl⟩ := Queue.waitItem_eq_some.mp taken
    simp [call, backlog, place, Scheduling.call, Scheduling.hand, Call.taken, Label.submits]
  | ahead0 place taken =>
    obtain ⟨-, rfl⟩ := Queue.waitAhead_eq_some.mp taken
    simp [call, backlog, place, Scheduling.call, Scheduling.hand, Call.taken, Label.submits]
  | release0 place | count place | start place | raise place | freeItem place | freeAhead place | park1 place | open1 place
  | resume1 place | copy place | park2 place | open2 place | resume2 place | cut place | install place =>
    simp [call, backlog, place, Scheduling.call, Scheduling.hand, Call.taken, Label.submits, Queue.postAhead, Queue.notify]
  | item1 place taken =>
    obtain ⟨-, rfl⟩ := Queue.waitItem_eq_some.mp taken
    simp [call, backlog, Call.taken, Label.submits]
  | ahead1 place taken =>
    obtain ⟨-, rfl⟩ := Queue.waitAhead_eq_some.mp taken
    simp [call, backlog, Call.taken, Label.submits]
  | pop1 place front =>
    obtain ⟨rest, queued, rfl⟩ := Queue.popFront_eq_some.mp front
    simp [call, backlog, Call.taken, Label.submits]
  | _ => simp [call, backlog, Call.taken, Label.submits, Queue.notify, Queue.postAhead]

/-- The scheduling and the graph thread with the producer. -/
def threads (method : CutMethod) (cfg : Config n) : Threads (State n) Label n where
  system := methodSystem method cfg
  submits := Label.submits
  call := call
  live s := some s.mapping
  due _ := false
  backlog := backlog
  start := cfg.populatedMapping

/-- Only a dispatch and the installation touch the map. -/
theorem Move.asks (h : Move cfg s l s') : (threads method cfg).Asks s s' (call s l) := by
  have kept : ∀ {t t' : State n}, t'.mapping = t.mapping → (threads method cfg).Kept t t' :=
    fun same => ⟨_, _, rfl, rfl, by rw [same], fun _ => ⟨rfl, same⟩⟩
  cases h with
  | submit | push | notify0 | notify1 | item1 | ahead1 | pass | hear | agree | refuse | answer | graphPark1 | graphOpen1
  | graphResume1 | graphPark2 | graphOpen2 | graphResume2 | pop1 | release1 | update | tally => exact .aside (kept rfl)
  | item0 place | ahead0 place | pop0 place | release0 place | count place | start place | raise place | freeItem place
  | freeAhead place | park1 place | open1 place | resume1 place | copy place | park2 place | open2 place | resume2 place
  | cut place =>
    simp only [call, place, Scheduling.call]
    exact .quiet (kept rfl)
  | finish place type =>
    simp only [call, place, Scheduling.call, if_pos type]
    exact .stop (kept rfl) type
  | dispatch place type involved =>
    simp only [call, place, Scheduling.call, if_neg type]
    exact .dispatch type rfl rfl rfl involved
  | install place =>
    simp only [call, place, Scheduling.call]
    exact .syncAll rfl rfl rfl

/-- They are a frontend. -/
def frontend (method : CutMethod) (cfg : Config n) : Frontend (State n) Label n where
  toThreads := threads method cfg
  live_init := by
    show some (methodInit method cfg).mapping = _
    unfold methodInit
    split <;> rfl
  backlog_init := by
    show backlog (methodInit method cfg) = []
    have empty := (schedulerQueue_empty (α := ClientMessage) cfg.queueHeadDistance 0).2
    unfold methodInit
    split <;> exact empty
  backlog_step s l s' _ _ step := by
    obtain ⟨l', move, same, submits⟩ := exists_move step
    show (call s l).taken ++ backlog s' = backlog s ++ l.submits.toList
    rw [← same, ← submits]
    exact move.backlog
  asks s l s' _ _ step := by
    obtain ⟨l', move, same, -⟩ := exists_move step
    show (threads method cfg).Asks s s' (call s l)
    rw [← same]
    exact move.asks

/-! ### The threads come to rest -/

/-- The statements up to the next `wait<0>()`, where those of the graph thread that a `free<1>` allows count too. -/
def Scheduling.left : Scheduling n → Nat
  | .waitingItem | .ended _ => 0
  | .installing _ => 1
  | .partitioning _ => 2
  | .waiting2 _ _ => 3
  | .arriving2 _ => 4
  | .copying => 5
  | .waiting1 _ => 6
  | .arriving1 => 7
  | .freeingAhead => 8
  | .freeingItem => 18
  | .raising => 19
  | .counting => 20
  | .dispatching _ => 21
  | .releasing _ => 22
  | .popping => 23
  | .waitingAhead => 24

def GraphThread.left : GraphThread → Nat
  | .waitingItem => 0
  | .counting | .waiting2 _ => 1
  | .updating _ | .arriving2 => 2
  | .releasing _ | .waiting1 _ => 3
  | .popping | .arriving1 => 4
  | .answering => 5
  | .comparing => 6
  | .checking => 7
  | .waitingAhead => 8

/-- The rest of a submit, with what its two posts allow. -/
def producerLeft : Producer ClientMessage → Nat
  | .idle => 0
  | .notifying1 => 10
  | .notifying0 => 36
  | .pushing _ => 37

/-- All statements the posts so far allow: a post for head 0 a pass of the scheduling loop, one for head 1 a
pass of the graph thread's. -/
def work (s : State n) : Nat :=
  producerLeft s.producer + 25 * s.queue.semaphores 0 + 9 * s.queue.semaphores 1 + s.scheduling.left + s.graphThread.left

/-- **Every statement but a submit uses some of them up.** -/
theorem work_move (h : Move cfg s l s') (none : l.submits = none) : work s' < work s := by
  have post : ∀ v, semPost Option.none v = v + 1 := fun v => if_neg nofun
  cases h with
  | submit => cases none
  | push place | notify0 place | notify1 place =>
    simp [work, place, producerLeft, Queue.pushTo, Queue.notify, post] <;>
      omega
  | item0 place taken =>
    obtain ⟨pos, rfl⟩ := Queue.waitItem_eq_some.mp taken
    simp [work, place, Scheduling.left]
    omega
  | ahead0 place taken =>
    obtain ⟨pos, rfl⟩ := Queue.waitAhead_eq_some.mp taken
    simp [work, place, Scheduling.left]
  | pop0 place front =>
    obtain ⟨rest, queued, rfl⟩ := Queue.popFront_eq_some.mp front
    simp [work, place, Scheduling.left]
  | release0 place | finish place | dispatch place | count place | start place | raise place | freeItem place
  | freeAhead place | park1 place | open1 place | resume1 place | copy place | park2 place | open2 place | resume2 place
  | cut place | install place =>
    simp [work, place, Scheduling.left, Queue.postAhead, Queue.notify, post] <;>
      omega
  | item1 place taken =>
    obtain ⟨pos, rfl⟩ := Queue.waitItem_eq_some.mp taken
    simp [work, place, GraphThread.left]
    omega
  | ahead1 place taken =>
    obtain ⟨pos, rfl⟩ := Queue.waitAhead_eq_some.mp taken
    simp [work, place, GraphThread.left]
  | pop1 place front =>
    obtain ⟨rest, queued, rfl⟩ := Queue.popFront_eq_some.mp front
    simp [work, place, GraphThread.left]
  | release1 place | pass place | hear place | agree place | refuse place | answer place | graphPark1 place | graphOpen1 place
  | graphResume1 place | graphPark2 place | graphOpen2 place | graphResume2 place | update place | tally place =>
    simp [work, place, GraphThread.left, Queue.postAhead]

/-! ### The threads do not block each other -/

/-- The distance of head 0. -/
def Config.ahead0 (cfg : Config n) : Nat :=
  (Queue.schedulerQueue (α := ClientMessage) cfg.queueHeadDistance).aheadSems 0

/-- What the threads need to go on: the invariant of the hand-shake, the balance of head 0's distance
semaphore, and messages and a graph they can work with. -/
structure Fed (cfg : Config n) (s : State n) : Prop where
  joint : Joint cfg.ahead1 s
  ahead0 : s.queue.aheadSems 0 + s.scheduling.held.ahead + (s.popped 0).length + s.graphThread.held.owes =
    cfg.ahead0 + (s.popped 1).length
  clients : ∀ m ∈ s.pushed, m.IsClient
  counted : ∃ history, Workload.run cfg.TL history = some s.workload
  positions : ∀ d, s.scheduling.input = some d →
    ∀ k i, d.verticeToPos.lookup k = some i → i < d.verticeWeight.length

/-- The distance semaphore of head 0 is posted by the `pop`s of head 1 only, so it holds the distance, less what head
0 is ahead. -/
theorem ahead0_move {A : Nat} (h : s.queue.aheadSems 0 + s.scheduling.held.ahead + (s.popped 0).length +
      s.graphThread.held.owes = A + (s.popped 1).length) (move : Move cfg s l s') :
    s'.queue.aheadSems 0 + s'.scheduling.held.ahead + (s'.popped 0).length + s'.graphThread.held.owes =
      A + (s'.popped 1).length := by
  have post : ∀ v, semPost none v = v + 1 := fun v => if_neg nofun
  cases move with
  | submit | push | notify0 | notify1 => simpa [Queue.pushTo, Queue.notify] using h
  | item0 place taken =>
    obtain ⟨pos, rfl⟩ := Queue.waitItem_eq_some.mp taken
    simpa [place, Scheduling.held] using h
  | ahead0 place taken =>
    obtain ⟨pos, rfl⟩ := Queue.waitAhead_eq_some.mp taken
    simp [place, Scheduling.held] at h ⊢
    omega
  | pop0 place front =>
    obtain ⟨rest, queued, rfl⟩ := Queue.popFront_eq_some.mp front
    simp [place, Scheduling.held] at h ⊢
    omega
  | release0 place | finish place | dispatch place | count place | start place | raise place | freeItem place
  | freeAhead place | park1 place | open1 place | resume1 place | copy place | park2 place | open2 place | resume2 place
  | cut place | install place => simpa [place, Scheduling.held, Queue.postAhead, Queue.notify] using h
  | item1 place taken =>
    obtain ⟨pos, rfl⟩ := Queue.waitItem_eq_some.mp taken
    simpa [place, GraphThread.held] using h
  | ahead1 place taken =>
    obtain ⟨pos, rfl⟩ := Queue.waitAhead_eq_some.mp taken
    simpa [place, GraphThread.held] using h
  | pop1 place front =>
    obtain ⟨rest, queued, rfl⟩ := Queue.popFront_eq_some.mp front
    simp [place, GraphThread.held] at h ⊢
    omega
  | release1 place =>
    simp [place, GraphThread.held, Queue.postAhead, post] at h ⊢
    omega
  | pass place | hear place | agree place | refuse place | answer place | graphPark1 place | graphOpen1 place
  | graphResume1 place | graphPark2 place | graphOpen2 place | graphResume2 place | update place | tally place =>
    simpa [place, GraphThread.held] using h

/-- The hand-shake and the distance semaphore have their own lemmas; what is submitted is the client's, and the copy
that is partitioned has its positions. -/
theorem fed_move (h : Fed cfg s) (clients : ∀ m ∈ l.submits, m.IsClient) (move : Move cfg s l s') : Fed cfg s' := by
  refine ⟨joint_move h.joint move, ahead0_move h.ahead0 move, ?_, ?_, ?_⟩
  · cases move with
    | submit message =>
      intro m mem
      rcases List.mem_append.mp mem with old | new
      · exact h.clients m old
      · rw [List.mem_singleton.mp new]
        exact clients message rfl
    | _ => exact h.clients
  · cases move with
    | @update request workload place observed =>
      obtain ⟨history, ran⟩ := h.counted
      refine ⟨history ++ [request], ?_⟩
      rw [Workload.run_snoc, ran]
      exact observed
    | _ => exact h.counted
  · have positions := h.positions
    cases move with
    | item0 | ahead0 | pop0 | release0 | finish | dispatch | count | start | raise | freeItem | freeAhead | park1 | open1
    | resume1 | cut | install => exact nofun
    | copy place copied =>
      obtain ⟨history, ran⟩ := h.counted
      rintro d ⟨⟩
      exact (Workload.copied ran copied).2
    | park2 place | open2 place | resume2 place =>
      rw [place] at positions
      exact positions
    | _ => exact positions

theorem Joint.workload {A : Nat} (h : Joint A s) (w : Workload) : Joint A { s with workload := w } where
  phases := h.phases
  tokens := { h.tokens with }
  covered := { h.covered with }
  contents := { h.contents with }

theorem via_fed (via : (methodSystem method cfg).Via (fun _ l => ∀ m ∈ l.submits, m.IsClient) s) : Fed cfg s := by
  refine via.invariant (P := Fed cfg) ?_ fun s l s' _ fed clients step => ?_
  · obtain ⟨w, ran, same⟩ := methodInit_eq method cfg
    show Fed cfg (methodInit method cfg)
    rw [same]
    have joint : Joint cfg.ahead1 (init cfg) := reachable_joint (System.Reachable.init (M := system cfg))
    exact ⟨joint.workload w, Nat.add_zero _, nofun, ⟨_, ran⟩, nofun⟩
  · obtain ⟨l', move, -, submits⟩ := exists_move step
    exact fed_move fed (submits ▸ clients) move

theorem submit_enabled (message : ClientMessage) (idle : s.producer = .idle) :
    (methodStep method cfg s (.submit message)).isSome := by
  unfold methodStep
  split
  · rfl
  · simp only [step, idle, Option.isSome_some]

/-- A submit under way goes on. -/
theorem produce_enabled (busy : s.producer.busy = true) : (methodStep method cfg s .produce).isSome := by
  have enabled : (step cfg s .produce).isSome := by
    refine Producer.busy_cases (motive := fun producer => s.producer = producer → (step cfg s .produce).isSome) busy
      (fun value place => ?_) (fun place => ?_) (fun place => ?_) rfl <;>
        simp only [step, produce, place, Option.isSome_some]
  unfold methodStep
  split
  · rfl
  · exact enabled

/-- Some thread has a statement to make that is no submit. -/
def Goes (method : CutMethod) (cfg : Config n) (s : State n) : Prop :=
  ∃ l s', l.submits = none ∧ methodStep method cfg s l = some s'

theorem goes_of_step (none : l.submits = none) (enabled : (step cfg s l).isSome) : Goes method cfg s := by
  have same : (methodStep method cfg s l).isSome := by
    unfold methodStep
    split
    · rfl
    · exact enabled
  obtain ⟨s', step⟩ := Option.isSome_iff_exists.mp same
  exact ⟨l, s', none, step⟩

/-- The graph thread can go on unless it waits for a post or at a barrier. -/
theorem Fed.graph_goes (fed : Fed cfg s) :
    Goes method cfg s ∨ GraphBlocked s ∨ s.graphThread.parked = some s.barrier.generation := by
  have go : (graph cfg s).isSome → Goes method cfg s := fun enabled => goes_of_step (l := .graph) rfl enabled
  cases place : s.graphThread with
  | waitingItem =>
    by_cases empty : s.queue.semaphores 1 = 0
    · exact Or.inr (Or.inl (Or.inl ⟨place, empty⟩))
    · refine Or.inl (go ?_)
      simp only [graph, place, Queue.waitItem, if_pos (Nat.pos_of_ne_zero empty), Option.isSome_map, Option.isSome_some]
  | waitingAhead =>
    by_cases empty : s.queue.aheadSems 1 = 0
    · exact Or.inr (Or.inl (Or.inr ⟨place, empty⟩))
    · refine Or.inl (go ?_)
      simp only [graph, place, Queue.waitAhead, if_pos (Nat.pos_of_ne_zero empty), Option.isSome_map, Option.isSome_some]
  | popping =>
    refine Or.inl (go ?_)
    have more := fed.joint.covered.item place
    have length := congrArg List.length fed.joint.contents.head1
    have behind := s.producer.unsent_le 1
    have some : s.queue.queues 1 ≠ [] := by
      intro empty
      rw [empty, List.append_nil, List.length_append] at length
      omega
    simp only [graph, place, Option.isSome_map, Queue.popFront_isSome some]
  | updating request =>
    refine Or.inl (go ?_)
    obtain ⟨history, ran⟩ := fed.counted
    have pushed : request ∈ s.pushed := by
      rw [fed.joint.contents.head1, fed.joint.contents.popped1, place]
      simp [GraphThread.inHand]
    obtain ⟨w, next, -⟩ := Workload.run_counts cfg.TL (history ++ [request]) fun m mem => by
      rcases List.mem_append.mp mem with old | new
      · exact Workload.run_countable ran m old
      · rw [List.mem_singleton.mp new]
        exact (fed.clients request pushed).countable
    rw [Workload.run_snoc, ran, Option.bind_some] at next
    simp only [graph, place, next, Option.map_some, Option.isSome_some]
  | waiting1 g | waiting2 g =>
    by_cases same : g = s.barrier.generation
    · subst same
      exact Or.inr (Or.inr rfl)
    · refine Or.inl (go ?_)
      simp only [graph, place, if_neg same, Option.isSome_some]
  | comparing =>
    refine Or.inl (go ?_)
    simp only [graph, place]
    split <;> rfl
  | checking | answering | arriving1 | arriving2 | releasing request | counting =>
    refine Or.inl (go ?_)
    simp only [graph, place, Option.isSome_some]

/-- The partitioner has an answer: all vertices to the first partition. -/
theorem exists_cut {d : InputGraph} (positive : 0 < n) (positions : ∀ k i, d.verticeToPos.lookup k = some i → i < d.verticeWeight.length) :
    ∃ scheme : List Int, (scheme.length = d.verticeWeight.length ∧ ∀ p ∈ scheme, 0 ≤ p ∧ p < n) ∧
      (KvPaxos.partitioning n d (.sorted _) scheme).isSome := by
  have scheme : (List.replicate d.verticeWeight.length (0 : Int)).length = d.verticeWeight.length ∧
      ∀ p ∈ List.replicate d.verticeWeight.length (0 : Int), 0 ≤ p ∧ p < n := by
    refine ⟨List.length_replicate, fun p mem => ?_⟩
    rw [List.eq_of_mem_replicate mem]
    omega
  obtain ⟨map, built, -⟩ := partitioning_assigns (.sorted d.verticeToPos) positions scheme.1 scheme.2
  exact ⟨_, scheme, by rw [built]; rfl⟩

/-- The same of the scheduling thread, until it ends. -/
theorem Fed.schedule_goes (fed : Fed cfg s) :
    Goes method cfg s ∨ (s.scheduling = .waitingItem ∧ s.queue.semaphores 0 = 0) ∨
      (s.scheduling = .waitingAhead ∧ s.queue.aheadSems 0 = 0) ∨ AtBarrier s ∨ ∃ message, s.scheduling = .ended message := by
  have go : ∀ b, (schedule cfg s b).isSome → Goes method cfg s := fun b enabled => goes_of_step (l := .schedule b) rfl enabled
  cases place : s.scheduling with
  | waitingItem =>
    by_cases empty : s.queue.semaphores 0 = 0
    · exact Or.inr (Or.inl ⟨rfl, empty⟩)
    · refine Or.inl (go false ?_)
      simp only [schedule, place, Queue.waitItem, if_pos (Nat.pos_of_ne_zero empty), Option.isSome_map, Option.isSome_some]
  | waitingAhead =>
    by_cases empty : s.queue.aheadSems 0 = 0
    · exact Or.inr (Or.inr (Or.inl ⟨rfl, empty⟩))
    · refine Or.inl (go false ?_)
      simp only [schedule, place, Queue.waitAhead, if_pos (Nat.pos_of_ne_zero empty), Option.isSome_map, Option.isSome_some]
  | popping =>
    refine Or.inl (go false ?_)
    have items := fed.joint.tokens.item0
    have length := congrArg List.length fed.joint.contents.head0
    have some : s.queue.queues 0 ≠ [] := by
      intro empty
      rw [empty, List.append_nil] at length
      simp only [place, Scheduling.held] at items
      omega
    simp only [schedule, place, Option.isSome_map, Queue.popFront_isSome some]
  | dispatching message =>
    refine Or.inl (go false ?_)
    have pushed : message ∈ s.pushed := by
      rw [fed.joint.contents.head0, fed.joint.contents.popped0, place]
      simp [Scheduling.inHand]
    obtain ⟨length, range, -⟩ := (fed.clients message pushed).range
    simp only [schedule, place, Mapping.involvedPartitions, range]
    split <;> rfl
  | counting =>
    refine Or.inl ?_
    cases interval : cfg.interval with
    | operations k pos =>
      refine go (decide ((s.nDispatchedRequests + 1) % k = 0)) ?_
      simp only [schedule, place, interval, Interval.allows, decide_true, if_true, Option.isSome_some]
    | chosen =>
      refine go false ?_
      simp only [schedule, place, interval, Interval.allows, if_true, Option.isSome_some]
  | copying =>
    refine Or.inl (go false ?_)
    obtain ⟨history, ran⟩ := fed.counted
    obtain ⟨d, copied, -⟩ := multilevelCutData_built (Workload.run_wellFormed ran).row fun _ => .sorted _
    simp only [schedule, place, copied, Option.map_some, Option.isSome_some]
  | partitioning d =>
    obtain ⟨scheme, fits, built⟩ := exists_cut s.mapping.roundRobinCounter.pos (fed.positions d (by rw [place]; rfl))
    refine Or.inl (goes_of_step (l := .cut scheme) rfl ?_)
    simp only [step, cut, place, if_pos fits, Option.isSome_map, built]
  | waiting1 g =>
    by_cases same : g = s.barrier.generation
    · exact Or.inr (Or.inr (Or.inr (Or.inl (by rw [AtBarrier, place, same]; rfl))))
    · refine Or.inl (go false ?_)
      simp only [schedule, place, if_neg same, Option.isSome_some]
  | waiting2 d g =>
    by_cases same : g = s.barrier.generation
    · exact Or.inr (Or.inr (Or.inr (Or.inl (by rw [AtBarrier, place, same]; rfl))))
    · refine Or.inl (go false ?_)
      simp only [schedule, place, if_neg same, Option.isSome_some]
  | ended message => exact Or.inr (Or.inr (Or.inr (Or.inr ⟨message, rfl⟩)))
  | releasing | raising | freeingItem | freeingAhead | arriving1 | arriving2 | installing =>
    refine Or.inl (go false ?_)
    simp only [schedule, place, Option.isSome_some]

/-- The two heads may be apart. -/
theorem ahead_pos (cfg : Config n) : 0 < cfg.ahead0 + cfg.ahead1 := by
  unfold Config.ahead0 Config.ahead1 Queue.schedulerQueue
  split
  · show 0 < SEM_VALUE_MAX + 0
    decide
  · show 0 < cfg.queueHeadDistance / 2 + (cfg.queueHeadDistance / 2 + cfg.queueHeadDistance % 2)
    omega

/-- While the scheduling thread waits for the graph thread to pop, the graph thread has something to pop. -/
theorem Fed.not_blocked (fed : Fed cfg s) (idle : s.producer = .idle) (place : s.scheduling = .waitingAhead)
    (empty : s.queue.aheadSems 0 = 0) : ¬GraphBlocked s ∧ s.graphThread.parked ≠ some s.barrier.generation := by
  have round : s.scheduling.round s.barrier.generation = 0 := by
    rw [place]
    rfl
  obtain ⟨item0, item1, ahead1, notes, -, -⟩ := fed.joint.tokens
  have ahead0 := fed.ahead0
  have positive := ahead_pos cfg
  rw [fed.joint.phases.quiet round, Bool.toNat_false] at notes
  simp only [place, idle, Scheduling.held, Producer.unposted] at item0 item1 ahead0 ahead1
  refine ⟨?_, fun parked => ?_⟩
  · rintro (⟨graph, none⟩ | ⟨graph, none⟩)
    · simp only [graph, GraphThread.held] at item1 ahead0 ahead1
      omega
    · simp only [graph, GraphThread.held] at item1 ahead0 ahead1
      omega
  · have opening := GraphThread.round_parked parked
    rcases fed.joint.phases.rounds with ⟨-, zero, -⟩ | ⟨one, -⟩ | ⟨one, -⟩ | ⟨two, -⟩ <;> omega

/-- **The threads go on** while a message is left. -/
theorem Fed.goes (fed : Fed cfg s) (more : backlog s ≠ []) (running : ∀ message, s.scheduling ≠ .ended message) :
    Goes method cfg s := by
  cases idle : s.producer with
  | idle =>
    have scheduling : Goes method cfg s ∨ _ := fed.schedule_goes
    rcases scheduling with goes | ⟨place, empty⟩ | ⟨place, empty⟩ | waits | ⟨message, ended⟩
    · exact goes
    · refine absurd ?_ more
      have item0 := fed.joint.tokens.item0
      have length := congrArg List.length fed.joint.contents.head0
      simp only [place, idle, Scheduling.held, Producer.unposted] at item0
      rw [List.length_append] at length
      have none : s.queue.queues 0 = [] := List.eq_nil_of_length_eq_zero (by omega)
      rw [backlog, place, none]
      rfl
    · obtain ⟨free, apart⟩ := fed.not_blocked idle place empty
      exact fed.graph_goes.resolve_right fun stuck => stuck.elim free apart
    · have apart := fed.joint.phases.apart
      exact fed.graph_goes.resolve_right fun stuck => stuck.elim (fed.joint.noDeadlock idle waits) fun parked => apart ⟨waits, parked⟩
    · exact absurd ended (running message)
  | pushing message | notifying0 | notifying1 =>
    have enabled : (methodStep method cfg s .produce).isSome := produce_enabled (by rw [idle]; rfl)
    obtain ⟨s', step⟩ := Option.isSome_iff_exists.mp enabled
    exact ⟨.produce, s', rfl, step⟩

/-- 1 from a dispatch to the `sync_all_partitions` that may follow it. -/
def Scheduling.credit : Scheduling n → Nat
  | .counting | .raising | .freeingItem | .freeingAhead | .arriving1 | .waiting1 _ | .copying | .arriving2 _
  | .waiting2 _ _ | .partitioning _ | .installing _ => 1
  | .waitingItem | .waitingAhead | .popping | .releasing _ | .dispatching _ | .ended _ => 0

/-- **At most one repartition comes after each dispatch.** -/
theorem Move.credit (h : Move cfg s l s') :
    s'.scheduling.credit + (call s l).syncs ≤ s.scheduling.credit + (call s l).dispatches := by
  cases h with
  | item0 place | ahead0 place | pop0 place | release0 place | count place | start place | raise place | freeItem place
  | freeAhead place | park1 place | open1 place | resume1 place | copy place | park2 place | open2 place | resume2 place
  | cut place | install place =>
    simp [call, place, Scheduling.call, Scheduling.credit, Call.syncs, Call.dispatches]
  | finish place type | dispatch place type =>
    simp [call, place, Scheduling.call, Scheduling.credit, Call.syncs, Call.dispatches, type]
  | _ => simp [call, Call.syncs, Call.dispatches]

/-- What brings the threads to rest. -/
def draining (method : CutMethod) (cfg : Config n) : (frontend method cfg).Draining where
  work := work
  work_step s l s' step none := by
    obtain ⟨l', move, -, submits⟩ := exists_move step
    exact work_move move (submits.trans none)
  ended s := ∃ message, s.scheduling = .ended message
  ended_init := by
    show ¬∃ message, (methodInit method cfg).scheduling = .ended message
    unfold methodInit
    split <;> exact nofun
  ended_step s l s' step := by
    obtain ⟨l', move, same, -⟩ := exists_move step
    show _ → _ ∨ ∃ message, call s l = .stop message
    rw [← same]
    cases move with
    | @finish b message place type =>
      refine fun _ => Or.inr ⟨message, ?_⟩
      simp only [call, place, Scheduling.call, if_pos type]
    | item0 | ahead0 | pop0 | release0 | dispatch | count | start | raise | freeItem | freeAhead | park1 | open1 | resume1
    | copy | park2 | open2 | resume2 | cut | install => exact nofun
    | _ => exact Or.inl
  goes s via more running := (via_fed via).goes more fun message ended => running ⟨message, ended⟩
  credit s := s.scheduling.credit
  credit_init := by
    show (methodInit method cfg).scheduling.credit = 0
    unfold methodInit
    split <;> rfl
  credit_step s l s' step := by
    obtain ⟨l', move, same, -⟩ := exists_move step
    show _ + (call s l).syncs ≤ _ + (call s l).dispatches
    rw [← same]
    exact move.credit

/-! ### The process -/

/-- The replica with this scheduler: `Capacity` and the zlib wrapper of its partitions. -/
def process (method : CutMethod) (cfg : Config n) (capacity : Nat) (compresser : Compresser) :
    Process.Config (State n) Label n where
  frontend := frontend method cfg
  capacity := capacity
  compresser := compresser
  populated := cfg.populated

/-- The heads start no further apart than the distance, or all of a semaphore. -/
theorem ahead_le (distance : cfg.queueHeadDistance ≤ SEM_VALUE_MAX) :
    cfg.ahead0 + cfg.ahead1 ≤ SEM_VALUE_MAX ∧ 2 * cfg.ahead1 ≤ SEM_VALUE_MAX + 1 := by
  unfold Config.ahead0 Config.ahead1 Queue.schedulerQueue
  split
  · show SEM_VALUE_MAX + 0 ≤ SEM_VALUE_MAX ∧ 2 * 0 ≤ SEM_VALUE_MAX + 1
    omega
  · show cfg.queueHeadDistance / 2 + (cfg.queueHeadDistance / 2 + cfg.queueHeadDistance % 2) ≤ SEM_VALUE_MAX ∧
      2 * (cfg.queueHeadDistance / 2 + cfg.queueHeadDistance % 2) ≤ SEM_VALUE_MAX + 1
    omega

/-- On few messages the semaphores and the counter stay in range. -/
theorem Fed.within (fed : Fed cfg s) (distance : cfg.queueHeadDistance ≤ SEM_VALUE_MAX)
    (few : 6 * s.pushed.length ≤ SEM_VALUE_MAX) : Process.Within s.queue s.nDispatchedRequests := by
  obtain ⟨item0, item1, ahead1, notes, dispatched, -⟩ := fed.joint.tokens
  have ahead0 := fed.ahead0
  have apart := fed.joint.covered.distance
  have limits := ahead_le distance
  have note : s.note.toNat ≤ 1 := Bool.toNat_le s.note
  have head0 := congrArg List.length fed.joint.contents.head0
  rw [List.length_append] at head0
  have max : SEM_VALUE_MAX = 2 ^ 31 - 1 := rfl
  refine ⟨fun h => ?_, fun h => ?_, by omega⟩
  · match h with
    | 0 => omega
    | 1 => omega
  · match h with
    | 0 => omega
    | 1 => omega

/-- The messages submitted to the process are those pushed. -/
theorem via_pushed {capacity : Nat} {compresser : Compresser} {s : Process.State (State n) n}
    (via : (Process.system (process method cfg capacity compresser)).Via
      (Process.FromClients (process method cfg capacity compresser)) s) : s.front.pushed = s.submitted := by
  refine Process.via_submitted (P := fun f messages => f.pushed = messages) ?_ (fun f l f' messages held step => ?_) via
  · show (methodInit method cfg).pushed = []
    unfold methodInit
    split <;> rfl
  · obtain ⟨l', move, -, submits⟩ := exists_move step
    show f'.pushed = messages ++ l.submits.toList
    rw [← submits, ← held]
    cases move <;> simp [Label.submits]

/-- A repartition after every request, on two unbounded queues. -/
abbrev laggingProcess : Process.Config (State 2) Label 2 := process .METIS laggingConfig 0 ⟨id, some⟩

/-- The mixed workload has been submitted, and no other thread has moved. -/
theorem exists_submitted : ∃ s, (Process.system laggingProcess).Via (Process.FromClients laggingProcess) s ∧
    s.submitted = Process.mixedWorkload :=
  System.exists_via (P := fun s : Process.State (State 2) 2 => s.submitted = Process.mixedWorkload) _
    (Process.mixedWorkload.flatMap fun m => [.front (.submit m) [], .front .produce [], .front .produce [], .front .produce []])
    (by decide +kernel)

theorem lagging_given {s : Process.State (State 2) 2} (submitted : s.submitted = Process.mixedWorkload) :
    Pool.Settled (laggingProcess.given s) ∧ Pool.Answerable (laggingProcess.given s) :=
  Process.mixed_given (c := laggingProcess.given s) (by rw [Process.Config.given, submitted]; decide) rfl

/-- **The stop-the-world schedulers serve**: `Scheduler` or `OldImbScheduler` with its scheduling and graph thread,
its partitions and a client that submits at any time. Whatever the method, the interval, the capacity and the
interleaving, every run on a settled workload answers as the submitted requests executed one by one. -/
theorem stopTheWorld_serves (method : CutMethod) (cfg : Config n) (capacity : Nat) (compresser : Compresser)
    {s : Process.State (State n) n}
    (via : (Process.system (process method cfg capacity compresser)).Via (Process.FromClients (process method cfg capacity compresser)) s)
    (settled : Pool.Settled ((process method cfg capacity compresser).given s)) :
    Process.Serves (process method cfg capacity compresser) s :=
  (Process.via_linked via).serves settled

/-- The mixed workload, with its SCAN of a key of each partition, executed to its end. -/
theorem stopTheWorld_serves_lagging : ∃ t, (Process.system laggingProcess).Via (Process.FromClients laggingProcess) t ∧
    t.submitted = Process.mixedWorkload ∧ Process.Finished laggingProcess t ∧ Process.Serves laggingProcess t := by
  obtain ⟨s, via, submitted⟩ := exists_submitted
  have few : Process.Few s := by
    rw [Process.Few, submitted]
    decide
  obtain ⟨t, later, same, finished⟩ :=
    (Process.drains (draining .METIS laggingConfig) via few (lagging_given submitted).2 (by rw [submitted]; decide)).exists_reached
  have via' := via.trans later fun _ _ quiet => quiet.fromClients
  exact ⟨t, via', same.trans submitted, finished, stopTheWorld_serves .METIS laggingConfig 0 ⟨id, some⟩ via'
    (lagging_given (same.trans submitted)).1⟩

end StopTheWorld

end KvPaxos
