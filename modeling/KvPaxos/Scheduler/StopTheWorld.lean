import KvPaxos.Lib.System
import KvPaxos.Queue.FlowControl
import KvPaxos.Scheduler.Dispatch
import KvPaxos.Scheduler.InputGraph

/-!
# The stop-the-world repartition

The producer's `submit`, `scheduling_loop` with `schedule_and_answer`, and
`update_graph_loop` of the base `Scheduler`, whose hand-shake `OldImbScheduler` repeats,
interleaved at every access to what they share: the queue, `note_`, the two counters, the
barrier and the workload graph. What a thread does on its own data is one step. The
`push_request` calls of a dispatch go to the workers and touch nothing of this.

The two counters are the counts themselves and the queue's semaphores have no limit. The
threads of the source are these as long as fewer than `2 ^ 31` requests are dispatched, where
`n_dispatched_requests_` is still the count, and no `sem_post` finds `SEM_VALUE_MAX`:
`CounterWidths` has the counters in their own widths and what they do past these, and
`via_within` says of a process with few messages that it stays below both.

`pushed`, `popped`, `dispatched`, `processed`, `raised` and `answered` are ghosts. So is
`caughtUp`: whether the graph had every key of the dispatched requests at the last answer,
by the counters or because the last request brought no new key.
-/

namespace KvPaxos

open Lib UnorderedMap

namespace StopTheWorld

/-- When a repartition is started: after every `k` requests, or at points the clock or the
imbalance test chooses. -/
inductive Interval where
  | operations (k : Nat) (pos : 0 < k)
  | chosen

/-- The constructor's arguments and the template's `TL`; `populated` are the keys of `process_populate_request`, in
the order of the calls. A repartition method comes in with `methodSystem`. -/
structure Config (n : Nat) where
  positive : 0 < n
  TL : Nat
  queueHeadDistance : Nat
  interval : Interval
  populated : List Int

/-- Where the scheduling thread is. -/
inductive Scheduling (n : Nat) where
  /-- `wait<0>()`, its two halves. -/
  | waitingItem
  | waitingAhead
  /-- `pop<0>()`, its two halves. -/
  | popping
  | releasing (message : ClientMessage)
  /-- `dispatch(request)`, or the exit on END. -/
  | dispatching (message : ClientMessage)
  /-- `n_dispatched_requests_++` and the test of the interval. -/
  | counting
  /-- `note_ = true`. -/
  | raising
  /-- `free<1>()`, its two halves. -/
  | freeingItem
  | freeingAhead
  /-- The first `pthread_barrier_wait`, before and inside. -/
  | arriving1
  | waiting1 (generation : Nat)
  /-- `InputGraph<T>(workload_graph_)`. -/
  | copying
  /-- The second `pthread_barrier_wait`, before and inside. -/
  | arriving2 (inputGraph : InputGraph)
  | waiting2 (inputGraph : InputGraph) (generation : Nat)
  /-- `partitioning(input_graph)`. -/
  | partitioning (inputGraph : InputGraph)
  /-- `data_to_partition_ = temp`. -/
  | installing (temp : UnorderedMap Int (Fin n))
  | ended (message : ClientMessage)

/-- Where the graph thread is. -/
inductive GraphThread where
  /-- `wait<1>()`, its two halves. -/
  | waitingItem
  | waitingAhead
  /-- The test of `note_`. -/
  | checking
  /-- `n_processed_requests_+1 >= n_dispatched_requests_`. -/
  | comparing
  /-- `note_ = false`. -/
  | answering
  /-- The two `pthread_barrier_wait`s, before and inside each. -/
  | arriving1
  | waiting1 (generation : Nat)
  | arriving2
  | waiting2 (generation : Nat)
  /-- `pop<1>()`, its two halves. -/
  | popping
  | releasing (request : ClientMessage)
  /-- `update_graph(request)` and the expiry. -/
  | updating (request : ClientMessage)
  /-- `n_processed_requests_++`. -/
  | counting
  deriving DecidableEq

/-- `repartition_barrier_`, of count 2: whether a thread is waiting, and how often it has opened. -/
structure RepartitionBarrier where
  waiting : Bool := false
  generation : Nat := 0

/-- `pthread_barrier_wait` is entered; the second thread opens the barrier and goes on, the first
waits for its generation to pass. -/
def RepartitionBarrier.arrive (b : RepartitionBarrier) : RepartitionBarrier × Option Nat :=
  if b.waiting then ({ waiting := false, generation := b.generation + 1 }, none)
  else ({ b with waiting := true }, some b.generation)

/-- The fields of `Scheduler` that its three threads share, and where each thread is. What has been pushed, popped at
either head, dispatched and processed, how often `note_` was raised and answered, and what the last answer found
(`caughtUp`) are ghosts. -/
structure State (n : Nat) where
  queue : Queue ClientMessage
  producer : FlowControl.Producer ClientMessage := .idle
  scheduling : Scheduling n := .waitingItem
  graphThread : GraphThread := .waitingItem
  note : Bool := false
  barrier : RepartitionBarrier := {}
  nDispatchedRequests : Nat := 0
  nProcessedRequests : Nat := 0
  mapping : Mapping n
  workload : Workload
  pushed : List ClientMessage := []
  popped : Fin 2 → List ClientMessage := fun _ => []
  dispatched : List ClientMessage := []
  processed : List ClientMessage := []
  raised : Nat := 0
  answered : Nat := 0
  caughtUp : Bool := true

/-- A statement of one of the threads; the first half of `submit` brings in the message. -/
inductive Label where
  | submit (message : ClientMessage)
  | produce
  /-- The scheduling thread's next statement; `start` is the outcome of the interval's test. -/
  | schedule (start : Bool)
  /-- `partitioning`, where the partitioner answers with `scheme`. -/
  | cut (scheme : List Int)
  | graph
  deriving DecidableEq

/-- The message a step submits. -/
def Label.submits : Label → Option ClientMessage
  | .submit message => some message
  | _ => none

variable {n : Nat}

/-- The populate requests, as far as the mapping and the graph see them. -/
def Config.populateRequests (cfg : Config n) : List ClientMessage :=
  cfg.populated.map fun key => { type := .WRITE, key := key }

theorem Config.populate_countable (cfg : Config n) : ∀ m ∈ cfg.populateRequests, m.Countable := by
  intro m mem
  obtain ⟨k, -, rfl⟩ := List.mem_map.mp mem
  exact ⟨1, rfl, by omega⟩

/-- `process_populate_request` of every populate request, then the start of the threads. -/
def init (cfg : Config n) : State n where
  queue := Queue.schedulerQueue cfg.queueHeadDistance
  mapping := cfg.populated.foldl Mapping.mapKey ⟨∅, ⟨0, cfg.positive⟩⟩
  workload := (Workload.run cfg.TL cfg.populateRequests).getD (Workload.start cfg.TL)

/-- `start_repartitioning`, after `count` requests: the remainder is that of the `int`
`n_dispatched_requests_` for a `count` below `2 ^ 31`. -/
def Interval.allows : Interval → Nat → Bool → Bool
  | .operations k _, count, start => start = decide (count % k = 0)
  | .chosen, _, _ => true

/-- The producer's next statement: `submit` pushes the message to both queues, `notify<0>()` posts the item
semaphore of the scheduling thread and `notify<1>()` that of the graph thread. `FlowControl.produce` has the
limit of these posts, `SEM_VALUE_MAX` waiting messages, which is left out here. -/
def produce (s : State n) : Option (State n) :=
  match s.producer with
  | .idle => none
  | .pushing message => some { s with queue := s.queue.pushTo 1 message, producer := .notifying0 }
  | .notifying0 => some { s with queue := s.queue.notify none 0, producer := .notifying1 }
  | .notifying1 => some { s with queue := s.queue.notify none 1, producer := .idle }

/-- The scheduling thread's next statement: `wait<0>` and `pop<0>` of `scheduling_loop`, then
`schedule_and_answer`, which dispatches, counts, tests the interval and, where that starts a repartition,
raises `note_`, frees the other head once, copies the graph between the two barriers, partitions the copy
and installs the map. An END leaves the loop. -/
def schedule (cfg : Config n) (s : State n) (start : Bool) : Option (State n) :=
  match s.scheduling with
  | .waitingItem => (s.queue.waitItem 0).map fun q => { s with queue := q, scheduling := .waitingAhead }
  | .waitingAhead => (s.queue.waitAhead 0).map fun q => { s with queue := q, scheduling := .popping }
  | .popping => (s.queue.popFront 0).map fun (message, q) =>
      { s with
        queue := q
        scheduling := .releasing message
        popped := Function.update s.popped 0 (s.popped 0 ++ [message]) }
  | .releasing message =>
    some { s with queue := s.queue.postAhead none 1, scheduling := .dispatching message }
  | .dispatching message =>
    if message.type = .END then some { s with scheduling := .ended message }
    else (s.mapping.involvedPartitions message).map fun (mapping, _) =>
      { s with mapping := mapping, scheduling := .counting, dispatched := s.dispatched ++ [message] }
  | .counting =>
    if cfg.interval.allows (s.nDispatchedRequests + 1) start then
      some { s with
        nDispatchedRequests := s.nDispatchedRequests + 1
        scheduling := if start then .raising else .waitingItem }
    else none
  | .raising => some { s with note := true, scheduling := .freeingItem, raised := s.raised + 1 }
  | .freeingItem => some { s with queue := s.queue.notify none 1, scheduling := .freeingAhead }
  | .freeingAhead => some { s with queue := s.queue.postAhead none 1, scheduling := .arriving1 }
  | .arriving1 =>
    let (barrier, generation) := s.barrier.arrive
    some { s with barrier := barrier, scheduling := generation.elim .copying .waiting1 }
  | .waiting1 generation =>
    if generation = s.barrier.generation then none else some { s with scheduling := .copying }
  | .copying => (s.workload.workloadGraph.multilevelCutData fun _ => .sorted _).map fun inputGraph =>
      { s with scheduling := .arriving2 inputGraph }
  | .arriving2 inputGraph =>
    let (barrier, generation) := s.barrier.arrive
    some { s with
      barrier := barrier
      scheduling := generation.elim (.partitioning inputGraph) (.waiting2 inputGraph) }
  | .waiting2 inputGraph generation =>
    if generation = s.barrier.generation then none else some { s with scheduling := .partitioning inputGraph }
  | .installing temp =>
    some { s with mapping := { s.mapping with dataToPartition := temp }, scheduling := .waitingItem }
  | .partitioning _ | .ended _ => none

/-- `partitioning` with the partitioner's vector: one partition in range for each vertex. -/
def cut (s : State n) (scheme : List Int) : Option (State n) :=
  match s.scheduling with
  | .partitioning inputGraph =>
    if scheme.length = inputGraph.verticeWeight.length ∧ ∀ p ∈ scheme, 0 ≤ p ∧ p < n then
      (KvPaxos.partitioning n inputGraph (.sorted _) scheme).map fun temp => { s with scheduling := .installing temp }
    else none
  | _ => none

/-- Every key of the dispatched requests is in the graph, by the counters or because the last of
them brought no new key. -/
def upToDate (s : State n) : Bool :=
  decide (s.nDispatchedRequests ≤ s.nProcessedRequests) ||
    s.dispatched.getLast?.all fun last => last.keys.all (· ∈ s.workload.workloadGraph.vertexWeight)

/-- The graph thread's next statement: `update_graph_loop` waits for a message, looks at `note_` and, where the
note is up and the counters let it, answers it at the two barriers; else it pops the message and
processes it. The counters are compared as counts, as `n_processed_requests_+1 >= n_dispatched_requests_` does
while the `int` has not wrapped. -/
def graph (cfg : Config n) (s : State n) : Option (State n) :=
  match s.graphThread with
  | .waitingItem => (s.queue.waitItem 1).map fun q => { s with queue := q, graphThread := .waitingAhead }
  | .waitingAhead => (s.queue.waitAhead 1).map fun q => { s with queue := q, graphThread := .checking }
  | .checking => some { s with graphThread := if s.note then .comparing else .popping }
  | .comparing =>
    if s.nDispatchedRequests ≤ s.nProcessedRequests + 1 then
      some { s with graphThread := .answering, caughtUp := upToDate s }
    else some { s with graphThread := .popping }
  | .answering => some { s with note := false, graphThread := .arriving1, answered := s.answered + 1 }
  | .arriving1 =>
    let (barrier, generation) := s.barrier.arrive
    some { s with barrier := barrier, graphThread := generation.elim .arriving2 .waiting1 }
  | .waiting1 generation =>
    if generation = s.barrier.generation then none else some { s with graphThread := .arriving2 }
  | .arriving2 =>
    let (barrier, generation) := s.barrier.arrive
    some { s with barrier := barrier, graphThread := generation.elim .waitingItem .waiting2 }
  | .waiting2 generation =>
    if generation = s.barrier.generation then none else some { s with graphThread := .waitingItem }
  | .popping => (s.queue.popFront 1).map fun (request, q) =>
      { s with
        queue := q
        graphThread := .releasing request
        popped := Function.update s.popped 1 (s.popped 1 ++ [request]) }
  | .releasing request =>
    some { s with queue := s.queue.postAhead none 0, graphThread := .updating request }
  | .updating request => (s.workload.observe cfg.TL request).map fun workload =>
      { s with workload := workload, graphThread := .counting, processed := s.processed ++ [request] }
  | .counting => some { s with nProcessedRequests := s.nProcessedRequests + 1, graphThread := .waitingItem }

/-- One statement of one of the threads. There is one producer, whose `submit`s follow one another. -/
def step (cfg : Config n) (s : State n) : Label → Option (State n)
  | .submit message =>
    match s.producer with
    | .idle => some { s with
        queue := s.queue.pushTo 0 message
        producer := .pushing message
        pushed := s.pushed ++ [message] }
    | _ => none
  | .produce => produce s
  | .schedule start => schedule cfg s start
  | .cut scheme => cut s scheme
  | .graph => graph cfg s

/-- The three threads as a labelled system. -/
def system (cfg : Config n) : System (State n) Label := ⟨init cfg, step cfg⟩

end StopTheWorld

end KvPaxos
