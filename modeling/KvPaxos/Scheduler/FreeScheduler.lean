import KvPaxos.Lib.Heap
import KvPaxos.Scheduler.StopTheWorld

/-!
# The asynchronous repartition

`FreeScheduler` and the three schedulers that inherit from it, `NonStopScheduler`,
`AsyncScheduler` and `AsyncImbScheduler`: `scheduling_loop` with `schedule_and_answer`,
`update_graph_loop` with `order_partitioning` and `partitioning_loop`, interleaved at every
access to what the threads share. What a thread does on its own data is one step. The
repartition method is one that partitions, so the tests for ROUND_ROBIN are left out, and
so are the `push_request` calls, which touch nothing of this.

The two maps live on a heap and are reached through `data_to_partition_` and
`updated_data_to_partition_`. The clock, the queue lengths `imbalance()` looks at and the
counts of cross-partition requests appear as choices in the labels.

`processed`, `ordered`, `produced` and `installed` are ghosts: the messages the graph has
seen, the graphs posted, the maps made with the graphs they were made from, and the maps
that became `data_to_partition_`.

As in `StopTheWorld` the counters are the counts and the item semaphores have no limit, which
is the source as long as fewer than `2 ^ 31` requests are dispatched and no `sem_post` finds
`SEM_VALUE_MAX`: `via_within` says of a process with few messages that it stays below both.
-/

namespace KvPaxos

open Lib UnorderedMap

namespace FreeScheduler

open StopTheWorld (Interval)

/-- The four classes: `FreeScheduler`, `NonStopScheduler`, which overrides the loop of the graph thread,
`AsyncScheduler`, which tests the interval in the scheduling thread, and `AsyncImbScheduler`, which tests the
imbalance as well. -/
inductive Variant where
  | free | nonStop | async | asyncImb
  deriving DecidableEq

/-- The constructor's arguments, and which class is constructed. -/
structure Config (n : Nat) extends StopTheWorld.Config n where
  variant : Variant

/-- Where the scheduling thread is; the places after `counting` are those of `schedule_and_answer`. -/
inductive Scheduling where
  /-- `wait<0>()` and `pop<0>()`, their halves. -/
  | waitingItem
  | waitingAhead
  | popping
  | releasing (message : ClientMessage)
  /-- `dispatch(request)`, or the exit on END. -/
  | dispatching (message : ClientMessage)
  /-- `n_dispatched_requests_++`. -/
  | counting
  /-- `repartitioning_.load()` and the test of the interval, in `AsyncScheduler`. -/
  | loadingRepartitioning
  | testingInterval
  /-- `repartition_.store(true)` and `repartitioning_.store(true)`, in `AsyncScheduler`. -/
  | raisingRepartition
  | raisingRepartitioning
  /-- `update_.load()`. -/
  | loadingUpdate
  /-- `change_partition_scheme`, its three assignments and `sync_all_partitions`. -/
  | saving
  | swapping (temp : Nat)
  | restoring (temp : Nat)
  | syncing
  /-- `update_.store(false)`. -/
  | loweringUpdate
  /-- `operation_start_ = n_dispatched_requests_`, in `AsyncImbScheduler`. -/
  | resetting
  /-- `repartitioning_.store(false)`. -/
  | loweringRepartitioning
  /-- `operation_start_ = n_dispatched_requests_`, in `AsyncScheduler`. -/
  | restarting
  | ended
  deriving DecidableEq

/-- Where the graph thread is; the places after `updating` are the rest of `update_graph_loop`. -/
inductive GraphThread where
  /-- `n_processed_requests_++`, in `AsyncImbScheduler`. -/
  | tallying
  /-- `wait<1>()` and `pop<1>()`, their halves. -/
  | waitingItem
  | waitingAhead
  | popping
  | releasing (request : ClientMessage)
  /-- `update_graph(request)` and the expiry. -/
  | updating (request : ClientMessage)
  /-- `repartitioning_.load()`, then the tests of the interval and of `imbalance()`. -/
  | loadingRepartitioning
  | testingInterval
  | testingImbalance
  /-- `repartition_.load()` and `repartition_.store(false)`, in `AsyncScheduler`. -/
  | loadingRepartition
  | loweringRepartition
  /-- `n_vertex() > 0`. -/
  | sizing
  /-- `repartitioning_.store(true)`. -/
  | raisingRepartitioning
  /-- `order_partitioning`: the copy, the assignment to `input_graph_` and `sem_post`. -/
  | copying
  | assigning (inputGraph : InputGraph)
  | posting
  /-- `operation_start_ = n_processed_requests_`, in `AsyncImbScheduler`. -/
  | restarting

/-- Where the partitioning thread is. -/
inductive Partitioner where
  /-- `sem_wait`. -/
  | waiting
  /-- `delete updated_data_to_partition_`: the read of the pointer and the release. -/
  | deleting
  | freeing (pointer : Nat)
  /-- `partitioning(input_graph_)`. -/
  | partitioning
  /-- `updated_data_to_partition_ = temp`. -/
  | storing (temp : Nat)
  /-- `update_.store(true)`. -/
  | raisingUpdate
  deriving DecidableEq

namespace Variant

/-- After `n_dispatched_requests_++`. -/
def counted : Variant → Scheduling
  | .async => .loadingRepartitioning
  | _ => .loadingUpdate

/-- After `update_.store(false)`. -/
def updated : Variant → Scheduling
  | .asyncImb => .resetting
  | _ => .loweringRepartitioning

/-- After `repartitioning_.store(false)`. -/
def settled : Variant → Scheduling
  | .async => .restarting
  | _ => .waitingItem

/-- The head of the loop `update_graph_loop`. -/
def head : Variant → GraphThread
  | .asyncImb => .tallying
  | _ => .waitingItem

/-- After the expiry. -/
def observed : Variant → GraphThread
  | .async => .loadingRepartition
  | _ => .loadingRepartitioning

/-- After `repartitioning_` was found false. -/
def unclaimed : Variant → GraphThread
  | .nonStop => .sizing
  | _ => .testingInterval

/-- After the interval was found achieved. -/
def achieved : Variant → GraphThread
  | .asyncImb => .testingImbalance
  | _ => .sizing

/-- After the graph was found to have vertices. -/
def sized : Variant → GraphThread
  | .async | .asyncImb => .copying
  | _ => .raisingRepartitioning

/-- After `repartitioning_.store(true)`. -/
def raised : Variant → GraphThread
  | .asyncImb => .sizing
  | _ => .copying

/-- After `order_partitioning`, or where there is no vertex. -/
def done : Variant → GraphThread
  | .asyncImb => .restarting
  | _ => .waitingItem

end Variant

/-- The fields of the schedulers that their four threads share, and where each thread is. The two map pointers are
addresses in `heap`, so that deleting and swapping the maps is seen. What has been processed, the graphs ordered, the
maps produced of them and the ones installed are ghosts. -/
structure State (n : Nat) where
  queue : Queue ClientMessage
  producer : FlowControl.Producer ClientMessage := .idle
  scheduling : Scheduling := .waitingItem
  graphThread : GraphThread
  partitioner : Partitioner := .waiting
  heap : Heap (UnorderedMap Int (Fin n))
  dataToPartition : Nat
  updatedDataToPartition : Nat
  roundRobinCounter : Fin n
  inputGraph : InputGraph := {}
  repartSemaphore : Nat := 0
  repartitioning : Bool := false
  update : Bool := false
  repartition : Bool := false
  nDispatchedRequests : Nat := 0
  nProcessedRequests : Nat := 0
  operationStart : Int := 0
  workload : Workload
  processed : List ClientMessage := []
  ordered : List InputGraph := []
  produced : List (InputGraph × Nat) := []
  installed : List Nat := []

/-- A statement of one of the threads; the first half of `submit` brings in the message. -/
inductive Label where
  | submit (message : ClientMessage)
  | produce
  /-- The next statement of a thread; `choice` is the outcome of a test on data outside the model. -/
  | schedule (choice : Bool)
  | graph (choice : Bool)
  | partition
  /-- `partitioning`, where the partitioner answers with `scheme`. -/
  | cut (scheme : List Int)

/-- The message a step submits. -/
def Label.submits : Label → Option ClientMessage
  | .submit message => some message
  | _ => none

variable {n : Nat}

/-- The constructor and `process_populate_request` of every populate request. -/
def init (cfg : Config n) : State n :=
  let mapping := cfg.populated.foldl Mapping.mapKey ⟨∅, ⟨0, cfg.positive⟩⟩
  let heap := (Heap.empty.new mapping.dataToPartition).new ∅
  { queue := Queue.schedulerQueue cfg.queueHeadDistance
    graphThread := cfg.variant.head
    heap := heap
    dataToPartition := 0
    updatedDataToPartition := 1
    roundRobinCounter := mapping.roundRobinCounter
    workload := (Workload.run cfg.TL cfg.populateRequests).getD (Workload.start cfg.TL) }

/-- `interval_achieved` of `AsyncScheduler`. -/
def asyncAchieved (cfg : Config n) (s : State n) (choice : Bool) : Bool :=
  match cfg.interval with
  | .operations k _ => choice = decide ((k : Int) ≤ s.nDispatchedRequests - s.operationStart)
  | .chosen => true

/-- `start_repartitioning` of `FreeScheduler`, whose remainder is that of the `int` for a count below `2 ^ 31`,
and `interval_achieved` of `AsyncImbScheduler`, where the difference is taken in `size_t`. -/
def achieved (cfg : Config n) (s : State n) (choice : Bool) : Bool :=
  match cfg.variant, cfg.interval with
  | .asyncImb, .operations k _ =>
    choice = decide ((k : Int) ≤ (s.nProcessedRequests - s.operationStart) % 2 ^ 64)
  | _, interval => interval.allows s.nDispatchedRequests choice

/-- The producer's next statement: `submit` pushes the message to both queues and posts both item semaphores,
here without their limit, as in `StopTheWorld.produce`. -/
def produce (s : State n) : Option (State n) :=
  match s.producer with
  | .idle => none
  | .pushing message => some { s with queue := s.queue.pushTo 1 message, producer := .notifying0 }
  | .notifying0 => some { s with queue := s.queue.notify none 0, producer := .notifying1 }
  | .notifying1 => some { s with queue := s.queue.notify none 1, producer := .idle }

/-- The scheduling thread's next statement: `wait<0>` and `pop<0>` of `scheduling_loop`, then `schedule_and_answer`,
which dispatches by the map `data_to_partition_` points to and counts. Where `update_` is up it swaps the two maps,
synchronises the partitions and lowers the flags, in an order of the variant's own; `AsyncScheduler` tests the
interval here, and the others in the graph thread. -/
def schedule (cfg : Config n) (s : State n) (choice : Bool) : Option (State n) :=
  match s.scheduling with
  | .waitingItem => (s.queue.waitItem 0).map fun q => { s with queue := q, scheduling := .waitingAhead }
  | .waitingAhead => (s.queue.waitAhead 0).map fun q => { s with queue := q, scheduling := .popping }
  | .popping => (s.queue.popFront 0).map fun (message, q) =>
      { s with queue := q, scheduling := .releasing message }
  | .releasing message =>
    some { s with queue := s.queue.postAhead none 1, scheduling := .dispatching message }
  | .dispatching message =>
    if message.type = .END then some { s with scheduling := .ended }
    else (s.heap.cells s.dataToPartition).bind fun map =>
      (Mapping.involvedPartitions ⟨map, s.roundRobinCounter⟩ message).map fun (mapping, _) =>
        { s with
          heap := s.heap.write s.dataToPartition mapping.dataToPartition
          roundRobinCounter := mapping.roundRobinCounter
          scheduling := .counting }
  | .counting =>
    some { s with nDispatchedRequests := s.nDispatchedRequests + 1, scheduling := cfg.variant.counted }
  | .loadingRepartitioning =>
    some { s with scheduling := if s.repartitioning then .loadingUpdate else .testingInterval }
  | .testingInterval =>
    if asyncAchieved cfg s choice then
      some { s with scheduling := if choice then .raisingRepartition else .waitingItem }
    else none
  | .raisingRepartition => some { s with repartition := true, scheduling := .raisingRepartitioning }
  | .raisingRepartitioning => some { s with repartitioning := true, scheduling := .waitingItem }
  | .loadingUpdate => some { s with scheduling := if s.update then .saving else .waitingItem }
  | .saving => some { s with scheduling := .swapping s.dataToPartition }
  | .swapping temp =>
    some { s with
      dataToPartition := s.updatedDataToPartition
      scheduling := .restoring temp
      installed := s.installed ++ [s.updatedDataToPartition] }
  | .restoring temp => some { s with updatedDataToPartition := temp, scheduling := .syncing }
  | .syncing => some { s with scheduling := .loweringUpdate }
  | .loweringUpdate => some { s with update := false, scheduling := cfg.variant.updated }
  | .resetting =>
    some { s with operationStart := s.nDispatchedRequests, scheduling := .loweringRepartitioning }
  | .loweringRepartitioning => some { s with repartitioning := false, scheduling := cfg.variant.settled }
  | .restarting => some { s with operationStart := s.nDispatchedRequests, scheduling := .waitingItem }
  | .ended => none

/-- The graph thread's next statement: `update_graph_loop` pops a message and brings it into the graph. Unless a
repartition is under way it then looks whether the interval is over, as the variant does, and has
`order_partitioning` copy the graph into `input_graph_` and post `repart_semaphore_`. -/
def graph (cfg : Config n) (s : State n) (choice : Bool) : Option (State n) :=
  match s.graphThread with
  | .tallying => some { s with nProcessedRequests := s.nProcessedRequests + 1, graphThread := .waitingItem }
  | .waitingItem => (s.queue.waitItem 1).map fun q => { s with queue := q, graphThread := .waitingAhead }
  | .waitingAhead => (s.queue.waitAhead 1).map fun q => { s with queue := q, graphThread := .popping }
  | .popping => (s.queue.popFront 1).map fun (request, q) =>
      { s with queue := q, graphThread := .releasing request }
  | .releasing request =>
    some { s with queue := s.queue.postAhead none 0, graphThread := .updating request }
  | .updating request => (s.workload.observe cfg.TL request).map fun workload =>
      { s with
        workload := workload
        graphThread := cfg.variant.observed
        processed := s.processed ++ [request] }
  | .loadingRepartitioning =>
    some { s with graphThread := if s.repartitioning then cfg.variant.head else cfg.variant.unclaimed }
  | .testingInterval =>
    if achieved cfg s choice then
      some { s with graphThread := if choice then cfg.variant.achieved else cfg.variant.head }
    else none
  | .testingImbalance =>
    some { s with graphThread := if choice then .raisingRepartitioning else .restarting }
  | .loadingRepartition =>
    some { s with graphThread := if s.repartition then .loweringRepartition else .waitingItem }
  | .loweringRepartition => some { s with repartition := false, graphThread := .sizing }
  | .sizing =>
    some { s with
      graphThread := if 0 < s.workload.workloadGraph.nVertex then cfg.variant.sized else cfg.variant.done }
  | .raisingRepartitioning => some { s with repartitioning := true, graphThread := cfg.variant.raised }
  | .copying => (s.workload.workloadGraph.multilevelCutData fun _ => .sorted _).map fun inputGraph =>
      { s with graphThread := .assigning inputGraph }
  | .assigning inputGraph => some { s with inputGraph := inputGraph, graphThread := .posting }
  | .posting =>
    some { s with
      repartSemaphore := s.repartSemaphore + 1
      graphThread := cfg.variant.done
      ordered := s.ordered ++ [s.inputGraph] }
  | .restarting => some { s with operationStart := s.nProcessedRequests, graphThread := .tallying }

/-- The partitioning thread's next statement: `partitioning_loop` waits for the post, deletes the map that
`updated_data_to_partition_` points to, stores the new one there and raises `update_`. -/
def partition (s : State n) : Option (State n) :=
  match s.partitioner with
  | .waiting =>
    if 0 < s.repartSemaphore then
      some { s with repartSemaphore := s.repartSemaphore - 1, partitioner := .deleting }
    else none
  | .deleting => some { s with partitioner := .freeing s.updatedDataToPartition }
  | .freeing pointer => some { s with heap := s.heap.delete pointer, partitioner := .partitioning }
  | .partitioning => none
  | .storing temp => some { s with updatedDataToPartition := temp, partitioner := .raisingUpdate }
  | .raisingUpdate => some { s with update := true, partitioner := .waiting }

/-- `partitioning` with the partitioner's vector: one partition in range for each vertex. -/
def cut (s : State n) (scheme : List Int) : Option (State n) :=
  match s.partitioner with
  | .partitioning =>
    if scheme.length = s.inputGraph.verticeWeight.length ∧ ∀ p ∈ scheme, 0 ≤ p ∧ p < n then
      (KvPaxos.partitioning n s.inputGraph (.sorted _) scheme).map fun temp =>
        { s with
          heap := s.heap.new temp
          partitioner := .storing s.heap.next
          produced := s.produced ++ [(s.inputGraph, s.heap.next)] }
    else none
  | _ => none

/-- One statement of one of the threads. There is one producer, whose `submit`s follow one another. -/
def step (cfg : Config n) (s : State n) : Label → Option (State n)
  | .submit message =>
    match s.producer with
    | .idle => some { s with queue := s.queue.pushTo 0 message, producer := .pushing message }
    | _ => none
  | .produce => produce s
  | .schedule choice => schedule cfg s choice
  | .graph choice => graph cfg s choice
  | .partition => partition s
  | .cut scheme => cut s scheme

/-- The threads as a labelled system. -/
def system (cfg : Config n) : System (State n) Label := ⟨init cfg, step cfg⟩

end FreeScheduler

end KvPaxos
