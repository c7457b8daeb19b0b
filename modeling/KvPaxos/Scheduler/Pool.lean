import Mathlib.Logic.Function.Basic
import Mathlib.Data.Fintype.Card
import KvPaxos.Lib.System
import KvPaxos.Lib.Pair
import KvPaxos.Lib.Lanes
import KvPaxos.Queue.Queue
import KvPaxos.Storage.Sequential
import KvPaxos.Scheduler.Dispatch

/-!
# The scheduling thread and the partition workers

One system for `Scheduler::dispatch`, the `push_request` calls it makes and the
`thread_loop` of every partition, interleaved statement by statement: a semaphore
operation, a queue operation, one storage access or one barrier call is a step. The
scheduling thread is given by the calls it has still to make (`todo`) and its place in
the current `push_request` (`stage`).

`log`, `handled` and `trace` are ghosts: the messages ever queued on a partition, how many
of them its worker is done with, and the observable events in order. A label that is not
enabled steps to `none`; a worker whose next statement ends the process (`Terminates`)
has no step either.

`semaphore_` counts to `SEM_VALUE_MAX`, and `push_request` ignores that `sem_post` fails there:
on an unbounded queue a message can be queued and its post lost. `remaining_space_` starts
at `Capacity` and never exceeds it.
-/

namespace KvPaxos

open Lib

/-- Where a worker is in `thread_loop`; `e` is the message it has popped. -/
inductive Worker where
  /-- `sem_wait(&semaphore_)`. -/
  | waiting
  /-- `front()` and `pop()` of the queue. -/
  | popping
  /-- `sem_post(&remaining_space_)`, bounded queues only. -/
  | releasing (e : Entry)
  /-- `switch (type)`. -/
  | handling (e : Entry)
  /-- `Storage::scan`, before the key of iteration `i` is computed. -/
  | scanning (e : Entry) (length : Int) (i : Nat) (values : List (List Char))
  /-- `Storage::scan`, before `read(key)`. -/
  | reading (e : Entry) (length : Int) (i : Nat) (values : List (List Char)) (key : Int)
  /-- Inside `pthread_barrier_wait`. -/
  | atBarrier (e : Entry)
  /-- `pthread_barrier_destroy` and `delete`. -/
  | destroying (e : Entry)
  /-- `n_executed_requests_++`. -/
  | counting (e : Entry) (answer : List Char)
  deriving DecidableEq

/-- A `Partition` and its worker. -/
structure Partition where
  semaphore : Nat := 0
  remainingSpace : Nat
  requestsQueue : List Entry := []
  worker : Worker := .waiting
  nExecutedRequests : Nat := 0
  errorCount : Nat := 0
  log : List Entry := []
  handled : Nat := 0

/-- A `pthread_barrier_t` of a SYNC group: its count, the threads that have called wait and,
once the count is reached, the one whose wait returns `PTHREAD_BARRIER_SERIAL_THREAD`.
`members` are the partitions it was created for, `destroyed` counts the destroy calls. -/
structure Barrier (n : Nat) where
  count : Nat := 0
  arrived : List (Fin n) := []
  serial : Option (Fin n) := none
  members : List (Fin n) := []
  destroyed : Nat := 0

/-- `pthread_barrier_init` for the partitions `order`. -/
def Barrier.create {n : Nat} (order : List (Fin n)) : Barrier n :=
  { count := order.length, members := order }

/-- The observable events of a run. -/
inductive Event (n : Nat) where
  | start (p : Fin n) (number : Nat)
  | write (p : Fin n) (number : Nat)
  | lookup (p : Fin n) (number : Nat) (key : Int)
  | error (p : Fin n) (number : Nat)
  | finish (p : Fin n) (number : Nat) (answer : List Char)
  | wait (p : Fin n) (barrier : Nat)
  | destroy (p : Fin n) (barrier : Nat)
  deriving DecidableEq

/-- Where the scheduling thread is in `push_request` of the first call of `todo`, or of the
call for `p` it has just queued. -/
inductive Stage (n : Nat) where
  /-- `sem_wait(&remaining_space_)`. -/
  | ready
  /-- `push(request)`. -/
  | reserved
  /-- `sem_post(&semaphore_)`. -/
  | posting (p : Fin n)
  deriving DecidableEq

/-- What a run is given: `Capacity` (0 for the unbounded queue; `sem_init` takes values up to
`SEM_VALUE_MAX`), the zlib wrapper, the populated storage and mapping, and the requests passed
to `dispatch`. -/
structure Config (n : Nat) where
  capacity : Nat
  compresser : Compresser
  storage : Storage
  mapping : Mapping n
  requests : List ClientMessage

namespace Pool

variable {n : Nat}

/-- The shared state and the place of every thread. -/
structure State (n : Nat) where
  mapping : Mapping n
  syncCounter : Int := 0
  crossPartitionCount : Nat := 0
  dispatched : Nat := 0
  issue : Nat := 0
  todo : List (Fin n × Entry) := []
  stage : Stage n := .ready
  barriers : Nat → Barrier n := fun _ => {}
  partitions : Fin n → Partition
  storage : Storage
  trace : List (Event n) := []

/-- The scheduling thread's next call, its next statement in `push_request`, or the next
statement of worker `p`; `serial` is the serial thread if the step completes a barrier. -/
inductive Label (n : Nat) where
  | dispatch (first : Fin n) (rest : List (Fin n))
  | repartition (scheme : UnorderedMap Int (Fin n)) (order : List (Fin n))
  | push
  | work (p serial : Fin n)

def init (cfg : Config n) : State n where
  mapping := cfg.mapping
  partitions := fun _ => { remainingSpace := cfg.capacity }
  storage := cfg.storage

/-- Worker `p` moves to `part` and the events happen. -/
def State.put (s : State n) (p : Fin n) (part : Partition) (events : List (Event n)) : State n :=
  { s with partitions := Function.update s.partitions p part, trace := s.trace ++ events }

/-- `pthread_barrier_wait` is entered by `p`: the call that makes the count complete releases
all, and one of them becomes the serial thread. -/
def arrive (bar : Barrier n) (p serial : Fin n) : Option (Barrier n) :=
  if (p :: bar.arrived).length = bar.count then
    if serial ∈ p :: bar.arrived then
      some { bar with arrived := p :: bar.arrived, serial := some serial }
    else none
  else some { bar with arrived := p :: bar.arrived }

/-- The `switch` of `thread_loop` for the entry `e`, up to the end of its first access to what is shared. A READ that
throws and a SCAN whose `stoi` throws have no next state, since nothing catches them and the process ends. A SCAN goes
on key by key in `work`, a SYNC at its barrier, and every other type comes to `default`. -/
def handle (z : Compresser) (s : State n) (p serial : Fin n) (part : Partition) (e : Entry) :
    Option (State n) :=
  match e.message.type with
  | .READ => (s.storage.read z e.message.key).map fun answer =>
      s.put p { part with worker := .counting e answer } [.start p e.number]
  | .WRITE => some
      { s.put p { part with worker := .counting e e.message.args } [.start p e.number, .write p e.number] with
        storage := s.storage.write z e.message.key e.message.args }
  | .SCAN => e.message.range.map fun length =>
      s.put p { part with worker := .scanning e length 0 [] } [.start p e.number]
  | .SYNC => (arrive (s.barriers e.message.sAddr) p serial).map fun bar =>
      { s.put p { part with worker := .atBarrier e } [.wait p e.message.sAddr] with
        barriers := Function.update s.barriers e.message.sAddr bar }
  | .ERROR => some (s.put p { part with worker := .counting e errorAnswer } [.start p e.number])
  | _ => some (s.put p { part with worker := .counting e [] } [.start p e.number])

/-- The next statement of worker `p` in `thread_loop`: `pop_request` with its wait, its removal and, of a bounded
queue, its post; the `switch`; for a SCAN, round by round, the modulo `start+i` by the number of keys stored at that
moment and then the read, which may find another storage and throw into the handler; for a SYNC the barrier, which its
serial thread destroys and deletes; and `n_executed_requests_++`, which a SYNC skips. `serial` is the thread that
`pthread_barrier_wait` picks. -/
def work (cfg : Config n) (s : State n) (p serial : Fin n) : Option (State n) :=
  let part := s.partitions p
  match part.worker with
  | .waiting =>
    if 0 < part.semaphore then
      some (s.put p { part with semaphore := part.semaphore - 1, worker := .popping } [])
    else none
  | .popping =>
    match part.requestsQueue with
    | [] => none
    | e :: rest => some (s.put p { part with requestsQueue := rest, worker := .releasing e } [])
  | .releasing e =>
    let space := if 0 < cfg.capacity then part.remainingSpace + 1 else part.remainingSpace
    some (s.put p { part with remainingSpace := space, worker := .handling e } [])
  | .handling e => handle cfg.compresser s p serial part e
  | .scanning e length i values =>
    if (i : Int) < length then
      if UnorderedMap.size s.storage = 0 then none
      else
        let key := s.storage.scanKey (e.message.key + i)
        some (s.put p { part with worker := .reading e length i values key } [])
    else some (s.put p { part with worker := .counting e (joinValues values) } [])
  | .reading e length i values key =>
    match s.storage.read cfg.compresser key with
    | some value =>
      some (s.put p { part with worker := .scanning e length (i + 1) (values ++ [value]) }
        [.lookup p e.number key])
    | none =>
      some (s.put p { part with worker := .counting e errorAnswer, errorCount := part.errorCount + 1 }
        [.lookup p e.number key, .error p e.number])
  | .atBarrier e =>
    (s.barriers e.message.sAddr).serial.map fun q =>
      if q = p then s.put p { part with worker := .destroying e } []
      else s.put p { part with worker := .waiting, handled := part.handled + 1 } []
  | .destroying e =>
    let bar := s.barriers e.message.sAddr
    some { s.put p { part with worker := .waiting, handled := part.handled + 1 }
        [.destroy p e.message.sAddr] with
      barriers := Function.update s.barriers e.message.sAddr { bar with destroyed := bar.destroyed + 1 } }
  | .counting e answer =>
    some (s.put p { part with
        worker := .waiting
        nExecutedRequests := part.nExecutedRequests + 1
        handled := part.handled + 1 } [.finish p e.number answer])

/-- The next statement of the scheduling thread's `push_request`: `sem_wait(&remaining_space_)` of a bounded queue,
the push itself, `sem_post(&semaphore_)`. The post fails at `SEM_VALUE_MAX`, which `push_request` does not notice; the
entry is in the queue then without a post for it. -/
def push (cfg : Config n) (s : State n) : Option (State n) :=
  match s.stage, s.todo with
  | .ready, (p, _) :: _ =>
    let part := s.partitions p
    if cfg.capacity = 0 then some { s with stage := .reserved }
    else if 0 < part.remainingSpace then
      some { s.put p { part with remainingSpace := part.remainingSpace - 1 } [] with stage := .reserved }
    else none
  | .reserved, (p, e) :: rest =>
    let part := s.partitions p
    let queued := { part with requestsQueue := part.requestsQueue ++ [e], log := part.log ++ [e] }
    some { s.put p queued [] with todo := rest, stage := .posting p }
  | .posting p, _ =>
    let part := s.partitions p
    some { s.put p { part with semaphore := semPost (some SEM_VALUE_MAX) part.semaphore } [] with
      stage := .ready }
  | _, [] => none

/-- `Scheduler::dispatch` of the next request up to its first `push_request`; `first :: rest`
lists the involved partitions in the iteration order of the set. -/
def dispatch (cfg : Config n) (s : State n) (first : Fin n) (rest : List (Fin n)) : Option (State n) :=
  match s.stage, s.todo, cfg.requests[s.dispatched]? with
  | .ready, [], some request =>
    (s.mapping.involvedPartitions request).bind fun (mapping, partitions) =>
      if (first :: rest).Nodup ∧ (first :: rest).toFinset = partitions then
        let bar := Barrier.create (first :: rest)
        some { s with
          mapping := mapping
          crossPartitionCount := s.crossPartitionCount + if rest = [] then 0 else 1
          dispatched := s.dispatched + 1
          issue := s.issue + 3
          todo := dispatchCalls s.syncCounter s.issue s.dispatched request first rest
          barriers := if rest = [] then s.barriers
            else Function.update (Function.update s.barriers s.issue bar) (s.issue + 2) bar }
      else none
  | _, _, _ => none

/-- A repartition: `data_to_partition_` is replaced and `sync_all_partitions` is called. -/
def repartition (s : State n) (scheme : UnorderedMap Int (Fin n)) (order : List (Fin n)) :
    Option (State n) :=
  match s.stage, s.todo with
  | .ready, [] =>
    if order.Nodup ∧ order.toFinset = Finset.univ then
      some { s with
        mapping := { s.mapping with dataToPartition := scheme }
        issue := s.issue + 3
        todo := syncPartitions s.syncCounter s.issue s.dispatched order
        barriers := Function.update s.barriers s.issue (Barrier.create order) }
    else none
  | _, _ => none

/-- One statement of the pool: of the scheduling thread, which dispatches, repartitions or goes on with its pushes, or
of a worker. -/
def step (cfg : Config n) (s : State n) : Label n → Option (State n)
  | .dispatch first rest => dispatch cfg s first rest
  | .repartition scheme order => repartition s scheme order
  | .push => push cfg s
  | .work p serial => work cfg s p serial

/-- The pool as a labelled system. -/
def system (cfg : Config n) : System (State n) (Label n) := ⟨init cfg, step cfg⟩

/-- Worker `p`'s next statement ends the process: an exception leaves `thread_loop`, or the
modulo of `scan` divides by zero. -/
def Terminates (s : State n) (p : Fin n) : Prop :=
  match (s.partitions p).worker with
  | .handling e => (e.message.type = .READ ∧ e.message.key ∉ s.storage) ∨
      (e.message.type = .SCAN ∧ e.message.range = none)
  | .scanning _ length i _ => (i : Int) < length ∧ UnorderedMap.size s.storage = 0
  | _ => False

/-- Nothing is under way: no call is left and every worker waits on an empty queue. -/
structure Quiescent (s : State n) : Prop where
  todo : s.todo = []
  stage : s.stage = .ready
  workers : ∀ p, (s.partitions p).worker = .waiting ∧ (s.partitions p).requestsQueue = []

instance (s : State n) : Decidable (Quiescent s) :=
  decidable_of_iff (s.todo = [] ∧ s.stage = .ready ∧
      ∀ p, (s.partitions p).worker = .waiting ∧ (s.partitions p).requestsQueue = [])
    ⟨fun ⟨todo, stage, workers⟩ => ⟨todo, stage, workers⟩, fun h => ⟨h.todo, h.stage, h.workers⟩⟩

/-- Every request has been dispatched and nothing is under way. -/
structure Complete (cfg : Config n) (s : State n) : Prop extends Quiescent s where
  all : s.dispatched = cfg.requests.length

end Pool

end KvPaxos
