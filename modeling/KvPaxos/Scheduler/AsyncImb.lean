import KvPaxos.Lib.Spacing
import KvPaxos.Scheduler.Method
import KvPaxos.Storage.Storage

/-!
# When AsyncImbScheduler looks for imbalance

The threads of `AsyncImbScheduler` with the counters its graph thread decides by. `threads` are those
of `FreeScheduler` with nothing fixed about the interval; here its test is made on the counters, and
the counters are written where the threads write them: `cross_partition_count_` in `dispatch`,
`operation_start_` and `cross_operation_start_` on install, `operation_start_` again by the graph
thread. `operation_start_` of `threads` is not read.

`dispatched`, `crossStart`, `restarted`, `checks` and `quotients` are ghosts: which dispatched
requests were cross-partition, how many there were when `cross_operation_start_` was written, the
count an install has written to `operation_start_` if the graph thread has not written it since, the
messages taken at each check for imbalance, and the quotients evaluated.
-/

namespace KvPaxos

open Lib

namespace AsyncImb

open StopTheWorld (Config Interval)
open FreeScheduler (Label methodStep)
open Storage (toInt)

variable {n : Nat}

/-- The schedulers' threads, with the outcome of the interval's test left open. -/
def threadsConfig (cfg : Config n) : FreeScheduler.Config n :=
  { cfg with interval := .chosen, variant := .asyncImb }

/-- A quotient `is_cross_partition_intensive` evaluates, and how many of the last `denominator`
requests counted as dispatched were cross-partition. -/
structure Quotient where
  numerator : Int
  denominator : Int
  counted : Nat
  deriving DecidableEq

/-- What `AsyncImbScheduler` has beside `FreeScheduler`. The ghosts are `dispatched`, which says of each request
whether it went to more than one partition, the number of requests at the last `cross_operation_start_`, the count
that an install has stored in `operation_start_`, and the checks and quotients of the run. -/
structure State (n : Nat) where
  threads : FreeScheduler.State n
  crossPartitionCount : Nat := 0
  crossOperationStart : Int := 0
  operationStart : Int := 0
  /-- `cross_operation_start_` has been written in the install under way. -/
  assigned : Bool := false
  dispatched : List Bool := []
  crossStart : Nat := 0
  restarted : Option Nat := none
  checks : List Nat := []
  quotients : List Quotient := []

def init (method : CutMethod) (cfg : Config n) : State n where
  threads := FreeScheduler.methodInit method (threadsConfig cfg)

/-- `is_cross_partition` of `dispatch`. -/
def isCrossPartition (s : FreeScheduler.State n) (message : ClientMessage) : Bool :=
  ((s.heap.cells s.dataToPartition).bind fun map =>
    Mapping.involvedPartitions ⟨map, s.roundRobinCounter⟩ message).any fun (_, partitions) => 1 < partitions.card

/-- `interval_achieved`: the difference is taken in `size_t`, and the clock is not modelled. -/
def intervalAchieved (interval : Interval) (s : State n) (choice : Bool) : Bool :=
  match interval with
  | .operations k _ => choice = decide ((k : Int) ≤ (s.threads.nProcessedRequests - s.operationStart) % 2 ^ 64)
  | .chosen => true

/-- The quotient of `is_cross_partition_intensive`, where it is evaluated. -/
def quotient (s : State n) : Option Quotient :=
  let denominator := toInt s.threads.nDispatchedRequests - s.operationStart
  if 0 < denominator then
    let counted := s.dispatched.take s.threads.nDispatchedRequests
    some {
      numerator := (s.crossPartitionCount - s.crossOperationStart) % 2 ^ 64
      denominator := denominator
      counted := (counted.drop (s.threads.nDispatchedRequests - denominator.toNat)).count true }
  else none

/-- What the scheduling thread's statement writes, besides what it does to `threads`. -/
def scheduled (s : State n) (threads : FreeScheduler.State n) : State n :=
  match s.threads.scheduling with
  | .dispatching message =>
    if message.type = .END then { s with threads := threads }
    else
      let cross := isCrossPartition s.threads message
      { s with
        threads := threads
        crossPartitionCount := s.crossPartitionCount + cross.toNat
        dispatched := s.dispatched ++ [cross] }
  | .resetting =>
    { s with
      threads := threads
      operationStart := toInt s.threads.nDispatchedRequests
      restarted := some s.threads.nDispatchedRequests }
  | .loweringRepartitioning => { s with threads := threads, assigned := false }
  | _ => { s with threads := threads }

/-- What the graph thread's statement writes. -/
def graphed (interval : Interval) (s : State n) (choice : Bool) (threads : FreeScheduler.State n) : State n :=
  match s.threads.graphThread, interval with
  | .testingInterval, _ =>
    if choice then { s with threads := threads, checks := s.checks ++ [s.threads.nProcessedRequests] }
    else { s with threads := threads }
  | .testingImbalance, _ => { s with threads := threads, quotients := s.quotients ++ (quotient s).toList }
  | .restarting, .operations _ _ =>
    { s with
      threads := threads
      operationStart := toInt s.threads.nProcessedRequests
      restarted := none }
  | _, _ => { s with threads := threads }

/-- The scheduling thread's next statement, with the two assignments of an install: `operation_start_` under an
interval of time only, and `cross_operation_start_ = cross_partition_count_`, which comes before
`repartitioning_.store(false)`. -/
def schedule (method : CutMethod) (cfg : Config n) (s : State n) (choice : Bool) : Option (State n) :=
  match s.threads.scheduling, s.assigned with
  | .loweringRepartitioning, false =>
    some { s with
      crossOperationStart := toInt s.crossPartitionCount
      assigned := true
      crossStart := s.dispatched.length }
  | _, _ => (methodStep method (threadsConfig cfg) s.threads (.schedule choice)).map (scheduled s)

/-- The graph thread's next statement. Its test of the interval is one on `n_processed_requests_ - operation_start_`
in a `size_t`; the choice is left to the clock only. -/
def graph (method : CutMethod) (cfg : Config n) (s : State n) (choice : Bool) : Option (State n) :=
  match s.threads.graphThread, intervalAchieved cfg.interval s choice with
  | .testingInterval, false => none
  | _, _ => (methodStep method (threadsConfig cfg) s.threads (.graph choice)).map (graphed cfg.interval s choice)

/-- One statement of the threads of `FreeScheduler`, with what `AsyncImbScheduler` writes beside it. -/
def step (method : CutMethod) (cfg : Config n) (s : State n) : Label → Option (State n)
  | .schedule choice => schedule method cfg s choice
  | .graph choice => graph method cfg s choice
  | l => (methodStep method (threadsConfig cfg) s.threads l).map fun threads => { s with threads := threads }

def system (method : CutMethod) (cfg : Config n) : System (State n) Label := ⟨init method cfg, step method cfg⟩

/-! ### What a step can do to the counters -/

variable {method : CutMethod} {cfg : Config n} {s s' : State n} {l : Label}

/-- Where the scheduling thread is between two of its writes: after `cross_partition_count_` and before
`n_dispatched_requests_`, or after `operation_start_` and before `repartitioning_`. -/
inductive Pending where
  | none | dispatched | restarted
  deriving DecidableEq

def pending : FreeScheduler.Scheduling → Pending
  | .counting => .dispatched
  | .loweringRepartitioning => .restarted
  | _ => .none

/-- The graph thread has found the interval achieved and not written `operation_start_`. -/
def checking : FreeScheduler.GraphThread → Bool
  | .testingImbalance | .raisingRepartitioning | .sizing | .copying | .assigning _ | .posting | .restarting => true
  | _ => false

/-- The places of `AsyncScheduler`. -/
def ofAsync : FreeScheduler.GraphThread → Bool
  | .loadingRepartition | .loweringRepartition => true
  | _ => false

/-- `threads'` is `threads` after a step that writes no counter. -/
structure Same (threads threads' : FreeScheduler.State n) : Prop where
  dispatched : threads'.nDispatchedRequests = threads.nDispatchedRequests
  processed : threads'.nProcessedRequests = threads.nProcessedRequests

/-- The steps, as far as the counters tell them apart. -/
inductive Move (method : CutMethod) (cfg : Config n) (s : State n) : Label → State n → Prop
  | other {l : Label} {t : FreeScheduler.State n} (same : Same s.threads t)
      (scheduling : pending t.scheduling = pending s.threads.scheduling)
      (graph : checking t.graphThread = checking s.threads.graphThread) : Move method cfg s l { s with threads := t }
  | dispatch {b cross : Bool} {t : FreeScheduler.State n} (same : Same s.threads t)
      (before : pending s.threads.scheduling = .none) (after : pending t.scheduling = .dispatched)
      (graph : t.graphThread = s.threads.graphThread) :
      Move method cfg s (.schedule b) { s with
        threads := t
        crossPartitionCount := s.crossPartitionCount + cross.toNat
        dispatched := s.dispatched ++ [cross] }
  | count {b : Bool} {t : FreeScheduler.State n} (counted : t.nDispatchedRequests = s.threads.nDispatchedRequests + 1)
      (processed : t.nProcessedRequests = s.threads.nProcessedRequests)
      (before : pending s.threads.scheduling = .dispatched) (after : pending t.scheduling = .none)
      (graph : t.graphThread = s.threads.graphThread) :
      Move method cfg s (.schedule b) { s with threads := t }
  | restart {b : Bool} {t : FreeScheduler.State n} (same : Same s.threads t)
      (before : pending s.threads.scheduling = .none) (after : pending t.scheduling = .restarted)
      (graph : t.graphThread = s.threads.graphThread) :
      Move method cfg s (.schedule b) { s with
        threads := t
        operationStart := toInt s.threads.nDispatchedRequests
        restarted := some s.threads.nDispatchedRequests }
  | assign {b : Bool} (before : pending s.threads.scheduling = .restarted) (fresh : s.assigned = false) :
      Move method cfg s (.schedule b) { s with
        crossOperationStart := toInt s.crossPartitionCount
        assigned := true
        crossStart := s.dispatched.length }
  | settle {b : Bool} {t : FreeScheduler.State n} (same : Same s.threads t)
      (before : pending s.threads.scheduling = .restarted) (done : s.assigned = true)
      (after : pending t.scheduling = .none) (graph : t.graphThread = s.threads.graphThread) :
      Move method cfg s (.schedule b) { s with threads := t, assigned := false }
  | tally {b : Bool} {t : FreeScheduler.State n} (dispatched : t.nDispatchedRequests = s.threads.nDispatchedRequests)
      (tallied : t.nProcessedRequests = s.threads.nProcessedRequests + 1)
      (before : checking s.threads.graphThread = false) (after : checking t.graphThread = false)
      (scheduling : t.scheduling = s.threads.scheduling) :
      Move method cfg s (.graph b) { s with threads := t }
  | skip {t : FreeScheduler.State n} (same : Same s.threads t) (place : s.threads.graphThread = .testingInterval)
      (achieved : intervalAchieved cfg.interval s false = true) (after : checking t.graphThread = false)
      (scheduling : t.scheduling = s.threads.scheduling) :
      Move method cfg s (.graph false) { s with threads := t }
  | check {t : FreeScheduler.State n} (same : Same s.threads t) (place : s.threads.graphThread = .testingInterval)
      (achieved : intervalAchieved cfg.interval s true = true) (after : checking t.graphThread = true)
      (scheduling : t.scheduling = s.threads.scheduling) :
      Move method cfg s (.graph true) { s with threads := t, checks := s.checks ++ [s.threads.nProcessedRequests] }
  | evaluate {b : Bool} {t : FreeScheduler.State n} (same : Same s.threads t)
      (place : s.threads.graphThread = .testingImbalance) (after : checking t.graphThread = true)
      (scheduling : t.scheduling = s.threads.scheduling) :
      Move method cfg s (.graph b) { s with threads := t, quotients := s.quotients ++ (quotient s).toList }
  | graphRestart {b : Bool} {t : FreeScheduler.State n} {k : Nat} {positive : 0 < k} (same : Same s.threads t)
      (interval : cfg.interval = .operations k positive) (before : checking s.threads.graphThread = true)
      (after : checking t.graphThread = false) (scheduling : t.scheduling = s.threads.scheduling) :
      Move method cfg s (.graph b) { s with
        threads := t
        operationStart := toInt s.threads.nProcessedRequests
        restarted := none }
  | graphDone {b : Bool} {t : FreeScheduler.State n} (same : Same s.threads t) (interval : cfg.interval = .chosen)
      (before : checking s.threads.graphThread = true) (after : checking t.graphThread = false)
      (scheduling : t.scheduling = s.threads.scheduling) : Move method cfg s (.graph b) { s with threads := t }

/-- Each statement of the scheduling thread is one of the moves. -/
theorem schedule_move {choice : Bool} (h : schedule method cfg s choice = some s') :
    Move method cfg s (.schedule choice) s' := by
  unfold schedule at h
  split at h
  · rename_i place fresh
    cases h
    exact Move.assign (by rw [place]; rfl) fresh
  · rename_i other
    obtain ⟨t, step, rfl⟩ := Option.map_eq_some_iff.mp h
    rcases FreeScheduler.methodStep_move step with ⟨move, -⟩ | ⟨-, place, -, rfl⟩
    · cases move with
      | dispatch place type =>
        simp only [scheduled, place, if_neg type]
        exact Move.dispatch ⟨rfl, rfl⟩ (by rw [place]; rfl) rfl rfl
      | finish place type =>
        simp only [scheduled, place, if_pos type]
        exact Move.other ⟨rfl, rfl⟩ (by rw [place]; rfl) rfl
      | count place =>
        simp only [scheduled, place]
        exact Move.count rfl rfl (by rw [place]; rfl) rfl rfl
      | reset place =>
        simp only [scheduled, place]
        exact Move.restart ⟨rfl, rfl⟩ (by rw [place]; rfl) rfl rfl
      | settle place =>
        have done : s.assigned = true := Bool.eq_true_of_not_eq_false fun fresh => other place fresh
        simp only [scheduled, place]
        exact Move.settle ⟨rfl, rfl⟩ (by rw [place]; rfl) done rfl rfl
      | item0 place | ahead0 place | pop0 place | release0 place | findFree place | findBusy place | skip place
      | start place | ask place | raise place | noUpdate place | seeUpdate place | save place | swap place
      | restore place | sync place | lowerUpdate place | restart place =>
        simp only [scheduled, place]
        exact Move.other ⟨rfl, rfl⟩ (by rw [place]; rfl) rfl
    · simp only [scheduled, place]
      exact Move.count rfl rfl (by rw [place]; rfl) rfl rfl

/-- Each statement of the graph thread is one of the moves, since it is never at the places of `AsyncScheduler`. -/
theorem graph_move {choice : Bool} (own : ofAsync s.threads.graphThread = false)
    (h : graph method cfg s choice = some s') : Move method cfg s (.graph choice) s' := by
  unfold graph at h
  split at h
  · cases h
  · rename_i allowed
    obtain ⟨t, step, rfl⟩ := Option.map_eq_some_iff.mp h
    rw [FreeScheduler.methodStep_graph] at step
    have move := FreeScheduler.graph_move step
    cases move with
    | graphSkip place =>
      have achieved := Bool.eq_true_of_not_eq_false fun not => allowed place not
      simp only [graphed, place]
      exact Move.skip ⟨rfl, rfl⟩ place achieved rfl rfl
    | graphStart place =>
      have achieved := Bool.eq_true_of_not_eq_false fun not => allowed place not
      simp only [graphed, place]
      exact Move.check ⟨rfl, rfl⟩ place achieved rfl rfl
    | balanced place | imbalanced place =>
      simp only [graphed, place]
      exact Move.evaluate ⟨rfl, rfl⟩ place rfl rfl
    | graphRestart place =>
      cases interval : cfg.interval with
      | operations k positive =>
        simp only [graphed, place]
        exact Move.graphRestart ⟨rfl, rfl⟩ interval (by rw [place]; rfl) rfl rfl
      | chosen =>
        simp only [graphed, place]
        exact Move.graphDone ⟨rfl, rfl⟩ interval (by rw [place]; rfl) rfl rfl
    | tally place =>
      simp only [graphed, place]
      exact Move.tally rfl rfl (by rw [place]; rfl) rfl rfl
    | noRequest place | seeRequest place | lowerRequest place =>
      rw [place] at own
      cases own
    | item1 place | ahead1 place | pop1 place | release1 place | observe place | graphBusy place | graphFree place
    | empty place | sized place | graphRaise place | copy place | assign place | post place =>
      simp only [graphed, place]
      exact Move.other ⟨rfl, rfl⟩ rfl (by rw [place]; rfl)

/-- **Every step is a move.** -/
theorem step_move (own : ofAsync s.threads.graphThread = false) (h : step method cfg s l = some s') :
    Move method cfg s l s' := by
  cases l with
  | schedule choice => exact schedule_move h
  | graph choice => exact graph_move own h
  | submit | produce | partition | cut =>
    obtain ⟨t, stepped, rfl⟩ := Option.map_eq_some_iff.mp h
    rcases FreeScheduler.methodStep_move stepped with ⟨move, -⟩ | ⟨-, -, ⟨b, eq⟩, -⟩
    · cases move <;> exact Move.other ⟨rfl, rfl⟩ rfl rfl
    · cases eq

theorem scheduled_threads (s : State n) (t : FreeScheduler.State n) : (scheduled s t).threads = t := by
  unfold scheduled
  split
  · split <;> rfl
  all_goals rfl

theorem graphed_threads (interval : Interval) (s : State n) (choice : Bool) (t : FreeScheduler.State n) :
    (graphed interval s choice t).threads = t := by
  unfold graphed
  split
  · split <;> rfl
  all_goals rfl

/-- A step of the threads, or the one statement they do not have. -/
theorem step_threads (h : step method cfg s l = some s') :
    s'.threads = s.threads ∨ methodStep method (threadsConfig cfg) s.threads l = some s'.threads := by
  cases l with
  | schedule choice =>
    simp only [step, schedule] at h
    split at h
    · cases h
      exact Or.inl rfl
    · obtain ⟨t, stepped, rfl⟩ := Option.map_eq_some_iff.mp h
      rw [scheduled_threads]
      exact Or.inr stepped
  | graph choice =>
    simp only [step, graph] at h
    split at h
    · cases h
    · obtain ⟨t, stepped, rfl⟩ := Option.map_eq_some_iff.mp h
      rw [graphed_threads]
      exact Or.inr stepped
  | submit | produce | partition | cut =>
    obtain ⟨t, stepped, rfl⟩ := Option.map_eq_some_iff.mp h
    exact Or.inr stepped

/-- The runs are runs of the threads. -/
theorem via_threads {guard : State n → Label → Prop} (guard' : FreeScheduler.State n → Label → Prop)
    (via : (system method cfg).Via guard s) (imp : ∀ s l, guard s l → guard' s.threads l) :
    (FreeScheduler.methodSystem method (threadsConfig cfg)).Via guard' s.threads := by
  refine via.invariant (P := fun s => (FreeScheduler.methodSystem method (threadsConfig cfg)).Via guard' s.threads)
    System.Via.init ?_
  intro s l s' _ threads met step
  rcases step_threads step with same | stepped
  · rw [same]
    exact threads
  · exact threads.step (imp s l met) stepped

theorem via_own {guard : State n → Label → Prop} (via : (system method cfg).Via guard s) :
    ofAsync s.threads.graphThread = false := by
  have reachable := via_threads (fun _ _ => True) via fun _ _ _ => trivial
  refine reachable.invariant (P := fun t => ofAsync t.graphThread = false) ?_ ?_
  · obtain ⟨w, -, start⟩ := FreeScheduler.methodInit_eq method (threadsConfig cfg)
    show ofAsync (FreeScheduler.methodInit method (threadsConfig cfg)).graphThread = false
    rw [start]
    rfl
  · intro t l t' _ own _ stepped
    rcases FreeScheduler.methodStep_move stepped with ⟨move, -⟩ | ⟨-, -, -, rfl⟩
    · cases move with
      | noRequest place | seeRequest place | lowerRequest place =>
        rw [place] at own
        cases own
      | tally | item1 | ahead1 | pop1 | release1 | observe | graphBusy | graphFree | graphSkip | graphStart
      | balanced | imbalanced | empty | sized | graphRaise | copy | assign | post | graphRestart => rfl
      | _ => exact own
    · exact own

end AsyncImb

end KvPaxos
