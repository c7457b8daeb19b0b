import KvPaxos.Scheduler.CrossPartition
import KvPaxos.Scheduler.Imbalance

/-!
# When OldImbScheduler repartitions

`OldImbScheduler` is `Scheduler` with another test: after each interval it calls `imbalance()`, and it stops the
world only where that returns true. The counters of the test all belong to the scheduling thread, so unlike those
of `AsyncImbScheduler` they agree: each check is about the requests since the last one, `windows` says which.

The clock, the comparisons in floating point and the queue lengths come with the label. `crossDispatched`,
`checks`, `recent`, `quotients` and `starts` are ghosts: which dispatched requests were cross-partition,
`n_dispatched_requests_` at each call of `imbalance()`, the calls since the last one that returned true, the
quotients evaluated, and `n_dispatched_requests_` at each call that returned true.
-/

namespace KvPaxos

open Lib

namespace OldImb

open StopTheWorld (methodStep)
open Storage (toInt)
open AsyncImb (Quotient toInt_of_lt count_take_mono)

variable {n : Nat}

/-- The constructor's arguments, with `MaxSucessiveImbalances`, a parameter of the template. -/
structure Config (n : Nat) extends StopTheWorld.Config n where
  maxSucessiveImbalances : Nat

/-- The threads of `Scheduler`, with the outcome of the test left open. -/
def threadsConfig (cfg : Config n) : StopTheWorld.Config n := { cfg.toConfig with interval := .chosen }

/-- What a check finds outside the model. -/
structure Findings (n : Nat) where
  /-- `interval >= time_interval_`, by the clock. -/
  achieved : Bool
  /-- `cross_partition_ratio > balance_threshold_`. -/
  crossAbove : Bool
  /-- `std::abs(in_queue_amount_[i] - avg) > threshold`. -/
  above : Fin n → Bool

/-- What `OldImbScheduler` has beside `Scheduler`. The ghosts are `crossDispatched`, which says of each request
whether it went to more than one partition, the counts at which `imbalance()` was called and at which it started a
repartition, the calls since the last one, and the quotients. -/
structure State (n : Nat) where
  threads : StopTheWorld.State n
  crossPartitionCount : Nat := 0
  operationStart : Int := 0
  crossOperationStart : Nat := 0
  counts : ImbalanceCounts n := {}
  crossDispatched : List Bool := []
  checks : List Nat := []
  recent : List (ImbalanceCall n) := []
  quotients : List Quotient := []
  starts : List Nat := []

/-- A statement of one of the threads. -/
inductive Label (n : Nat) where
  | threads (label : StopTheWorld.Label)
  /-- `n_dispatched_requests_++` and the tests that follow it. -/
  | count (findings : Findings n)

def init (method : CutMethod) (cfg : Config n) : State n where
  threads := StopTheWorld.methodInit method (threadsConfig cfg)

/-- `interval_achieved`, after `count` requests. -/
def intervalAchieved (cfg : Config n) (s : State n) (count : Nat) (findings : Findings n) : Bool :=
  match cfg.interval with
  | .operations k _ => (k : Int) ≤ toInt count - s.operationStart
  | .chosen => findings.achieved

/-- What `imbalance()` finds. -/
def State.call (s : State n) (count : Nat) (findings : Findings n) : ImbalanceCall n where
  hasData := s.operationStart < toInt count
  crossAbove := findings.crossAbove
  above := findings.above

/-- The quotient of `is_cross_partition_intensive`, where it is evaluated. -/
def State.quotient (s : State n) (count : Nat) : Option Quotient :=
  let denominator := toInt count - s.operationStart
  if 0 < denominator then
    some {
      numerator := ((s.crossPartitionCount : Int) - s.crossOperationStart) % 2 ^ 64
      denominator := denominator
      counted := (s.crossDispatched.drop (count - denominator.toNat)).count true }
  else none

/-- `operation_start_ = n_dispatched_requests_` and `cross_operation_start_ = cross_partition_count_`. -/
def State.restart (s : State n) : State n :=
  { s with operationStart := toInt s.threads.nDispatchedRequests, crossOperationStart := s.crossPartitionCount }

/-- `dispatch`, which counts the request. -/
def State.dispatch (s : State n) (message : ClientMessage) (threads : StopTheWorld.State n) : State n :=
  if message.type = .END then { s with threads := threads }
  else
    let cross := (s.threads.mapping.involvedPartitions message).any fun (_, partitions) => 1 < partitions.card
    { s with
      threads := threads
      crossPartitionCount := s.crossPartitionCount + cross.toNat
      crossDispatched := s.crossDispatched ++ [cross] }

/-- A call of `imbalance()` after `count` requests. -/
def State.check (max : Nat) (s : State n) (count : Nat) (call : ImbalanceCall n) : Bool × State n :=
  match s.counts.imbalance max call with
  | (true, counts) => (true, { s with
      counts := counts
      checks := s.checks ++ [count]
      recent := []
      quotients := s.quotients ++ (s.quotient count).toList
      starts := s.starts ++ [count] })
  | (false, counts) => (false, { s with
      counts := counts
      checks := s.checks ++ [count]
      recent := s.recent ++ [call]
      quotients := s.quotients ++ (s.quotient count).toList })

/-- `n_dispatched_requests_++`, and `imbalance()` where the interval is over. Where it returns false the next
interval begins; where it returns true that comes after the repartition. -/
def count (method : CutMethod) (cfg : Config n) (s : State n) (findings : Findings n) : Option (State n) :=
  let dispatched := s.threads.nDispatchedRequests + 1
  if method ≠ .ROUND_ROBIN ∧ intervalAchieved cfg s dispatched findings then
    match s.check cfg.maxSucessiveImbalances dispatched (s.call dispatched findings) with
    | (true, checked) =>
      (methodStep method (threadsConfig cfg) s.threads (.schedule true)).map fun threads => { checked with threads := threads }
    | (false, checked) =>
      (methodStep method (threadsConfig cfg) s.threads (.schedule false)).map fun threads =>
        { checked with threads := threads }.restart
  else (methodStep method (threadsConfig cfg) s.threads (.schedule false)).map fun threads => { s with threads := threads }

/-- One statement of the threads of `Scheduler`. `schedule_and_answer` has three of its own: `dispatch`, which counts
the cross-partition requests, the count with the test of the interval and `imbalance()`, and the install, after which
the next interval begins. -/
def step (method : CutMethod) (cfg : Config n) (s : State n) : Label n → Option (State n)
  | .count findings =>
    match s.threads.scheduling with
    | .counting => count method cfg s findings
    | _ => none
  | .threads label =>
    match s.threads.scheduling, label with
    | .counting, .schedule _ => none
    | .dispatching message, .schedule start =>
      (methodStep method (threadsConfig cfg) s.threads (.schedule start)).map (s.dispatch message)
    | .installing _, .schedule start =>
      (methodStep method (threadsConfig cfg) s.threads (.schedule start)).map fun threads =>
        { s with threads := threads }.restart
    | _, _ => (methodStep method (threadsConfig cfg) s.threads label).map fun threads => { s with threads := threads }

def system (method : CutMethod) (cfg : Config n) : System (State n) (Label n) := ⟨init method cfg, step method cfg⟩

/-! ### What a step can do to the counters -/

variable {method : CutMethod} {cfg : Config n} {s s' : State n} {l : Label n}

/-- The request that `cross_partition_count_` has seen and `n_dispatched_requests_` has not. -/
def uncounted : StopTheWorld.Scheduling n → Nat
  | .counting => 1
  | _ => 0

/-- The repartitions started. -/
def started (t : StopTheWorld.State n) : Nat :=
  match t.scheduling with
  | .raising => t.raised + 1
  | _ => t.raised

/-- The steps, as far as the counters tell them apart. -/
inductive Move (method : CutMethod) (cfg : Config n) (s : State n) : State n → Prop
  | other {t : StopTheWorld.State n} (dispatched : t.nDispatchedRequests = s.threads.nDispatchedRequests)
      (place : uncounted t.scheduling = uncounted s.threads.scheduling)
      (plain : t.scheduling.plain = s.threads.scheduling.plain) (same : started t = started s.threads) :
      Move method cfg s { s with threads := t }
  | dispatch {t : StopTheWorld.State n} {cross : Bool} (dispatched : t.nDispatchedRequests = s.threads.nDispatchedRequests)
      (before : uncounted s.threads.scheduling = 0) (plain : s.threads.scheduling.plain = true)
      (after : t.scheduling = .counting) (same : started t = started s.threads) :
      Move method cfg s { s with
        threads := t
        crossPartitionCount := s.crossPartitionCount + cross.toNat
        crossDispatched := s.crossDispatched ++ [cross] }
  | pass {t : StopTheWorld.State n} (findings : Findings n)
      (counted : t.nDispatchedRequests = s.threads.nDispatchedRequests + 1)
      (early : method ≠ .ROUND_ROBIN → intervalAchieved cfg s (s.threads.nDispatchedRequests + 1) findings = false)
      (before : s.threads.scheduling = .counting) (after : t.scheduling = .waitingItem) (same : started t = started s.threads) :
      Move method cfg s { s with threads := t }
  | quiet {t : StopTheWorld.State n} {findings : Findings n} {checked : State n}
      (counted : t.nDispatchedRequests = s.threads.nDispatchedRequests + 1) (other : method ≠ .ROUND_ROBIN)
      (achieved : intervalAchieved cfg s (s.threads.nDispatchedRequests + 1) findings = true)
      (found : s.check cfg.maxSucessiveImbalances (s.threads.nDispatchedRequests + 1)
        (s.call (s.threads.nDispatchedRequests + 1) findings) = (false, checked))
      (before : s.threads.scheduling = .counting) (after : t.scheduling = .waitingItem) (same : started t = started s.threads) :
      Move method cfg s { checked with threads := t }.restart
  | start {t : StopTheWorld.State n} {findings : Findings n} {checked : State n}
      (counted : t.nDispatchedRequests = s.threads.nDispatchedRequests + 1) (other : method ≠ .ROUND_ROBIN)
      (achieved : intervalAchieved cfg s (s.threads.nDispatchedRequests + 1) findings = true)
      (found : s.check cfg.maxSucessiveImbalances (s.threads.nDispatchedRequests + 1)
        (s.call (s.threads.nDispatchedRequests + 1) findings) = (true, checked))
      (before : s.threads.scheduling = .counting) (after : t.scheduling = .raising) (next : started t = started s.threads + 1) :
      Move method cfg s { checked with threads := t }
  | install {t : StopTheWorld.State n} (dispatched : t.nDispatchedRequests = s.threads.nDispatchedRequests)
      (before : s.threads.scheduling.plain = false) (after : t.scheduling = .waitingItem) (same : started t = started s.threads) :
      Move method cfg s { s with threads := t }.restart

/-- The statement of the threads that `count` makes. -/
theorem counting_step {start : Bool} {t : StopTheWorld.State n} (place : s.threads.scheduling = .counting)
    (h : methodStep method (threadsConfig cfg) s.threads (.schedule start) = some t) :
    t.nDispatchedRequests = s.threads.nDispatchedRequests + 1 ∧ t.raised = s.threads.raised ∧
      (method ≠ .ROUND_ROBIN ∨ start = false → t.scheduling = if start then .raising else .waitingItem) := by
  rcases StopTheWorld.methodStep_move h with ⟨move, -⟩ | ⟨roundRobin, -, -, rfl⟩
  · cases move with
    | count => exact ⟨rfl, rfl, fun _ => rfl⟩
    | start => exact ⟨rfl, rfl, fun _ => rfl⟩
    | _ here => cases place.symm.trans here
  · refine ⟨rfl, rfl, fun other => ?_⟩
    rcases other with other | rfl
    · exact absurd roundRobin other
    · rfl

/-- The count has three outcomes: no look is made, the look finds nothing, or it starts a repartition. -/
theorem count_move {findings : Findings n} (place : s.threads.scheduling = .counting)
    (h : count method cfg s findings = some s') : Move method cfg s s' := by
  have before : started s.threads = s.threads.raised := by rw [started, place]
  unfold count at h
  dsimp only at h
  split at h
  · rename_i checks
    obtain ⟨other, achieved⟩ := checks
    split at h <;> rename_i checked found <;> obtain ⟨t, step, rfl⟩ := Option.map_eq_some_iff.mp h <;>
      obtain ⟨counted, raised, after⟩ := counting_step place step <;> replace after := after (Or.inl other)
    · refine Move.start counted other achieved found place after ?_
      rw [started, after, before]
      exact congrArg _ raised
    · refine Move.quiet counted other achieved found place after ?_
      rw [started, after, before]
      exact raised
  · rename_i early
    obtain ⟨t, step, rfl⟩ := Option.map_eq_some_iff.mp h
    obtain ⟨counted, raised, after⟩ := counting_step place step
    replace after := after (Or.inr rfl)
    refine Move.pass findings counted (fun other => ?_) place after ?_
    · exact Bool.eq_false_of_not_eq_true fun achieved => early ⟨other, achieved⟩
    · rw [started, after, before]
      exact raised

/-- **Every step is a move.** -/
theorem step_move (h : step method cfg s l = some s') : Move method cfg s s' := by
  cases l with
  | count findings =>
    simp only [step] at h
    split at h
    · exact count_move (by assumption) h
    · cases h
  | threads label =>
    simp only [step] at h
    split at h
    · cases h
    · rename_i message start place
      obtain ⟨t, step, rfl⟩ := Option.map_eq_some_iff.mp h
      have idle : uncounted s.threads.scheduling = 0 := by rw [place]; rfl
      have plain : s.threads.scheduling.plain = true := by rw [place]; rfl
      have before : s.threads.raised = started s.threads := by rw [started, place]
      rcases StopTheWorld.methodStep_move step with ⟨move, -⟩ | ⟨-, here, -, -⟩
      · cases move with
        | dispatch here type =>
          cases place.symm.trans here
          rw [State.dispatch, if_neg type]
          exact Move.dispatch rfl idle plain rfl before
        | finish here type =>
          cases place.symm.trans here
          rw [State.dispatch, if_pos type]
          exact Move.other rfl idle.symm plain.symm before
        | _ here => cases place.symm.trans here
      · cases place.symm.trans here
    · rename_i temp start place
      obtain ⟨t, step, rfl⟩ := Option.map_eq_some_iff.mp h
      rcases StopTheWorld.methodStep_move step with ⟨move, -⟩ | ⟨-, here, -, -⟩
      · cases move with
        | install => exact Move.install rfl (by rw [place]; rfl) rfl (by rw [started, started, place])
        | _ here => cases place.symm.trans here
      · cases place.symm.trans here
    · rename_i notCounting notDispatching notInstalling
      obtain ⟨t, step, rfl⟩ := Option.map_eq_some_iff.mp h
      rcases StopTheWorld.methodStep_move step with ⟨move, -⟩ | ⟨-, here, ⟨b, rfl⟩, -⟩
      · cases move with
        | count place | start place => exact absurd rfl (notCounting _ place)
        | dispatch place | finish place => exact absurd rfl (notDispatching _ _ place)
        | install place => exact absurd rfl (notInstalling _ _ place)
        | item0 place | ahead0 place | pop0 place | release0 place | raise place | freeItem place | freeAhead place
        | park1 place | open1 place | resume1 place | copy place | park2 place | open2 place | resume2 place | cut place =>
          exact Move.other rfl (by rw [place]; rfl) (by rw [place]; rfl) (by rw [started, started, place])
        | _ => exact Move.other rfl rfl rfl rfl
      · exact absurd rfl (notCounting _ here)

theorem check_start {max count : Nat} {call : ImbalanceCall n} {checked : State n} (h : s.check max count call = (true, checked)) :
    ∃ counts, s.counts.imbalance max call = (true, counts) ∧
      checked = { s with
        counts := counts
        checks := s.checks ++ [count]
        recent := []
        quotients := s.quotients ++ (s.quotient count).toList
        starts := s.starts ++ [count] } := by
  unfold State.check at h
  split at h <;> cases h
  exact ⟨_, by assumption, rfl⟩

theorem check_quiet {max count : Nat} {call : ImbalanceCall n} {checked : State n} (h : s.check max count call = (false, checked)) :
    ∃ counts, s.counts.imbalance max call = (false, counts) ∧
      checked = { s with
        counts := counts
        checks := s.checks ++ [count]
        recent := s.recent ++ [call]
        quotients := s.quotients ++ (s.quotient count).toList } := by
  unfold State.check at h
  split at h <;> cases h
  exact ⟨_, by assumption, rfl⟩

/-! ### The window of a check -/

/-- What the counters stand for: `operation_start_` is where the last check was, but for a repartition that is
still under way, and the two starts are those of one window. -/
structure Windows (s : State n) : Prop where
  length : s.crossDispatched.length = s.threads.nDispatchedRequests + uncounted s.threads.scheduling
  count : s.crossPartitionCount = s.crossDispatched.count true
  nonneg : 0 ≤ s.operationStart
  bound : s.operationStart ≤ s.threads.nDispatchedRequests
  start : s.crossOperationStart = (s.crossDispatched.take s.operationStart.toNat).count true
  past : lastMark s.checks ≤ s.threads.nDispatchedRequests
  last : s.threads.scheduling.plain = true → s.operationStart = lastMark s.checks
  stopped : s.threads.scheduling.plain = false → s.threads.nDispatchedRequests = lastMark s.checks
  quotients : ∀ q ∈ s.quotients, q.Exact

/-- One more dispatch fits in an `int`. -/
def Fits (s : State n) : Prop := s.threads.nDispatchedRequests + 1 < 2 ^ 31

instance (s : State n) : Decidable (Fits s) := inferInstanceAs (Decidable (_ < _))

theorem uncounted_of_stopped {a : StopTheWorld.Scheduling n} (stopped : a.plain = false) : uncounted a = 0 := by
  cases a <;> first | rfl | cases stopped

/-- **The quotient of a check is about the window**: its parts count the requests since `operation_start_`. -/
theorem Windows.quotient_exact (h : Windows s) (fits : Fits s) (place : s.threads.scheduling = .counting) {q : Quotient}
    (evaluated : s.quotient (s.threads.nDispatchedRequests + 1) = some q) :
    q.Exact ∧ q.denominator = s.threads.nDispatchedRequests + 1 - s.operationStart := by
  have length := h.length
  rw [place, show uncounted (n := n) .counting = 1 from rfl] at length
  have fits' : s.threads.nDispatchedRequests + 1 < 2 ^ 31 := fits
  obtain ⟨o, start⟩ := Int.eq_ofNat_of_zero_le h.nonneg
  have bound := h.bound
  have crossStart := h.start
  have toNat : s.operationStart.toNat = o := by rw [start]; rfl
  rw [toNat] at crossStart
  have split : s.crossPartitionCount = s.crossOperationStart + (s.crossDispatched.drop o).count true := by
    rw [h.count, crossStart, ← List.count_append, List.take_append_drop]
  have few : (s.crossDispatched.drop o).count true ≤ s.threads.nDispatchedRequests + 1 - o := by
    refine List.count_le_length.trans ?_
    rw [List.length_drop, length]
  unfold State.quotient at evaluated
  simp only [toInt_of_lt fits', start] at evaluated bound ⊢
  obtain ⟨-, ⟨⟩⟩ := Option.ite_none_right_eq_some.mp evaluated
  have window : s.threads.nDispatchedRequests + 1 - ((s.threads.nDispatchedRequests + 1 : Nat) - (o : Int)).toNat = o := by
    omega
  have numerator : ((s.crossPartitionCount : Int) - s.crossOperationStart) % 2 ^ 64 = (s.crossDispatched.drop o).count true := by
    omega
  refine ⟨⟨?_, ?_, ?_⟩, by push_cast; rfl⟩
  · simp only [numerator, window]
  · rw [numerator]
    exact Int.natCast_nonneg _
  · simp only [numerator]
    omega

/-- A check adds at most one quotient, and an exact one. -/
theorem Windows.quotients_check (h : Windows s) (fits : Fits s) (place : s.threads.scheduling = .counting) :
    ∀ q ∈ s.quotients ++ (s.quotient (s.threads.nDispatchedRequests + 1)).toList, q.Exact := by
  intro q mem
  rcases List.mem_append.mp mem with old | new
  · exact h.quotients q old
  · exact (h.quotient_exact fits place (Option.mem_toList.mp new)).1

/-- The next interval begins where the last check was. -/
theorem windows_restart (length : s.crossDispatched.length = s.threads.nDispatchedRequests)
    (place : s.threads.scheduling = .waitingItem) (count : s.crossPartitionCount = s.crossDispatched.count true)
    (fits : s.threads.nDispatchedRequests < 2 ^ 31) (last : s.threads.nDispatchedRequests = lastMark s.checks)
    (quotients : ∀ q ∈ s.quotients, q.Exact) : Windows s.restart := by
  have restarted : s.restart = { s with
      operationStart := s.threads.nDispatchedRequests
      crossOperationStart := s.crossPartitionCount } := by
    rw [State.restart, toInt_of_lt fits]
  rw [restarted]
  refine ⟨?_, count, Int.natCast_nonneg _, le_rfl, ?_, last.ge, fun _ => congrArg _ last, fun off => ?_, quotients⟩
  · dsimp only
    rw [length, place]
    rfl
  · dsimp only
    rw [Int.toNat_natCast, List.take_of_length_le length.le]
    exact count
  · rw [place] at off
    cases off

/-- **Each step keeps the windows**, as long as the counter fits. -/
theorem windows_move (h : Windows s) (fits : Fits s) (move : Move method cfg s s') : Windows s' := by
  obtain ⟨length, count, nonneg, bound, start, past, last, stopped, quotients⟩ := id h
  have fits : s.threads.nDispatchedRequests + 1 < 2 ^ 31 := fits
  cases move with
  | @other t dispatched same plain =>
    constructor <;> dsimp only <;> first | rw [dispatched, same] | rw [dispatched, plain] | rw [dispatched] | rw [plain] | skip
    all_goals assumption
  | @dispatch t cross dispatched before plain after =>
    rw [before] at length
    refine ⟨?_, ?_, nonneg, ?_, ?_, ?_, fun _ => last plain, fun off => ?_, quotients⟩
    · dsimp only
      rw [List.length_append, length, dispatched, after]
      rfl
    · dsimp only
      rw [List.count_append, count]
      cases cross <;> rfl
    · dsimp only
      rw [dispatched]
      exact bound
    · dsimp only
      rw [List.take_append_of_le_length (by omega)]
      exact start
    · dsimp only
      rw [dispatched]
      exact past
    · rw [after] at off
      cases off
  | @pass t findings counted early before after =>
    rw [before] at length last
    refine ⟨?_, count, nonneg, ?_, start, ?_, fun _ => last rfl, fun off => ?_, quotients⟩
    · dsimp only
      rw [length, counted, after]
      rfl
    · dsimp only
      omega
    · dsimp only
      omega
    · rw [after] at off
      cases off
  | @quiet t findings checked counted other achieved found before after =>
    obtain ⟨counts, -, rfl⟩ := check_quiet found
    rw [before] at length
    have all : s.crossDispatched.length = s.threads.nDispatchedRequests + 1 := length
    refine windows_restart (all.trans counted.symm) after count ?_ ?_ (h.quotients_check fits before)
    · exact counted.trans_lt fits
    · exact counted.trans lastMark_snoc.symm
  | @start t findings checked counted other achieved found before after =>
    obtain ⟨counts, -, rfl⟩ := check_start found
    rw [before] at length
    refine ⟨?_, count, nonneg, ?_, start, ?_, fun on => ?_, fun _ => ?_, h.quotients_check fits before⟩
    · show s.crossDispatched.length = t.nDispatchedRequests + uncounted t.scheduling
      rw [length, counted, after]
      rfl
    · show s.operationStart ≤ t.nDispatchedRequests
      omega
    · show lastMark (s.checks ++ [s.threads.nDispatchedRequests + 1]) ≤ t.nDispatchedRequests
      rw [lastMark_snoc, counted]
    · have on : t.scheduling.plain = true := on
      rw [after] at on
      cases on
    · show t.nDispatchedRequests = lastMark (s.checks ++ [s.threads.nDispatchedRequests + 1])
      rw [lastMark_snoc, counted]
  | @install t dispatched before after =>
    rw [uncounted_of_stopped before] at length
    refine windows_restart (length.trans dispatched.symm) after count ?_ ?_ quotients
    · exact dispatched.trans_lt (Nat.lt_of_succ_lt fits)
    · exact dispatched.trans (stopped before)

/-! ### When a check comes -/

/-- How many requests there are from one check to the next, at least. -/
def Config.spacing (cfg : Config n) : Nat :=
  match cfg.interval with
  | .operations k _ => k
  | .chosen => 1

/-- The test under an interval of `k` requests, by the last check. -/
theorem Windows.achieved_iff (h : Windows s) (fits : Fits s) (place : s.threads.scheduling = .counting) {k : Nat}
    {pos : 0 < k} (interval : cfg.interval = .operations k pos) (findings : Findings n) :
    intervalAchieved cfg s (s.threads.nDispatchedRequests + 1) findings = true ↔
      lastMark s.checks + k ≤ s.threads.nDispatchedRequests + 1 := by
  have last := h.last (by rw [place]; rfl)
  rw [intervalAchieved, interval]
  simp only [toInt_of_lt fits, last, decide_eq_true_eq]
  omega

theorem Windows.spacing_le (h : Windows s) (fits : Fits s) (place : s.threads.scheduling = .counting) {findings : Findings n}
    (achieved : intervalAchieved cfg s (s.threads.nDispatchedRequests + 1) findings = true) :
    lastMark s.checks + cfg.spacing ≤ s.threads.nDispatchedRequests + 1 := by
  unfold Config.spacing
  split
  · rename_i k pos interval
    exact (h.achieved_iff fits place interval findings).mp achieved
  · exact Nat.succ_le_succ h.past

/-- Every `k` requests there is a check. -/
structure Timed (k : Nat) (s : State n) : Prop where
  checks : s.checks = (List.range s.checks.length).map fun i => (i + 1) * k
  next : s.threads.nDispatchedRequests < lastMark s.checks + k
  denominators : ∀ q ∈ s.quotients, q.denominator = k

theorem lastMark_multiples {k : Nat} {checks : List Nat} (h : checks = (List.range checks.length).map fun i => (i + 1) * k) :
    lastMark checks = checks.length * k := by
  cases length : checks.length with
  | zero =>
    rw [List.length_eq_zero_iff.mp length, Nat.zero_mul]
    rfl
  | succ i =>
    rw [h, length, List.range_succ, List.map_append]
    exact lastMark_snoc

/-- A check at its time. -/
theorem Timed.check {k : Nat} (h : Timed k s) (windows : Windows s) (fits : Fits s) (place : s.threads.scheduling = .counting)
    (pos : 0 < k) (due : lastMark s.checks + k ≤ s.threads.nDispatchedRequests + 1)
    (checks : s'.checks = s.checks ++ [s.threads.nDispatchedRequests + 1])
    (dispatched : s'.threads.nDispatchedRequests = s.threads.nDispatchedRequests + 1)
    (quotients : s'.quotients = s.quotients ++ (s.quotient (s.threads.nDispatchedRequests + 1)).toList) : Timed k s' := by
  have now : s.threads.nDispatchedRequests + 1 = lastMark s.checks + k := Nat.le_antisymm h.next due
  refine ⟨?_, ?_, fun q mem => ?_⟩
  · rw [checks, List.length_append, List.length_singleton, List.range_succ, List.map_append, ← h.checks, now,
      lastMark_multiples h.checks, List.map_singleton, Nat.succ_mul]
  · rw [checks, lastMark_snoc, dispatched]
    omega
  · rw [quotients] at mem
    rcases List.mem_append.mp mem with old | new
    · exact h.denominators q old
    · rw [(windows.quotient_exact fits place (Option.mem_toList.mp new)).2, windows.last (by rw [place]; rfl)]
      omega

theorem timed_move {k : Nat} {pos : 0 < k} (interval : cfg.interval = .operations k pos) (other : method ≠ .ROUND_ROBIN)
    (windows : Windows s) (fits : Fits s) (h : Timed k s) (move : Move method cfg s s') : Timed k s' := by
  cases move with
  | other dispatched | dispatch dispatched | install dispatched =>
    exact ⟨h.checks, dispatched.trans_lt h.next, h.denominators⟩
  | pass findings counted early before =>
    refine ⟨h.checks, ?_, h.denominators⟩
    have waits := mt (windows.achieved_iff fits before interval findings).mpr (Bool.eq_false_iff.mp (early other))
    dsimp only
    omega
  | quiet counted other achieved found before =>
    obtain ⟨counts, -, rfl⟩ := check_quiet found
    exact h.check windows fits before pos ((windows.achieved_iff fits before interval _).mp achieved) rfl counted rfl
  | start counted other achieved found before =>
    obtain ⟨counts, -, rfl⟩ := check_start found
    exact h.check windows fits before pos ((windows.achieved_iff fits before interval _).mp achieved) rfl counted rfl

/-! ### When a check starts a repartition -/

/-- The counters of `imbalance()` count the checks since the last repartition was started, and so those are rare. -/
structure Debounced (max spacing : Nat) (s : State n) : Prop where
  counted : ImbalanceCounts.Counted s.recent s.counts
  within : s.counts.Within max
  data : ∀ call ∈ s.recent, call.hasData = true
  since : lastMark s.starts + s.recent.length * spacing ≤ lastMark s.checks
  spaced : Spaced ((max + 1) * spacing) s.starts
  started : s.starts.length = started s.threads

/-- Some partition, or the ratio, has been over the threshold in each of the last `max + 1` checks. -/
def Persistent (max : Nat) (calls : List (ImbalanceCall n)) : Prop :=
  (∃ p, HeldFor (fun call => call.above p) (max + 1) calls) ∨ HeldFor ImbalanceCall.crossAbove (max + 1) calls

theorem Persistent.length_le {max : Nat} {calls : List (ImbalanceCall n)} (h : Persistent max calls) : max + 1 ≤ calls.length := by
  rcases h with ⟨p, held⟩ | held
  · exact held.1
  · exact held.1

/-- **What `imbalance()` returns**, with data. -/
theorem Debounced.imbalance_iff {max spacing : Nat} (h : Debounced max spacing s) (small : max < 2 ^ 32 - 1)
    {call : ImbalanceCall n} (data : call.hasData = true) :
    (s.counts.imbalance max call).1 = true ↔ Persistent max (s.recent ++ [call]) := by
  have all : (s.recent ++ [call]).filter ImbalanceCall.hasData = s.recent ++ [call] := by
    refine List.filter_eq_self.mpr fun c mem => ?_
    rcases List.mem_append.mp mem with old | new
    · exact h.data c old
    · exact List.mem_singleton.mp new ▸ data
  rw [(ImbalanceCounts.imbalance_spec small h.within call).1, h.counted.nextCross call, all, Persistent, or_comm]
  simp only [h.counted.nextStreak call, ← le_streak_iff, Nat.succ_le_iff]

theorem hasData_call (windows : Windows s) (fits : Fits s) (findings : Findings n) :
    (s.call (s.threads.nDispatchedRequests + 1) findings).hasData = true := by
  have bound := windows.bound
  rw [State.call]
  dsimp only
  rw [toInt_of_lt fits, decide_eq_true_eq]
  omega

/-- A look that finds nothing adds to the looks since the last repartition, one that starts a repartition begins anew,
and the streaks in between are those of the counters. -/
theorem debounced_move (small : cfg.maxSucessiveImbalances < 2 ^ 32 - 1) (windows : Windows s) (fits : Fits s)
    (h : Debounced cfg.maxSucessiveImbalances cfg.spacing s) (move : Move method cfg s s') :
    Debounced cfg.maxSucessiveImbalances cfg.spacing s' := by
  cases move with
  | other _ _ _ same | dispatch _ _ _ _ same | pass _ _ _ _ _ same | install _ _ _ same =>
    exact ⟨h.counted, h.within, h.data, h.since, h.spaced, h.started.trans same.symm⟩
  | @quiet t findings checked counted other achieved found before after same =>
    obtain ⟨counts, turn, rfl⟩ := check_quiet found
    have due := windows.spacing_le fits before achieved
    have data := hasData_call windows fits findings
    generalize s.call (s.threads.nDispatchedRequests + 1) findings = call at *
    obtain ⟨within, -, quiet⟩ := ImbalanceCounts.within_called small h.within call
    have next : counts = ⟨ImbalanceCounts.nextCross call s.counts, ImbalanceCounts.nextStreak call s.counts⟩ := by
      have := (ImbalanceCounts.imbalance_spec small h.within call).2.2
      rw [turn] at this
      exact this rfl
    rw [quiet (by rw [turn]), ← next] at within
    refine ⟨?_, within, fun c mem => ?_, ?_, h.spaced, h.started.trans same.symm⟩
    · subst next
      exact ⟨h.counted.nextCross call, fun i => h.counted.nextStreak call i⟩
    · rcases List.mem_append.mp mem with old | new
      · exact h.data c old
      · exact List.mem_singleton.mp new ▸ data
    · show lastMark s.starts + (s.recent ++ [call]).length * cfg.spacing ≤ lastMark (s.checks ++ [_])
      have since := h.since
      rw [List.length_append, List.length_singleton, Nat.succ_mul, lastMark_snoc]
      omega
  | @start t findings checked counted other achieved found before after next =>
    obtain ⟨counts, turn, rfl⟩ := check_start found
    have due := windows.spacing_le fits before achieved
    have data := hasData_call windows fits findings
    generalize s.call (s.threads.nDispatchedRequests + 1) findings = call at *
    have cleared : counts = {} := by
      have := (ImbalanceCounts.imbalance_spec small h.within call).2.1
      rw [turn] at this
      exact this rfl
    have long := ((h.imbalance_iff small data).mp (by rw [turn])).length_le
    subst cleared
    refine ⟨⟨rfl, fun _ => rfl⟩, ⟨Nat.zero_le _, fun _ => Nat.zero_le _⟩, fun c mem => absurd mem List.not_mem_nil, ?_, ?_, ?_⟩
    · show lastMark (s.starts ++ [_]) + 0 * cfg.spacing ≤ lastMark (s.checks ++ [_])
      rw [lastMark_snoc, lastMark_snoc, Nat.zero_mul]
    · refine spaced_snoc.mpr ⟨h.spaced, ?_⟩
      have since := h.since
      rw [List.length_append, List.length_singleton] at long
      have enough : (cfg.maxSucessiveImbalances + 1) * cfg.spacing ≤ s.recent.length * cfg.spacing + cfg.spacing := by
        rw [← Nat.succ_mul]
        exact Nat.mul_le_mul_right _ long
      omega
    · show (s.starts ++ [_]).length = OldImb.started t
      rw [List.length_append, List.length_singleton, h.started, next]

/-! ### Every run -/

/-- A step of `OldImbScheduler` is one of `Scheduler`'s threads. -/
theorem step_threads (h : step method cfg s l = some s') :
    ∃ label, methodStep method (threadsConfig cfg) s.threads label = some s'.threads := by
  cases l with
  | count findings =>
    simp only [step] at h
    split at h
    · unfold count at h
      dsimp only at h
      split at h
      · split at h <;> obtain ⟨t, stepped, rfl⟩ := Option.map_eq_some_iff.mp h <;> exact ⟨_, stepped⟩
      · obtain ⟨t, stepped, rfl⟩ := Option.map_eq_some_iff.mp h
        exact ⟨_, stepped⟩
    · cases h
  | threads label =>
    simp only [step] at h
    split at h
    · cases h
    · obtain ⟨t, stepped, rfl⟩ := Option.map_eq_some_iff.mp h
      refine ⟨_, stepped.trans (congrArg some ?_)⟩
      unfold State.dispatch
      split <;> rfl
    · obtain ⟨t, stepped, rfl⟩ := Option.map_eq_some_iff.mp h
      exact ⟨_, stepped⟩
    · obtain ⟨t, stepped, rfl⟩ := Option.map_eq_some_iff.mp h
      exact ⟨_, stepped⟩

theorem reachable_threads (reachable : (system method cfg).Reachable s) :
    (StopTheWorld.methodSystem method (threadsConfig cfg)).Reachable s.threads := by
  refine reachable.invariant (P := fun s => (StopTheWorld.methodSystem method (threadsConfig cfg)).Reachable s.threads)
    System.Reachable.init fun s l s' reached stepped => ?_
  obtain ⟨label, stepped⟩ := step_threads stepped
  exact reached.step stepped

theorem methodInit_idle (method : CutMethod) (cfg : Config n) : (init method cfg).threads.nDispatchedRequests = 0 ∧
    (init method cfg).threads.scheduling = .waitingItem ∧ (init method cfg).threads.raised = 0 := by
  show (StopTheWorld.methodInit method (threadsConfig cfg)).nDispatchedRequests = 0 ∧ _
  unfold init StopTheWorld.methodInit
  split <;> exact ⟨rfl, rfl, rfl⟩

theorem via_windows (via : (system method cfg).Via (fun s _ => Fits s) s) : Windows s := by
  refine via.invariant (P := Windows) ?_ fun s l s' _ windows fits stepped => windows_move windows fits (step_move stepped)
  obtain ⟨none, place, -⟩ := methodInit_idle method cfg
  refine ⟨?_, rfl, le_rfl, Int.natCast_nonneg _, rfl, Nat.zero_le _, fun _ => rfl, fun _ => none, nofun⟩
  show 0 = (init method cfg).threads.nDispatchedRequests + uncounted (init method cfg).threads.scheduling
  rw [none, place]
  rfl

theorem via_debounced (small : cfg.maxSucessiveImbalances < 2 ^ 32 - 1) (via : (system method cfg).Via (fun s _ => Fits s) s) :
    Debounced cfg.maxSucessiveImbalances cfg.spacing s := by
  refine via.invariant (P := Debounced cfg.maxSucessiveImbalances cfg.spacing) ?_ fun s l s' via debounced fits stepped =>
    debounced_move small (via_windows via) fits debounced (step_move stepped)
  obtain ⟨-, place, none⟩ := methodInit_idle method cfg
  refine ⟨⟨rfl, fun _ => rfl⟩, ⟨Nat.zero_le _, fun _ => Nat.zero_le _⟩, nofun, ?_, spaced_nil, ?_⟩
  · show 0 + 0 * cfg.spacing ≤ 0
    rw [Nat.zero_mul]
  · show 0 = started (init method cfg).threads
    rw [started, place, none]

theorem via_timed {k : Nat} {pos : 0 < k} (interval : cfg.interval = .operations k pos) (other : method ≠ .ROUND_ROBIN)
    (via : (system method cfg).Via (fun s _ => Fits s) s) : Timed k s := by
  refine via.invariant (P := Timed k) ?_ fun s l s' via timed fits stepped =>
    timed_move interval other (via_windows via) fits timed (step_move stepped)
  obtain ⟨none, -, -⟩ := methodInit_idle method cfg
  refine ⟨rfl, ?_, nofun⟩
  show (init method cfg).threads.nDispatchedRequests < 0 + k
  rw [none]
  omega

/-- `start` of a request's tests. -/
theorem count_raises {findings : Findings n} (place : s.threads.scheduling = .counting)
    (h : count method cfg s findings = some s') :
    s'.threads.scheduling = .raising ↔
      method ≠ .ROUND_ROBIN ∧ intervalAchieved cfg s (s.threads.nDispatchedRequests + 1) findings = true ∧
        (s.counts.imbalance cfg.maxSucessiveImbalances (s.call (s.threads.nDispatchedRequests + 1) findings)).1 = true := by
  unfold count at h
  dsimp only at h
  split at h
  · rename_i checks
    obtain ⟨other, achieved⟩ := checks
    generalize s.call (s.threads.nDispatchedRequests + 1) findings = call at *
    split at h <;> rename_i checked found <;> obtain ⟨t, step, rfl⟩ := Option.map_eq_some_iff.mp h <;>
      obtain ⟨-, -, after⟩ := counting_step place step <;> replace after := after (Or.inl other)
    · obtain ⟨counts, turn, -⟩ := check_start found
      rw [turn]
      exact iff_of_true after ⟨other, achieved, rfl⟩
    · obtain ⟨counts, turn, -⟩ := check_quiet found
      rw [turn]
      refine iff_of_false (fun raises => ?_) fun ⟨_, _, no⟩ => Bool.false_ne_true no
      cases after.symm.trans raises
  · rename_i early
    obtain ⟨t, step, rfl⟩ := Option.map_eq_some_iff.mp h
    obtain ⟨-, -, after⟩ := counting_step place step
    replace after := after (Or.inr rfl)
    refine iff_of_false (fun raises => ?_) fun ⟨other, achieved, _⟩ => early ⟨other, achieved⟩
    cases after.symm.trans raises

/-- **When OldImbScheduler repartitions.** Its threads are those of `Scheduler`. With an interval of `k` requests it
looks at the imbalance at each multiple of `k`, and by a clock at most once a request; each quotient is the ratio
over the requests since the last look. It starts a repartition exactly if a partition's queue or the ratio has been
over the threshold in each of the last `MaxSucessiveImbalances + 1` looks, all since the last repartition, so
repartitions are that many intervals apart. -/
theorem oldImb_repartitions (method : CutMethod) (cfg : Config n) (small : cfg.maxSucessiveImbalances < 2 ^ 32 - 1)
    {s : State n} (via : (system method cfg).Via (fun s _ => Fits s) s) :
    (StopTheWorld.methodSystem method (threadsConfig cfg)).Reachable s.threads ∧
    (∀ k pos, cfg.interval = .operations k pos → method ≠ .ROUND_ROBIN →
      s.checks = (List.range (s.threads.nDispatchedRequests / k)).map fun i => (i + 1) * k) ∧
    (∀ q ∈ s.quotients, q.Exact ∧ ∀ k pos, cfg.interval = .operations k pos → method ≠ .ROUND_ROBIN → q.denominator = k) ∧
    (∀ findings s', Fits s → step method cfg s (.count findings) = some s' →
      (s'.threads.scheduling = .raising ↔
        method ≠ .ROUND_ROBIN ∧ intervalAchieved cfg s (s.threads.nDispatchedRequests + 1) findings = true ∧
          Persistent cfg.maxSucessiveImbalances (s.recent ++ [s.call (s.threads.nDispatchedRequests + 1) findings]))) ∧
    s.starts.length = started s.threads ∧ Spaced ((cfg.maxSucessiveImbalances + 1) * cfg.spacing) s.starts := by
  have windows := via_windows via
  have debounced := via_debounced small via
  refine ⟨reachable_threads via.reachable, fun k pos interval other => ?_, fun q mem => ⟨windows.quotients q mem, ?_⟩,
    fun findings s' fits stepped => ?_, debounced.started, debounced.spaced⟩
  · have timed := via_timed interval other via
    have last := lastMark_multiples timed.checks
    have past := windows.past
    have next := timed.next
    rw [last] at past next
    have many : s.threads.nDispatchedRequests / k = s.checks.length :=
      Nat.div_eq_of_lt_le past (by rwa [Nat.succ_mul])
    rw [many]
    exact timed.checks
  · intro k pos interval other
    exact (via_timed interval other via).denominators q mem
  · simp only [step] at stepped
    split at stepped
    · rename_i place
      rw [count_raises place stepped, debounced.imbalance_iff small (hasData_call windows fits findings)]
    · cases stepped

/-- A look at each request, and a repartition after two in a row that find the second queue too long. -/
def eachConfig : Config 2 where
  positive := Nat.two_pos
  TL := 0
  queueHeadDistance := 5
  interval := .operations 1 Nat.one_pos
  populated := [0, 1]
  maxSucessiveImbalances := 1

/-- A request up to its count. -/
def unbalanced : List (Label 2) :=
  [.threads (.submit { type := .WRITE, key := 0 }), .threads .produce, .threads .produce, .threads .produce] ++
    List.replicate 5 (.threads (.schedule false)) ++
    [.count { achieved := false, crossAbove := false, above := fun p => p = 1 }]

theorem oldImb_repartitions_each : ∃ s, (system .METIS eachConfig).Via (fun s _ => Fits s) s ∧ s.starts = [2] ∧
    s.checks = [1, 2] ∧ Spaced 2 s.starts := by
  obtain ⟨s, via, starts, dispatched⟩ := System.exists_via (M := system .METIS eachConfig) (fun s _ => Fits s)
    (P := fun s => s.starts = [2] ∧ s.threads.nDispatchedRequests = 2) (unbalanced ++ unbalanced) (by decide +kernel)
  obtain ⟨-, checks, -, -, -, spaced⟩ := oldImb_repartitions .METIS eachConfig (by decide) via
  refine ⟨s, via, starts, ?_, spaced⟩
  rw [checks 1 Nat.one_pos rfl nofun, dispatched]
  rfl

end OldImb

end KvPaxos
