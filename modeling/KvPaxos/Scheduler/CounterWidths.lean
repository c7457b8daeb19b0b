import KvPaxos.Lib.Words
import KvPaxos.Scheduler.FreePlaces
import KvPaxos.Scheduler.HandShake

/-!
# The repartition decisions in the widths of the counters

`n_dispatched_requests_`, `operation_start_` and `operation_interval_` are `int`s and
`n_processed_requests_` is a `size_t`. The tests that decide on a repartition are made on these words:
here the schedulers' threads keep them beside the counts without bound, which `threads` has, and go by the
words. With fewer than `2 ^ 31` requests the two agree, so the run is one of the schedulers without bounds.
From `2 ^ 31` requests on the comparison of the stop-the-world hand-shake fails, and a note that is raised
is not answered.
-/

namespace KvPaxos

open Lib

namespace CounterWidths

open StopTheWorld (Config Interval Scheduling GraphThread)

/-- `n_processed_requests_+1 >= n_dispatched_requests_`: the `int` is converted to `size_t`. -/
def noteTest (processed : UInt64) (dispatched : Int32) : Bool := processed + 1 ≥ dispatched.toInt64.toUInt64

/-- `n_dispatched_requests_ % operation_interval_ == 0`. -/
def intervalTest (dispatched interval : Int32) : Bool := dispatched % interval == 0

/-- `n_dispatched_requests_ - operation_start_ >= operation_interval_`. -/
def asyncTest (dispatched start interval : Int32) : Bool := dispatched - start ≥ interval

variable {n d p k start : Nat}

/-! ### The tests on counts -/

theorem noteTest_eq (small : d < 2 ^ 31) (processed : p + 1 < 2 ^ 64) :
    noteTest (UInt64.ofNat p) (Int32.ofNat d) = decide (d ≤ p + 1) := by
  have value := toNat_converted (Int32.ofNat d)
  rw [Int32.toInt_ofNat_of_lt small] at value
  unfold noteTest
  congr 1
  rw [ge_iff_le, UInt64.le_iff_toNat_le, toNat_succ processed, eq_iff_iff]
  omega

/-- A negative count is a huge `size_t`. -/
theorem noteTest_wrapped (low : 2 ^ 31 ≤ d) (high : d < 2 ^ 32) (processed : p < 2 ^ 63) :
    noteTest (UInt64.ofNat p) (Int32.ofNat d) = false := by
  have value := toNat_converted (Int32.ofNat d)
  rw [toInt_wrapped low high] at value
  unfold noteTest
  rw [decide_eq_false_iff_not, ge_iff_le, UInt64.le_iff_toNat_le, toNat_succ (by omega)]
  omega

theorem intervalTest_iff (int : k < 2 ^ 31) (x : Int32) :
    intervalTest x (Int32.ofNat k) = true ↔ (k : Int) ∣ x.toInt := by
  unfold intervalTest
  rw [beq_iff_eq, ← Int32.toInt_inj, Int32.toInt_mod, Int32.toInt_ofNat_of_lt int, Int32.toInt_zero,
    Int.dvd_iff_tmod_eq_zero]

theorem intervalTest_eq (int : k < 2 ^ 31) (small : d < 2 ^ 31) :
    intervalTest (Int32.ofNat d) (Int32.ofNat k) = decide (d % k = 0) := by
  rw [Bool.eq_iff_iff, intervalTest_iff int, Int32.toInt_ofNat_of_lt small, decide_eq_true_iff, Int.natCast_dvd_natCast,
    Nat.dvd_iff_mod_eq_zero]

theorem asyncTest_eq (int : k < 2 ^ 31) (le : start ≤ d) (near : d - start < 2 ^ 31) :
    asyncTest (Int32.ofNat d) (Int32.ofNat start) (Int32.ofNat k) = decide (k ≤ d - start) := by
  unfold asyncTest
  rw [← Int32.ofNat_sub _ _ le]
  congr 1
  rw [ge_iff_le, Int32.le_iff_toInt_le, Int32.toInt_ofNat_of_lt int, Int32.toInt_ofNat_of_lt near, eq_iff_iff]
  omega

/-! ### The stop-the-world schedulers -/

/-- The threads, with the counts without bound, and the words they go by. -/
structure State (n : Nat) where
  threads : StopTheWorld.State n
  nDispatchedRequests : Int32 := 0
  nProcessedRequests : UInt64 := 0

def init (cfg : Config n) : State n where
  threads := StopTheWorld.init cfg

/-- `start_repartitioning`, where `n_dispatched_requests_` is `count`. -/
def allows (interval : Interval) (count : Int32) (start : Bool) : Bool :=
  match interval with
  | .operations k _ => start = intervalTest count (Int32.ofNat k)
  | .chosen => true

/-- The scheduling thread's next statement. It is that of `StopTheWorld` but for the count, which is an `Int32`, and
for the test of `schedule_and_answer` for a multiple of `operation_interval_`, which is made on it. -/
def schedule (cfg : Config n) (s : State n) (start : Bool) : Option (State n) :=
  match s.threads.scheduling with
  | .counting =>
    if allows cfg.interval (s.nDispatchedRequests + 1) start then
      some { s with
        threads := { s.threads with
          nDispatchedRequests := s.threads.nDispatchedRequests + 1
          scheduling := if start then .raising else .waitingItem }
        nDispatchedRequests := s.nDispatchedRequests + 1 }
    else none
  | _ => (StopTheWorld.schedule cfg s.threads start).map fun t => { s with threads := t }

/-- The graph thread's next statement. It is that of `StopTheWorld` but for the comparison `n_processed_requests_+1 >=
n_dispatched_requests_`, in which the `int` is converted to the `size_t` of the other side. -/
def graph (cfg : Config n) (s : State n) : Option (State n) :=
  match s.threads.graphThread with
  | .comparing =>
    if noteTest s.nProcessedRequests s.nDispatchedRequests then
      some { s with threads := { s.threads with
        graphThread := .answering, caughtUp := StopTheWorld.upToDate s.threads } }
    else some { s with threads := { s.threads with graphThread := .popping } }
  | .counting => (StopTheWorld.graph cfg s.threads).map fun t =>
      { s with threads := t, nProcessedRequests := s.nProcessedRequests + 1 }
  | _ => (StopTheWorld.graph cfg s.threads).map fun t => { s with threads := t }

/-- One statement, with the counters as the source declares them beside the counts of `StopTheWorld`. -/
def step (cfg : Config n) (s : State n) : StopTheWorld.Label → Option (State n)
  | .schedule start => schedule cfg s start
  | .graph => graph cfg s
  | l => (StopTheWorld.step cfg s.threads l).map fun t => { s with threads := t }

def system (cfg : Config n) : System (State n) StopTheWorld.Label := ⟨init cfg, step cfg⟩

variable {cfg : Config n} {s s' : State n} {l : StopTheWorld.Label}

/-- The steps, as far as the counters tell them apart. -/
inductive Move (cfg : Config n) (s : State n) : StopTheWorld.Label → State n → Prop
  | other {l : StopTheWorld.Label} {t : StopTheWorld.State n} (move : StopTheWorld.Move cfg s.threads l t)
      (dispatched : t.nDispatchedRequests = s.threads.nDispatchedRequests)
      (processed : t.nProcessedRequests = s.threads.nProcessedRequests)
      (step : StopTheWorld.step cfg s.threads l = some t) (place : s.threads.graphThread ≠ .comparing ∨ l ≠ .graph) :
      Move cfg s l { s with threads := t }
  | count {start : Bool} (place : s.threads.scheduling = .counting)
      (allowed : allows cfg.interval (s.nDispatchedRequests + 1) start = true) :
      Move cfg s (.schedule start) { s with
        threads := { s.threads with
          nDispatchedRequests := s.threads.nDispatchedRequests + 1
          scheduling := if start then .raising else .waitingItem }
        nDispatchedRequests := s.nDispatchedRequests + 1 }
  | agree (place : s.threads.graphThread = .comparing)
      (test : noteTest s.nProcessedRequests s.nDispatchedRequests = true) :
      Move cfg s .graph { s with threads := { s.threads with
        graphThread := .answering, caughtUp := StopTheWorld.upToDate s.threads } }
  | refuse (place : s.threads.graphThread = .comparing)
      (test : noteTest s.nProcessedRequests s.nDispatchedRequests = false) :
      Move cfg s .graph { s with threads := { s.threads with graphThread := .popping } }
  | tally (place : s.threads.graphThread = .counting) :
      Move cfg s .graph { s with
        threads := { s.threads with
          nProcessedRequests := s.threads.nProcessedRequests + 1
          graphThread := .waitingItem }
        nProcessedRequests := s.nProcessedRequests + 1 }

/-- A step of the threads away from the two increments keeps the counts. -/
theorem counts_move {t t' : StopTheWorld.State n} (move : StopTheWorld.Move cfg t l t')
    (dispatch : ∀ b, l = .schedule b → t.scheduling ≠ .counting) (process : l = .graph → t.graphThread ≠ .counting) :
    t'.nDispatchedRequests = t.nDispatchedRequests ∧ t'.nProcessedRequests = t.nProcessedRequests := by
  cases move with
  | count place | start place => exact absurd place (dispatch _ rfl)
  | tally place => exact absurd place (process rfl)
  | _ => exact ⟨rfl, rfl⟩

/-- Each step is one of the moves: those of `StopTheWorld`, but for the count and the comparison, which are on words.
-/
theorem step_move (h : step cfg s l = some s') : Move cfg s l s' := by
  cases l with
  | submit | produce | cut =>
    obtain ⟨t, stepped, rfl⟩ := Option.map_eq_some_iff.mp h
    have move := StopTheWorld.step_move stepped
    obtain ⟨dispatched, processed⟩ := counts_move move (fun b eq => by cases eq) fun eq => by cases eq
    exact .other move dispatched processed stepped (Or.inr fun eq => by cases eq)
  | schedule start =>
    simp only [step, schedule] at h
    split at h
    · rename_i place
      obtain ⟨allowed, ⟨⟩⟩ := Option.ite_none_right_eq_some.mp h
      exact .count place allowed
    · rename_i away
      obtain ⟨t, stepped, rfl⟩ := Option.map_eq_some_iff.mp h
      have move := StopTheWorld.schedule_move stepped
      obtain ⟨dispatched, processed⟩ := counts_move move (fun b eq place => away place) fun eq => by cases eq
      exact .other move dispatched processed stepped (Or.inr fun eq => by cases eq)
  | graph =>
    simp only [step, graph] at h
    split at h
    · rename_i place
      split at h
      · rename_i test
        cases h
        exact .agree place test
      · rename_i test
        cases h
        exact .refuse place (Bool.eq_false_of_not_eq_true test)
    · rename_i place
      obtain ⟨t, stepped, rfl⟩ := Option.map_eq_some_iff.mp h
      simp only [StopTheWorld.graph, place] at stepped
      cases stepped
      exact .tally place
    · rename_i comparing counting
      obtain ⟨t, stepped, rfl⟩ := Option.map_eq_some_iff.mp h
      have move := StopTheWorld.graph_move stepped
      obtain ⟨dispatched, processed⟩ := counts_move move (fun b eq => by cases eq) fun eq place => counting place
      exact .other move dispatched processed stepped (Or.inl comparing)

/-! ### Words and counts -/

/-- The words are the counts, wrapped. -/
structure Counted (s : State n) : Prop where
  dispatched : s.nDispatchedRequests = Int32.ofNat s.threads.nDispatchedRequests
  processed : s.nProcessedRequests = UInt64.ofNat s.threads.nProcessedRequests

theorem counted_move (h : Counted s) (move : Move cfg s l s') : Counted s' := by
  cases move with
  | other move dispatched processed => exact ⟨by rw [h.dispatched, dispatched], by rw [h.processed, processed]⟩
  | count => exact ⟨by rw [h.dispatched, ofNat_succ], h.processed⟩
  | tally => exact ⟨h.dispatched, by rw [h.processed, UInt64.ofNat_add, UInt64.ofNat_one]⟩
  | agree | refuse => exact ⟨h.dispatched, h.processed⟩

/-- An increment leaves the counts within their words, the larger one with room for the comparison. -/
def Small (s : State n) : StopTheWorld.Label → Prop
  | .schedule _ => s.threads.scheduling matches .counting → s.threads.nDispatchedRequests + 1 < 2 ^ 31
  | .graph => s.threads.graphThread matches .counting → s.threads.nProcessedRequests + 2 < 2 ^ 64
  | _ => True

instance (s : State n) (l : StopTheWorld.Label) : Decidable (Small s l) := by
  unfold Small
  split <;> infer_instance

/-- The words are the counts. -/
structure Within (s : State n) : Prop extends Counted s where
  int : s.threads.nDispatchedRequests < 2 ^ 31
  size : s.threads.nProcessedRequests + 1 < 2 ^ 64

theorem within_move (h : Within s) (small : Small s l) (move : Move cfg s l s') : Within s' := by
  refine { counted_move h.toCounted move with int := ?_, size := ?_ }
  · cases move with
    | other move dispatched => exact dispatched ▸ h.int
    | count place => exact small (by rw [place])
    | agree | refuse | tally => exact h.int
  · cases move with
    | other move dispatched processed => exact processed ▸ h.size
    | tally place =>
      have room := small (by rw [place])
      show _ + 1 + 1 < _
      omega
    | count | agree | refuse => exact h.size

theorem Within.note (h : Within s) : noteTest s.nProcessedRequests s.nDispatchedRequests =
    decide (s.threads.nDispatchedRequests ≤ s.threads.nProcessedRequests + 1) := by
  rw [h.dispatched, h.processed]
  exact noteTest_eq h.int h.size

/-- `operation_interval_` is an `int`. -/
def Fits (interval : Interval) : Prop := ∀ k pos, interval = .operations k pos → k < 2 ^ 31

theorem allows_eq {interval : Interval} {start : Bool} (fits : Fits interval) (small : d < 2 ^ 31) :
    allows interval (Int32.ofNat d) start = interval.allows d start := by
  cases interval with
  | chosen => rfl
  | operations k pos =>
    simp only [allows, Interval.allows, intervalTest_eq (fits k pos rfl) small]

/-- Within the words a step is the threads' own. -/
theorem within_step (fits : Fits cfg.interval) (h : Within s) (small : Small s l) (move : Move cfg s l s') :
    StopTheWorld.step cfg s.threads l = some s'.threads := by
  cases move with
  | other move dispatched processed step => exact step
  | count place allowed =>
    rw [h.dispatched, ← ofNat_succ, allows_eq fits (small (by rw [place]))] at allowed
    simp only [StopTheWorld.step, StopTheWorld.schedule, place, if_pos allowed]
  | agree place test =>
    rw [h.note, decide_eq_true_iff] at test
    simp only [StopTheWorld.step, StopTheWorld.graph, place, if_pos test]
  | refuse place test =>
    rw [h.note, decide_eq_false_iff_not] at test
    simp only [StopTheWorld.step, StopTheWorld.graph, place, if_neg test]
  | tally place => simp only [StopTheWorld.step, StopTheWorld.graph, place]

/-- **The words are simulated by the counts.** -/
theorem small_simulation (fits : Fits cfg.interval) :
    System.Simulation (system cfg) (StopTheWorld.system cfg) Small fun s t => t = s.threads ∧ Within s where
  init := ⟨rfl, ⟨rfl, rfl⟩, Nat.two_pow_pos 31, Nat.one_lt_two_pow (by decide)⟩
  step := by
    rintro s l s' t - ⟨rfl, within⟩ small step
    have move := step_move step
    exact Or.inr ⟨l, s'.threads, within_step fits within small move, rfl, within_move within small move⟩

theorem small_related (fits : Fits cfg.interval) (via : (system cfg).Via Small s) :
    (StopTheWorld.system cfg).Reachable s.threads ∧ Within s := by
  obtain ⟨t, reachable, rfl, within⟩ := (small_simulation fits).exists_related via
  exact ⟨reachable, within⟩

/-- A guard on the threads carries over with the words. -/
theorem small_guarded (fits : Fits cfg.interval) {guard : StopTheWorld.State n → StopTheWorld.Label → Prop}
    (via : (system cfg).Via (fun s l => Small s l ∧ guard s.threads l) s) :
    (StopTheWorld.system cfg).Via guard s.threads ∧ Within s := by
  refine via.invariant (P := fun s => (StopTheWorld.system cfg).Via guard s.threads ∧ Within s)
    ⟨.init, (small_simulation fits).init.2⟩ ?_
  rintro s l s' - ⟨threads, within⟩ ⟨small, met⟩ step
  have move := step_move step
  exact ⟨threads.step met (within_step fits within small move), within_move within small move⟩

/-! ### A negative count -/

/-- The barriers are passed in the same order whatever the outcome of the two tests. -/
theorem phases_step (h : s.threads.Phases) (move : Move cfg s l s') : s'.threads.Phases := by
  cases move with
  | other move => exact StopTheWorld.phases_move h move
  | @count start place =>
    cases start with
    | false =>
      have own : StopTheWorld.Move cfg s.threads (.schedule false) _ := .count place
      exact StopTheWorld.phases_move h own
    | true =>
      have own : StopTheWorld.Move cfg s.threads (.schedule true) _ := .start place
      exact StopTheWorld.phases_move h own
  | tally place =>
    have own : StopTheWorld.Move cfg s.threads .graph _ := .tally place
    exact StopTheWorld.phases_move h own
  | agree place =>
    unfold StopTheWorld.State.Phases at h ⊢
    rw [place] at h
    exact h.graph rfl rfl nofun fun _ => h.heard (Or.inl rfl)
  | refuse place =>
    unfold StopTheWorld.State.Phases at h ⊢
    rw [place] at h
    exact h.graph rfl rfl nofun nofun

/-- The scheduling thread is about to raise a note or waits for the answer, and the graph thread is in
its loop. -/
structure Waits (t : StopTheWorld.State n) : Prop where
  phases : t.Phases
  scheduling : t.scheduling = .raising ∨ t.scheduling.round t.barrier.generation = 1
  graph : t.graphThread.round t.barrier.generation = 0
  silent : t.graphThread ≠ .answering

section Waits

variable {t t' : StopTheWorld.State n}

/-- The scheduling thread finds nobody at the barrier. -/
theorem Waits.alone (h : Waits t) (place : t.scheduling = .arriving1) : t.barrier.waiting = false := by
  rw [Bool.eq_false_iff]
  intro waiting
  rcases h.phases.waiting.mp waiting with parked | parked
  · rw [place] at parked
    cases parked
  · have outside := h.graph
    have inside := StopTheWorld.GraphThread.round_parked parked
    omega

/-- The scheduling thread is in no other place. -/
theorem Waits.elsewhere (h : Waits t) {a : Scheduling n} (place : t.scheduling = a) (raised : a ≠ .raising)
    (round : a.round t.barrier.generation ≠ 1) : False := by
  rcases h.scheduling with eq | eq
  · exact raised (place ▸ eq)
  · exact round (place ▸ eq)

/-- Without an agreement the two threads stay where they are. -/
theorem waits_move (h : Waits t) (move : StopTheWorld.Move cfg t l t')
    (outside : t.graphThread ≠ .comparing ∨ l ≠ .graph) : Waits t' ∧ t'.answered = t.answered := by
  have phases := StopTheWorld.phases_move h.phases move
  have graph := h.graph
  cases move with
  | submit | push | notify0 | notify1 => exact ⟨⟨phases, h.scheduling, graph, h.silent⟩, rfl⟩
  | raise | freeItem | freeAhead => exact ⟨⟨phases, Or.inr rfl, graph, h.silent⟩, rfl⟩
  | park1 => exact ⟨⟨phases, Or.inr (if_pos rfl), graph, h.silent⟩, rfl⟩
  | open1 place second =>
    rw [h.alone place] at second
    cases second
  | resume1 place passed =>
    refine (h.elsewhere place (fun eq => (by cases eq)) ?_).elim
    rw [StopTheWorld.Scheduling.round, if_neg passed]
    decide
  | resume2 place passed =>
    refine (h.elsewhere place (fun eq => (by cases eq)) ?_).elim
    rw [StopTheWorld.Scheduling.round, if_neg passed]
    decide
  | item0 place | ahead0 place | pop0 place | release0 place | finish place | dispatch place | count place
  | start place | copy place | park2 place | open2 place | cut place | install place =>
    exact (h.elsewhere place (fun eq => (by cases eq)) fun eq => (by cases eq)).elim
  | item1 | ahead1 | pass | hear | refuse | pop1 | release1 | update | tally | graphResume2 =>
    exact ⟨⟨phases, h.scheduling, rfl, fun eq => (by cases eq)⟩, rfl⟩
  | agree comparing => exact (outside.elim (fun away => away comparing) fun away => away rfl).elim
  | answer place => exact absurd place h.silent
  | graphPark1 place | graphOpen1 place | graphPark2 place | graphOpen2 place =>
    rw [place] at graph
    cases graph
  | graphResume1 place passed =>
    rw [place, StopTheWorld.GraphThread.round, if_neg passed] at graph
    cases graph

end Waits

/-- The scheduling thread waits for an answer, and the count is negative. -/
structure Left (s : State n) : Prop extends Counted s, Waits s.threads where
  low : 2 ^ 31 ≤ s.threads.nDispatchedRequests
  high : s.threads.nDispatchedRequests < 2 ^ 32

/-- **A step leaves the note unanswered.** -/
theorem left_move (h : Left s) (bound : s.threads.nProcessedRequests < 2 ^ 63) (move : Move cfg s l s') :
    Left s' ∧ s'.threads.answered = s.threads.answered := by
  have counted := counted_move h.toCounted move
  have phases := phases_step h.phases move
  cases move with
  | other move dispatched processed step place =>
    obtain ⟨waits, answered⟩ := waits_move h.toWaits move place
    exact ⟨{ counted, waits with low := dispatched ▸ h.low, high := dispatched ▸ h.high }, answered⟩
  | count place => exact (h.elsewhere place (fun eq => (by cases eq)) fun eq => (by cases eq)).elim
  | agree place test =>
    rw [h.dispatched, h.processed, noteTest_wrapped h.low h.high bound] at test
    cases test
  | refuse | tally =>
    exact ⟨{ counted with
      phases := phases, scheduling := h.scheduling, graph := rfl, silent := fun eq => (by cases eq)
      low := h.low, high := h.high }, rfl⟩

/-- A note is about to be raised: the graph thread is in its loop. -/
theorem waits_raising {t : StopTheWorld.State n} (phases : t.Phases) (place : t.scheduling = .raising) : Waits t := by
  have rounds := phases.rounds
  rw [place] at rounds
  rcases rounds with ⟨-, graph, quiet⟩ | ⟨one, -⟩ | ⟨one, -⟩ | ⟨two, -⟩
  · refine ⟨phases, Or.inl place, graph, fun answering => ?_⟩
    rw [phases.heard (Or.inr answering)] at quiet
    cases quiet
  · cases one
  · cases one
  · cases two

/-- The runs from `s` in which fewer than `2 ^ 63` messages are processed. -/
def Later (cfg : Config n) (s : State n) : State n → Prop :=
  ((system cfg).resume s).Via fun t _ => t.threads.nProcessedRequests < 2 ^ 63

/-- **A note raised at a negative count is not answered.** -/
theorem left_later (h : Left s) (later : Later cfg s s') : Left s' ∧ s'.threads.answered = s.threads.answered := by
  apply System.Via.invariant (P := fun t => Left t ∧ t.threads.answered = s.threads.answered) later ⟨h, rfl⟩
  rintro t l t' - ⟨left, same⟩ bound step
  obtain ⟨left', same'⟩ := left_move left bound (step_move step)
  exact ⟨left', same'.trans same⟩

theorem reachable_counted (reachable : (system cfg).Reachable s) : Counted s ∧ s.threads.Phases := by
  apply reachable.invariant (P := fun s => Counted s ∧ s.threads.Phases)
  · exact ⟨⟨rfl, rfl⟩, StopTheWorld.phases_init⟩
  · exact fun s l s' held step => ⟨counted_move held.1 (step_move step), phases_step held.2 (step_move step)⟩

/-! ### `AsyncScheduler` -/

/-- The threads, with the counts without bound, and the words they go by. -/
structure AsyncState (n : Nat) where
  threads : FreeScheduler.State n
  nDispatchedRequests : Int32 := 0
  operationStart : Int32 := 0

def asyncInit (cfg : FreeScheduler.Config n) : AsyncState n where
  threads := FreeScheduler.init cfg

/-- `interval_achieved`. -/
def asyncAchieved (interval : Interval) (dispatched start : Int32) (choice : Bool) : Bool :=
  match interval with
  | .operations k _ => choice = asyncTest dispatched start (Int32.ofNat k)
  | .chosen => true

/-- The scheduling thread's next statement in `AsyncScheduler`, which tests the difference of two `int`s and sets
`operation_start_` at an install. -/
def asyncSchedule (cfg : FreeScheduler.Config n) (s : AsyncState n) (choice : Bool) : Option (AsyncState n) :=
  match s.threads.scheduling with
  | .counting => (FreeScheduler.schedule cfg s.threads choice).map fun t =>
      { s with threads := t, nDispatchedRequests := s.nDispatchedRequests + 1 }
  | .testingInterval =>
    if asyncAchieved cfg.interval s.nDispatchedRequests s.operationStart choice then
      some { s with threads := { s.threads with
        scheduling := if choice then .raisingRepartition else .waitingItem } }
    else none
  | .restarting => (FreeScheduler.schedule cfg s.threads choice).map fun t =>
      { s with threads := t, operationStart := s.nDispatchedRequests }
  | _ => (FreeScheduler.schedule cfg s.threads choice).map fun t => { s with threads := t }

def asyncStep (cfg : FreeScheduler.Config n) (s : AsyncState n) : FreeScheduler.Label → Option (AsyncState n)
  | .schedule choice => asyncSchedule cfg s choice
  | l => (FreeScheduler.step cfg s.threads l).map fun t => { s with threads := t }

def asyncSystem (cfg : FreeScheduler.Config n) : System (AsyncState n) FreeScheduler.Label :=
  ⟨asyncInit cfg, asyncStep cfg⟩

section Async

variable {cfg : FreeScheduler.Config n} {s s' : AsyncState n} {l : FreeScheduler.Label}

/-- The steps, as far as the words tell them apart. -/
inductive AsyncMove (cfg : FreeScheduler.Config n) (s : AsyncState n) : FreeScheduler.Label → AsyncState n → Prop
  | other {l : FreeScheduler.Label} {t : FreeScheduler.State n} (step : FreeScheduler.step cfg s.threads l = some t)
      (away : ∀ b, l = .schedule b →
        s.threads.scheduling ≠ .counting ∧ s.threads.scheduling ≠ .testingInterval ∧ s.threads.scheduling ≠ .restarting) :
      AsyncMove cfg s l { s with threads := t }
  | count {b : Bool} {t : FreeScheduler.State n} (place : s.threads.scheduling = .counting)
      (step : FreeScheduler.step cfg s.threads (.schedule b) = some t) :
      AsyncMove cfg s (.schedule b) { s with threads := t, nDispatchedRequests := s.nDispatchedRequests + 1 }
  | test {choice : Bool} (place : s.threads.scheduling = .testingInterval)
      (achieved : asyncAchieved cfg.interval s.nDispatchedRequests s.operationStart choice = true) :
      AsyncMove cfg s (.schedule choice) { s with threads := { s.threads with
        scheduling := if choice then .raisingRepartition else .waitingItem } }
  | restart {b : Bool} {t : FreeScheduler.State n} (place : s.threads.scheduling = .restarting)
      (step : FreeScheduler.step cfg s.threads (.schedule b) = some t) :
      AsyncMove cfg s (.schedule b) { s with threads := t, operationStart := s.nDispatchedRequests }

theorem asyncStep_move (h : asyncStep cfg s l = some s') : AsyncMove cfg s l s' := by
  cases l with
  | schedule choice =>
    simp only [asyncStep, asyncSchedule] at h
    split at h
    · rename_i place
      obtain ⟨t, step, rfl⟩ := Option.map_eq_some_iff.mp h
      exact .count place step
    · rename_i place
      obtain ⟨achieved, ⟨⟩⟩ := Option.ite_none_right_eq_some.mp h
      exact .test place achieved
    · rename_i place
      obtain ⟨t, step, rfl⟩ := Option.map_eq_some_iff.mp h
      exact .restart place step
    · rename_i counting testing restarting
      obtain ⟨t, step, rfl⟩ := Option.map_eq_some_iff.mp h
      exact .other step fun b eq => ⟨counting, testing, restarting⟩
  | submit | produce | graph | partition | cut =>
    obtain ⟨t, step, rfl⟩ := Option.map_eq_some_iff.mp h
    exact .other step fun b eq => (by cases eq)

/-- How many requests there can be since `operation_start_`, where the interval is `k`: a test that
finds `k` of them claims the round, and then there is none until the count starts again. -/
def Since (k since : Nat) (repartitioning : Bool) : FreeScheduler.Scheduling → Prop
  | .loadingRepartitioning | .testingInterval => repartitioning = false → since ≤ k
  | .raisingRepartition | .raisingRepartitioning | .restarting => True
  | _ => repartitioning = false → since < k

/-- What `AsyncScheduler` keeps. -/
structure Asynchronous (cfg : FreeScheduler.Config n) (start : Nat) (s : AsyncState n) : Prop where
  places : FreeScheduler.Places cfg s.threads
  scheduling : s.threads.scheduling ≠ .resetting
  graph : s.threads.graphThread ≠ .restarting
  dispatched : s.nDispatchedRequests = Int32.ofNat s.threads.nDispatchedRequests
  started : s.threads.operationStart = start
  word : s.operationStart = Int32.ofNat start
  le : start ≤ s.threads.nDispatchedRequests
  since : ∀ k pos, cfg.interval = .operations k pos →
    Since k (s.threads.nDispatchedRequests - start) s.threads.repartitioning s.threads.scheduling

variable {start : Nat}

/-- A claimed round is not tested for. -/
theorem since_claimed (k since : Nat) (a : FreeScheduler.Scheduling) : Since k since true a := by
  cases a <;> first | exact trivial | exact fun eq => (by cases eq)

/-- Where the interval is tested, the words tell how many requests there were. -/
theorem Asynchronous.test (h : Asynchronous cfg start s) (place : s.threads.scheduling = .testingInterval) {k : Nat}
    {pos : 0 < k} (interval : cfg.interval = .operations k pos) (int : k < 2 ^ 31) :
    asyncTest s.nDispatchedRequests s.operationStart (Int32.ofNat k) =
      decide ((k : Int) ≤ s.threads.nDispatchedRequests - s.threads.operationStart) := by
  have free := h.places.scheduling
  have since := h.since k pos interval
  rw [place] at free since
  have near := since free.2
  have le := h.le
  rw [h.dispatched, h.word, asyncTest_eq int le (by omega), h.started]
  congr 1
  rw [eq_iff_iff]
  omega

theorem Asynchronous.achieved (h : Asynchronous cfg start s) (place : s.threads.scheduling = .testingInterval)
    (fits : Fits cfg.interval) (choice : Bool) : asyncAchieved cfg.interval s.nDispatchedRequests s.operationStart choice =
      FreeScheduler.asyncAchieved cfg s.threads choice := by
  unfold asyncAchieved FreeScheduler.asyncAchieved
  cases interval : cfg.interval with
  | chosen => rfl
  | operations k pos => simp only [h.test place interval (fits k pos interval)]

/-- A step of the threads that is neither an increment nor a test nor a restart. -/
theorem Asynchronous.other (h : Asynchronous cfg start s) (async : cfg.variant = .async) {t : FreeScheduler.State n}
    (move : FreeScheduler.Move cfg s.threads l t) (away : ∀ b, l = .schedule b →
      s.threads.scheduling ≠ .counting ∧ s.threads.scheduling ≠ .testingInterval ∧ s.threads.scheduling ≠ .restarting) :
    Asynchronous cfg start { s with threads := t } := by
  have places := FreeScheduler.places_move h.places move
  obtain ⟨held, scheduling, graph, dispatched, started, word, le, since⟩ := h
  cases move with
  | submit | push | notify0 | notify1 | take | aim | free | cut | store | raiseUpdate =>
    exact ⟨places, scheduling, graph, dispatched, started, word, le, since⟩
  | item0 place | ahead0 place | pop0 place | release0 place | finish place | dispatch place | findFree place
  | noUpdate place | seeUpdate place | save place | swap place | restore place | sync place =>
    rw [place] at since
    exact ⟨places, fun eq => (by cases eq), graph, dispatched, started, word, le, since⟩
  | findBusy place busy =>
    exact ⟨places, fun eq => (by cases eq), graph, dispatched, started, word, le,
      fun k pos eq free => (by rw [busy] at free; cases free)⟩
  | ask => exact ⟨places, fun eq => (by cases eq), graph, dispatched, started, word, le, fun k pos eq => trivial⟩
  | raise =>
    exact ⟨places, fun eq => (by cases eq), graph, dispatched, started, word, le, fun k pos eq => since_claimed k _ _⟩
  | lowerUpdate place =>
    rw [place] at since
    have next : cfg.variant.updated = .loweringRepartitioning := by rw [async]; rfl
    exact ⟨places, fun eq => (by rw [next] at eq; cases eq), graph, dispatched, started, word, le,
      fun k pos eq => (by rw [next]; exact since k pos eq)⟩
  | settle place =>
    have next : cfg.variant.settled = .restarting := by rw [async]; rfl
    exact ⟨places, fun eq => (by rw [next] at eq; cases eq), graph, dispatched, started, word, le,
      fun k pos eq => (by rw [next]; trivial)⟩
  | count place | skip place | start place | restart place =>
    have := away _ rfl
    simp [place] at this
  | reset place => exact absurd place scheduling
  | tally | item1 | ahead1 | pop1 | release1 | imbalanced | noRequest | seeRequest | lowerRequest | copy | assign =>
    exact ⟨places, scheduling, fun eq => (by cases eq), dispatched, started, word, le, since⟩
  | observe | graphBusy | graphFree | graphSkip | graphStart | empty | sized | post =>
    exact ⟨places, scheduling, fun eq => (by rw [async] at eq; cases eq), dispatched, started, word, le, since⟩
  | balanced place =>
    have other := held.graph
    rw [place] at other
    exact absurd async other.1
  | graphRaise =>
    exact ⟨places, scheduling, fun eq => (by rw [async] at eq; cases eq), dispatched, started, word, le,
      fun k pos eq => since_claimed k _ _⟩
  | graphRestart place => exact absurd place graph

/-- **Each step is the threads' own, and keeps this.** -/
theorem asynchronous_move (h : Asynchronous cfg start s) (async : cfg.variant = .async) (fits : Fits cfg.interval)
    (move : AsyncMove cfg s l s') :
    FreeScheduler.step cfg s.threads l = some s'.threads ∧ ∃ start, Asynchronous cfg start s' := by
  cases move with
  | other step away => exact ⟨step, start, h.other async (FreeScheduler.step_move step) away⟩
  | count place step =>
    refine ⟨step, start, ?_⟩
    have places := FreeScheduler.places_move h.places (FreeScheduler.step_move step)
    have since := h.since
    have next : cfg.variant.counted = .loadingRepartitioning := by rw [async]; rfl
    rw [place] at since
    simp only [FreeScheduler.step, FreeScheduler.schedule, place, next] at step
    cases step
    refine ⟨places, fun eq => (by cases eq), h.graph, ?_, h.started, h.word, h.le.trans (Nat.le_succ _),
      fun k pos eq free => ?_⟩
    · rw [h.dispatched, ofNat_succ]
    · have := since k pos eq free
      show _ + 1 - _ ≤ _
      omega
  | @test choice place achieved =>
    have own := achieved
    rw [h.achieved place fits choice] at own
    have step : FreeScheduler.step cfg s.threads (.schedule choice) = some { s.threads with
        scheduling := if choice then .raisingRepartition else .waitingItem } := by
      simp only [FreeScheduler.step, FreeScheduler.schedule, place, if_pos own]
    refine ⟨step, start, ?_⟩
    have places := FreeScheduler.places_move h.places (FreeScheduler.step_move step)
    have started := h.started
    refine ⟨places, ?_, h.graph, h.dispatched, h.started, h.word, h.le, fun k pos eq => ?_⟩
    · cases choice <;> exact fun eq => (by cases eq)
    · cases choice with
      | true => trivial
      | false =>
        intro free
        -- the test has found fewer than `k`
        simp only [FreeScheduler.asyncAchieved, eq, started, decide_eq_true_eq] at own
        rw [Eq.comm, decide_eq_false_iff_not] at own
        show s.threads.nDispatchedRequests - start < k
        omega
  | restart place step =>
    refine ⟨step, s.threads.nDispatchedRequests, ?_⟩
    have places := FreeScheduler.places_move h.places (FreeScheduler.step_move step)
    simp only [FreeScheduler.step, FreeScheduler.schedule, place] at step
    cases step
    refine ⟨places, fun eq => (by cases eq), h.graph, h.dispatched, rfl, h.dispatched, le_refl _,
      fun k pos eq free => ?_⟩
    show s.threads.nDispatchedRequests - s.threads.nDispatchedRequests < k
    omega

/-- **`AsyncScheduler` runs as if its counters had no bound.** -/
theorem async_simulation (async : cfg.variant = .async) (fits : Fits cfg.interval) :
    System.Simulation (asyncSystem cfg) (FreeScheduler.system cfg) (fun _ _ => True)
      fun s t => t = s.threads ∧ ∃ start, Asynchronous cfg start s where
  init := by
    refine ⟨rfl, 0, ⟨trivial, FreeScheduler.tested_head⟩, fun eq => (by cases eq), ?_, rfl, rfl, rfl, le_refl _,
      fun k pos eq free => pos⟩
    show cfg.variant.head ≠ _
    rw [async]
    exact fun eq => (by cases eq)
  step := by
    rintro s l s' t - ⟨rfl, start, held⟩ - step
    obtain ⟨own, held'⟩ := asynchronous_move held async fits (asyncStep_move step)
    exact Or.inr ⟨l, s'.threads, own, rfl, held'⟩

theorem async_related (async : cfg.variant = .async) (fits : Fits cfg.interval)
    (reachable : (asyncSystem cfg).Reachable s) :
    (FreeScheduler.system cfg).Reachable s.threads ∧ ∃ start, Asynchronous cfg start s := by
  obtain ⟨t, related, rfl, held⟩ := (async_simulation async fits).exists_related reachable
  exact ⟨related, held⟩

end Async

/-! ### The decisions -/

/-- The decisions of the stop-the-world schedulers are those of the counts, so their run is one without
bounds: the graph thread answers where it has caught up, and is not blocked while the other thread waits. -/
structure Right (cfg : Config n) (s : State n) : Prop where
  note : noteTest s.nProcessedRequests s.nDispatchedRequests =
    decide (s.threads.nDispatchedRequests ≤ s.threads.nProcessedRequests + 1)
  interval : ∀ k pos, cfg.interval = .operations k pos →
    intervalTest s.nDispatchedRequests (Int32.ofNat k) = decide (s.threads.nDispatchedRequests % k = 0)
  run : (StopTheWorld.system cfg).Reachable s.threads
  answers : s.threads.graphThread = .comparing → s.threads.nDispatchedRequests ≤ s.threads.nProcessedRequests + 1 →
    ∃ s', step cfg s .graph = some s' ∧ s'.threads.graphThread = .answering
  noDeadlock : s.threads.producer = .idle → StopTheWorld.AtBarrier s.threads → ¬StopTheWorld.GraphBlocked s.threads

/-- The decisions of `AsyncScheduler` are those of the counts. -/
structure AsyncRight (cfg : FreeScheduler.Config n) (s : AsyncState n) : Prop where
  interval : s.threads.scheduling = .testingInterval → ∀ k pos, cfg.interval = .operations k pos →
    asyncTest s.nDispatchedRequests s.operationStart (Int32.ofNat k) =
      decide ((k : Int) ≤ s.threads.nDispatchedRequests - s.threads.operationStart)
  run : (FreeScheduler.system cfg).Reachable s.threads

/-- **The decisions are right** in every run with fewer than `2 ^ 31` requests: the answer to the note and the test of
the interval, made on an `int` and a `size_t`, are those of the counts. In `AsyncScheduler` they are right in every
run, since its test only ever finds up to `operation_interval_` requests between two `int`s that wrap together. -/
theorem decisions_right (n : Nat) :
    (∀ (cfg : Config n) s, Fits cfg.interval → (system cfg).Via Small s → Right cfg s) ∧
      ∀ (cfg : FreeScheduler.Config n) s, cfg.variant = .async → Fits cfg.interval →
        (asyncSystem cfg).Reachable s → AsyncRight cfg s := by
  constructor
  · intro cfg s fits via
    obtain ⟨reachable, within⟩ := small_related fits via
    have joint := StopTheWorld.reachable_joint reachable
    refine ⟨within.note, fun k pos eq => ?_, reachable, fun place enough => ?_, joint.noDeadlock⟩
    · rw [within.dispatched, intervalTest_eq (fits k pos eq) within.int]
    · have test := within.note
      rw [decide_eq_true enough] at test
      have taken : step cfg s .graph = some { s with threads := { s.threads with
          graphThread := .answering, caughtUp := StopTheWorld.upToDate s.threads } } := by
        simp only [step, graph, place, if_pos test]
      exact ⟨_, taken, rfl⟩
  · intro cfg s async fits reachable
    obtain ⟨own, start, held⟩ := async_related async fits reachable
    exact ⟨fun place k pos eq => held.test place eq (fits k pos eq), own⟩

/-- A repartition after every request. -/
def eachConfig : FreeScheduler.Config 2 := { StopTheWorld.laggingConfig with variant := .async }

/-- A request is dispatched, up to the test of the interval. -/
def eachRun : List FreeScheduler.Label :=
  .submit { type := .WRITE } :: List.replicate 3 .produce ++ List.replicate 7 (.schedule false)

theorem decisions_right_each :
    (∃ s, (system StopTheWorld.laggingConfig).Via Small s ∧ s.threads.nDispatchedRequests = 1 ∧
      Right StopTheWorld.laggingConfig s) ∧
      ∃ s, (asyncSystem eachConfig).Reachable s ∧ s.threads.scheduling = .testingInterval ∧ AsyncRight eachConfig s := by
  have fits : Fits (StopTheWorld.laggingConfig).interval := fun k pos eq => by cases eq; decide
  obtain ⟨s, via, counted⟩ := System.exists_via (M := system StopTheWorld.laggingConfig) Small
    (P := fun s => s.threads.nDispatchedRequests = 1) StopTheWorld.laggingRun (by decide)
  obtain ⟨t, reachable, testing⟩ := System.exists_reachable (M := asyncSystem eachConfig)
    (P := fun t => t.threads.scheduling = .testingInterval) eachRun (by decide)
  exact ⟨⟨s, via, counted, (decisions_right 2).1 _ s fits via⟩,
    ⟨t, reachable, testing, (decisions_right 2).2 _ t rfl fits reachable⟩⟩

/-! ### A run to the first negative count -/

/-- One partition, one key, head distances of one and repartitions at chosen points. -/
def longConfig : Config 1 where
  positive := Nat.one_pos
  TL := 0
  queueHeadDistance := 2
  interval := .chosen
  populated := [0]

/-- A WRITE is pushed and dispatched; `start` says whether a repartition is started. -/
def dispatchOne (start : Bool) : List StopTheWorld.Label :=
  .submit { type := .WRITE } :: List.replicate 3 .produce ++ List.replicate 6 (.schedule start)

/-- The graph thread processes one message. -/
def processOne : List StopTheWorld.Label := List.replicate 7 .graph

/-- Both heads of the queue have taken all messages, `count` of them. -/
structure Rest (count : Nat) (s : State 1) : Prop where
  producer : s.threads.producer = .idle
  scheduling : s.threads.scheduling = .waitingItem
  graphThread : s.threads.graphThread = .waitingItem
  note : s.threads.note = false
  semaphores : s.threads.queue.semaphores = fun _ => 0
  aheadSems : s.threads.queue.aheadSems = fun _ => 1
  queues : s.threads.queue.queues = fun _ => []
  dispatched : s.threads.nDispatchedRequests = count
  processed : s.threads.nProcessedRequests = count

theorem rest_next {count : Nat} {s : State 1} (h : Rest count s) :
    ∃ s', (system longConfig).exec s (dispatchOne false ++ processOne) = some s' ∧ Rest (count + 1) s' := by
  obtain ⟨⟨⟨sems, aheads, queues⟩, producer, scheduling, graphThread, note, _, dispatched, processed⟩, int, size⟩ := s
  obtain ⟨rfl, rfl, rfl, rfl, rfl, rfl, rfl, rfl, same⟩ := h
  refine ⟨_, rfl, rfl, rfl, rfl, rfl, funext fun head => ?_, funext fun head => ?_, funext fun head => ?_, rfl,
    congrArg (· + 1) same⟩
  all_goals
    match head with
    | 0 => rfl
    | 1 => rfl

theorem rest_raises {count : Nat} {s : State 1} (h : Rest count s) : ∃ s', (system longConfig).exec s (dispatchOne true) =
    some s' ∧ s'.threads.scheduling = .raising ∧ s'.threads.nDispatchedRequests = count + 1 ∧
      s'.threads.nProcessedRequests = count := by
  obtain ⟨⟨⟨sems, aheads, queues⟩, producer, scheduling, graphThread, note, _, dispatched, processed⟩, int, size⟩ := s
  obtain ⟨rfl, rfl, rfl, rfl, rfl, rfl, rfl, rfl, same⟩ := h
  exact ⟨_, rfl, rfl, rfl, same⟩

theorem rest_reachable (count : Nat) : ∃ s, (system longConfig).Reachable s ∧ Rest count s := by
  induction count with
  | zero =>
    refine ⟨init longConfig, .init, rfl, rfl, rfl, rfl, rfl, funext fun head => ?_, rfl, rfl, rfl⟩
    match head with
    | 0 => rfl
    | 1 => rfl
  | succ count ih =>
    obtain ⟨s, reachable, rest⟩ := ih
    obtain ⟨s', run, rest'⟩ := rest_next rest
    exact ⟨s', reachable.exec run, rest'⟩

/-- A repartition can be started after any number of requests. -/
theorem raising_reachable (count : Nat) : ∃ s, (system longConfig).Reachable s ∧ s.threads.scheduling = .raising ∧
    s.threads.nDispatchedRequests = count + 1 ∧ s.threads.nProcessedRequests = count := by
  obtain ⟨s, reachable, rest⟩ := rest_reachable count
  obtain ⟨s', run, raising, counts⟩ := rest_raises rest
  exact ⟨s', reachable.exec run, raising, counts⟩

/-- After `2 ^ 31` requests the graph thread has caught up and the test fails: the note that is raised
then is not answered, however the run goes on, until `2 ^ 63` messages have been processed. -/
theorem note_unanswered : ∃ s, (system longConfig).Reachable s ∧ s.threads.nDispatchedRequests = 2 ^ 31 ∧
    s.threads.nDispatchedRequests ≤ s.threads.nProcessedRequests + 1 ∧
    noteTest s.nProcessedRequests s.nDispatchedRequests = false ∧ s.threads.scheduling = .raising ∧
    ∀ s', Later longConfig s s' → s'.threads.answered = s.threads.answered ∧
      (s'.threads.scheduling = .raising ∨ s'.threads.scheduling.round s'.threads.barrier.generation = 1) := by
  obtain ⟨s, reachable, raising, dispatched, processed⟩ := raising_reachable (2 ^ 31 - 1)
  obtain ⟨counted, phases⟩ := reachable_counted reachable
  have left : Left s := { counted, waits_raising phases raising with
    low := by omega
    high := by omega }
  refine ⟨s, reachable, by omega, by omega, ?_, raising, fun s' later => ?_⟩
  · rw [counted.dispatched, counted.processed]
    exact noteTest_wrapped left.low left.high (by omega)
  · obtain ⟨left', same⟩ := left_later left later
    exact ⟨same, left'.scheduling⟩

end CounterWidths

end KvPaxos
