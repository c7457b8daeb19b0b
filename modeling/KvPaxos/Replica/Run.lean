import KvPaxos.Lib.Tally
import Mathlib.Data.BitVec
import KvPaxos.Scheduler.Counters
import KvPaxos.Scheduler.Drain

/-!
# The replica's `run`

`run` of the replica around a `Process`: `workload_loop` submits the messages of the file and then an END,
`metrics_loop` adds up the workers' counters until they come to the number of messages, and the main thread
joins the scheduling thread, these two and writes the error count. The workers are never joined. Reading
a counter is a step of its own, so no sum is a snapshot. Times and the sleep between two rounds are left
out, and so is `schedule_sem`, which nobody waits for.

`printed` and `stirred` are ghosts: the executed counts `metrics_loop` prints, and whether a thread of the
process or `workload_loop` has made a statement since `metrics_loop` last began to add up.
-/

namespace KvPaxos

open Lib

variable {σ ℓ : Type} {n : Nat}

/-- How `workload_loop` and the main thread deal with the threads of a scheduler. -/
structure Client (F : Frontend σ ℓ n) where
  submit : ClientMessage → ℓ
  /-- A `submit` is under way. -/
  submitting : σ → Bool
  /-- `scheduling_loop` has returned. -/
  returned : σ → Bool
  submits_submit : ∀ m, F.submits (submit m) = some m

namespace Run

/-- The process, how `workload_loop` and the main thread deal with its scheduler, and the messages of the file; the
END behind them is uninitialised but for its type. -/
structure Config (σ ℓ : Type) (n : Nat) where
  process : Process.Config σ ℓ n
  client : Client process.frontend
  messages : List ClientMessage
  endMessage : ClientMessage
  endType : endMessage.type = .END

/-- Where `metrics_loop` is. -/
inductive Metrics (n : Nat) where
  /-- `executed_requests < n_requests`. -/
  | testing (executedRequests : Nat)
  /-- `sleep_for`. -/
  | sleeping
  /-- `n_executed_requests()`. -/
  | counting (tally : Tally (Fin n) Nat)
  | ended

/-- Where the main thread is in `run`. -/
inductive Main (n : Nat) where
  | joiningScheduler
  | joiningWorkload
  | joiningMetrics
  /-- `error_count()`, an `int`. -/
  | counting (tally : Tally (Fin n) (BitVec 32))
  | reported (errorCount : BitVec 32)

/-- The process and where the three threads of `run` are. -/
structure State (σ : Type) (n : Nat) where
  process : Process.State σ n
  /-- What `workload_loop` has still to submit. -/
  left : List ClientMessage
  metrics : Metrics n := .testing 0
  main : Main n := .joiningScheduler
  printed : List Nat := []
  stirred : Bool := true

/-- A statement of the process, or of one of the three other threads; `order` is the order in which the
partitions are iterated over. -/
inductive Label (ℓ : Type) (n : Nat) where
  | process (l : Process.Label ℓ n)
  | workload
  | metrics (order : List (Fin n))
  | main (order : List (Fin n))

def executed (s : State σ n) (p : Fin n) : Nat := (s.process.pool.partitions p).nExecutedRequests

def errors (s : State σ n) (p : Fin n) : BitVec 32 := ((s.process.pool.partitions p).errorCount : BitVec 32)

/-- `order` lists all partitions. -/
abbrev Lists (order : List (Fin n)) : Prop := order.Nodup ∧ order.toFinset = Finset.univ

def init (cfg : Config σ ℓ n) : State σ n where
  process := Process.init cfg.process
  left := cfg.messages ++ [cfg.endMessage]

/-- `workload_loop`: one message of the file after the other, when the `submit` before has returned, and the END
behind them. What it does between two messages under a request rate is left to the interleaving. -/
def workload (cfg : Config σ ℓ n) (s : State σ n) : Option (State σ n) :=
  match s.left with
  | [] => none
  | message :: rest =>
    if cfg.client.submitting s.process.front then none
    else (Process.step cfg.process s.process (.front (cfg.client.submit message) [])).map fun process =>
      { s with process := process, left := rest, stirred := true }

/-- `metrics_loop`: it sleeps, adds up `n_executed_requests()` a partition at a time, prints the sum and goes on until
it has come to the number of messages. What it prints of the queues and the graph under `ENABLE_INFO` is left out. -/
def metrics (cfg : Config σ ℓ n) (s : State σ n) (order : List (Fin n)) : Option (State σ n) :=
  match s.metrics with
  | .testing executedRequests =>
    some { s with metrics := if executedRequests < cfg.messages.length then .sleeping else .ended }
  | .sleeping => if Lists order then some { s with metrics := .counting (.start order), stirred := false } else none
  | .counting tally =>
    match tally.next (executed s) with
    | some tally => some { s with metrics := .counting tally }
    | none => some { s with metrics := .testing tally.sum, printed := s.printed ++ [tally.sum] }
  | .ended => none

/-- The main thread of `run` from its joins on: the scheduling thread, `workload_loop`, `metrics_loop`, and then
`error_count()`, which adds the partitions' `size_t` counters up in an `int`. -/
def main (cfg : Config σ ℓ n) (s : State σ n) (order : List (Fin n)) : Option (State σ n) :=
  match s.main, s.metrics with
  | .joiningScheduler, _ =>
    if cfg.client.returned s.process.front then some { s with main := .joiningWorkload } else none
  | .joiningWorkload, _ =>
    if s.left = [] ∧ cfg.client.submitting s.process.front = false then some { s with main := .joiningMetrics } else none
  | .joiningMetrics, .ended => if Lists order then some { s with main := .counting (.start order) } else none
  | .joiningMetrics, _ => none
  | .counting tally, _ =>
    match tally.next (errors s) with
    | some tally => some { s with main := .counting tally }
    | none => some { s with main := .reported tally.sum }
  | .reported _, _ => none

/-- A label of the process that is no submit. -/
def Inner (cfg : Config σ ℓ n) : Process.Label ℓ n → Bool
  | .front l _ => (cfg.process.frontend.submits l).isNone
  | .push | .work _ _ => true

/-- One statement of the process, or of one of the three threads of `run`. A message is submitted by `workload_loop`
only. -/
def step (cfg : Config σ ℓ n) (s : State σ n) : Label ℓ n → Option (State σ n)
  | .process l =>
    if Inner cfg l then
      (Process.step cfg.process s.process l).map fun process => { s with process := process, stirred := true }
    else none
  | .workload => workload cfg s
  | .metrics order => metrics cfg s order
  | .main order => main cfg s order

def system (cfg : Config σ ℓ n) : System (State σ n) (Label ℓ n) := ⟨init cfg, step cfg⟩

/-! ### What a step can do -/

variable {cfg : Config σ ℓ n} {s s' : State σ n}

inductive Move (cfg : Config σ ℓ n) (s : State σ n) : Label ℓ n → State σ n → Prop
  | process {l : Process.Label ℓ n} {process : Process.State σ n} (inner : Process.Unsubmitting cfg.process s.process l)
      (step : Process.step cfg.process s.process l = some process) :
      Move cfg s (.process l) { s with process := process, stirred := true }
  | submit {message : ClientMessage} {rest : List ClientMessage} {process : Process.State σ n}
      (left : s.left = message :: rest) (idle : cfg.client.submitting s.process.front = false)
      (step : Process.step cfg.process s.process (.front (cfg.client.submit message) []) = some process) :
      Move cfg s .workload { s with process := process, left := rest, stirred := true }
  | again {order : List (Fin n)} {executedRequests : Nat} (place : s.metrics = .testing executedRequests)
      (less : executedRequests < cfg.messages.length) : Move cfg s (.metrics order) { s with metrics := .sleeping }
  | finish {order : List (Fin n)} {executedRequests : Nat} (place : s.metrics = .testing executedRequests)
      (enough : cfg.messages.length ≤ executedRequests) : Move cfg s (.metrics order) { s with metrics := .ended }
  | wake {order : List (Fin n)} (place : s.metrics = .sleeping) (lists : Lists order) :
      Move cfg s (.metrics order) { s with metrics := .counting (.start order), stirred := false }
  | add {order : List (Fin n)} {tally tally' : Tally (Fin n) Nat} (place : s.metrics = .counting tally)
      (next : tally.next (executed s) = some tally') : Move cfg s (.metrics order) { s with metrics := .counting tally' }
  | print {order : List (Fin n)} {tally : Tally (Fin n) Nat} (place : s.metrics = .counting tally)
      (last : tally.next (executed s) = none) :
      Move cfg s (.metrics order) { s with metrics := .testing tally.sum, printed := s.printed ++ [tally.sum] }
  | joinScheduler {order : List (Fin n)} (place : s.main = .joiningScheduler)
      (returned : cfg.client.returned s.process.front = true) : Move cfg s (.main order) { s with main := .joiningWorkload }
  | joinWorkload {order : List (Fin n)} (place : s.main = .joiningWorkload) (left : s.left = [])
      (idle : cfg.client.submitting s.process.front = false) : Move cfg s (.main order) { s with main := .joiningMetrics }
  | joinMetrics {order : List (Fin n)} (place : s.main = .joiningMetrics) (metrics : s.metrics = .ended)
      (lists : Lists order) : Move cfg s (.main order) { s with main := .counting (.start order) }
  | sum {order : List (Fin n)} {tally tally' : Tally (Fin n) (BitVec 32)} (place : s.main = .counting tally)
      (next : tally.next (errors s) = some tally') : Move cfg s (.main order) { s with main := .counting tally' }
  | report {order : List (Fin n)} {tally : Tally (Fin n) (BitVec 32)} (place : s.main = .counting tally)
      (last : tally.next (errors s) = none) : Move cfg s (.main order) { s with main := .reported tally.sum }

theorem unsubmitting_of_inner {l : Process.Label ℓ n} {t : Process.State σ n} (inner : Inner cfg l = true) :
    Process.Unsubmitting cfg.process t l := by
  cases l with
  | front l order => exact Option.isNone_iff_eq_none.mp inner
  | push | work => exact True.intro

theorem inner_of_unsubmitting {l : Process.Label ℓ n} {t : Process.State σ n} (quiet : Process.Unsubmitting cfg.process t l) :
    Inner cfg l = true := by
  cases l with
  | front l order => exact Option.isNone_iff_eq_none.mpr quiet
  | push | work => rfl

theorem metrics_move {order : List (Fin n)} (h : metrics cfg s order = some s') : Move cfg s (.metrics order) s' := by
  unfold metrics at h
  split at h
  · rename_i place
    cases h
    split
    · exact .again place ‹_›
    · exact .finish place (Nat.le_of_not_lt ‹_›)
  · rename_i place
    obtain ⟨lists, ⟨⟩⟩ := Option.ite_none_right_eq_some.mp h
    exact .wake place lists
  · rename_i place
    split at h
    · cases h
      exact .add place ‹_›
    · cases h
      exact .print place ‹_›
  · cases h

theorem main_move {order : List (Fin n)} (h : main cfg s order = some s') : Move cfg s (.main order) s' := by
  unfold main at h
  split at h
  · obtain ⟨returned, ⟨⟩⟩ := Option.ite_none_right_eq_some.mp h
    exact .joinScheduler ‹_› returned
  · obtain ⟨⟨left, idle⟩, ⟨⟩⟩ := Option.ite_none_right_eq_some.mp h
    exact .joinWorkload ‹_› left idle
  · obtain ⟨lists, ⟨⟩⟩ := Option.ite_none_right_eq_some.mp h
    exact .joinMetrics ‹_› ‹_› lists
  · cases h
  · split at h
    · cases h
      exact .sum ‹_› ‹_›
    · cases h
      exact .report ‹_› ‹_›
  · cases h

theorem step_move {l : Label ℓ n} (h : step cfg s l = some s') : Move cfg s l s' := by
  cases l with
  | process l =>
    obtain ⟨inner, h⟩ := Option.ite_none_right_eq_some.mp h
    obtain ⟨process, step, rfl⟩ := Option.map_eq_some_iff.mp h
    exact .process (unsubmitting_of_inner inner) step
  | workload =>
    simp only [step, workload] at h
    split at h
    · cases h
    · obtain ⟨idle, h⟩ := Option.ite_none_left_eq_some.mp h
      obtain ⟨process, step, rfl⟩ := Option.map_eq_some_iff.mp h
      exact .submit ‹_› (Bool.eq_false_iff.mpr idle) step
  | metrics order => exact metrics_move h
  | main order => exact main_move h

/-! ### The process under it -/

theorem submitted_front {t t' : Process.State σ n} {l : ℓ} {order : List (Fin n)}
    (h : Process.Move cfg.process t (.front l order) t') :
    t'.submitted = t.submitted ++ (cfg.process.frontend.submits l).toList := by
  cases h <;> rfl

/-- No statement of the process lowers a counter. -/
theorem raised_move {t t' : Process.State σ n} {l : Process.Label ℓ n} (h : Process.Move cfg.process t l t') :
    Pool.Raised t.pool t'.pool := by
  cases h with
  | aside | quiet | stop => exact .of_same rfl
  | dispatch step call live dispatched =>
    cases Pool.dispatch_cases dispatched with
    | mk => exact .of_same rfl
  | syncAll step call live synced =>
    cases Pool.repartition_cases synced with
    | mk => exact .of_same rfl
  | push step => exact (Pool.push_cases step).raised
  | work step => exact (Pool.work_cases step).raised

/-- The workers as they are given the messages of the file. -/
abbrev Config.given (cfg : Config σ ℓ n) : KvPaxos.Config n := cfg.process.pool cfg.messages

/-- What has been submitted and is left to submit are the messages of the file and the END. -/
structure Submitted (cfg : Config σ ℓ n) (s : State σ n) : Prop where
  linked : Process.Linked cfg.process s.process
  via : (Process.system cfg.process).Via (Process.FromClients cfg.process) s.process
  file : s.process.submitted ++ s.left = cfg.messages ++ [cfg.endMessage]

theorem init_submitted (cfg : Config σ ℓ n) : Submitted cfg (init cfg) :=
  ⟨Process.linked_init cfg.process, System.Via.init, rfl⟩

/-- What has been submitted and what `workload_loop` has left make up the file, and nothing but `workload_loop`
changes either. -/
theorem submitted_move {l : Label ℓ n} (requests : ∀ m ∈ cfg.messages, m.IsRequest) (h : Submitted cfg s)
    (move : Move cfg s l s') : Submitted cfg s' := by
  cases move with
  | process inner step =>
    have via := h.via.step inner.fromClients step
    refine ⟨Process.via_linked via, via, ?_⟩
    rw [inner.submitted (Process.step_move step)]
    exact h.file
  | @submit message rest process left idle step =>
    have file := h.file
    rw [left] at file
    have mem : message ∈ cfg.messages ++ [cfg.endMessage] := by
      rw [← file]
      exact List.mem_append_right _ List.mem_cons_self
    have client : message.IsClient := by
      rcases List.mem_append.mp mem with old | new
      · exact Or.inl (requests message old)
      · rw [List.mem_singleton.mp new]
        exact Or.inr cfg.endType
    have fromClients : Process.FromClients cfg.process s.process (.front (cfg.client.submit message) []) := by
      intro m submitted
      rw [cfg.client.submits_submit] at submitted
      cases submitted
      exact client
    have via := h.via.step fromClients step
    refine ⟨Process.via_linked via, via, ?_⟩
    rw [submitted_front (Process.step_move step), cfg.client.submits_submit, ← file]
    exact List.append_assoc _ [message] rest
  | again | finish | wake | add | print | joinScheduler | joinWorkload | joinMetrics | sum | report =>
    exact ⟨h.linked, h.via, h.file⟩

theorem reachable_submitted (requests : ∀ m ∈ cfg.messages, m.IsRequest) (reach : (system cfg).Reachable s) :
    Submitted cfg s :=
  reach.invariant (init_submitted cfg) fun _ _ _ held step => submitted_move requests held (step_move step)

theorem requests_file (requests : ∀ m ∈ cfg.messages, m.IsRequest) :
    Process.requests (cfg.messages ++ [cfg.endMessage]) = cfg.messages := by
  have keep : Process.requests cfg.messages = cfg.messages := by
    refine List.filter_eq_self.mpr fun m mem => decide_eq_true fun type => ?_
    rcases (requests m mem).type with h | h | h <;> rw [h] at type <;> cases type
  rw [Process.requests_append, keep]
  simp [Process.requests, cfg.endType]

/-- The workers make a run on the messages of the file. -/
theorem Submitted.reachable (h : Submitted cfg s) (requests : ∀ m ∈ cfg.messages, m.IsRequest) :
    (Pool.system cfg.given).Reachable s.process.pool := by
  have taken := h.linked.pool (Process.requests (cfg.process.frontend.backlog s.process.front ++ s.left))
  rwa [← Process.requests_append, ← List.append_assoc, ← h.linked.inOrder, h.file, requests_file requests] at taken

/-- **A statement of the process raises counters only**, and no other statement touches them. -/
theorem Move.raised {l : Label ℓ n} (move : Move cfg s l s') : Pool.Raised s.process.pool s'.process.pool := by
  cases move with
  | process inner step => exact raised_move (Process.step_move step)
  | submit left idle step => exact raised_move (Process.step_move step)
  | again | finish | wake | add | print | joinScheduler | joinWorkload | joinMetrics | sum | report => exact .of_same rfl

/-! ### What `metrics_loop` prints -/

/-- What the sum under way comes to. -/
def Metrics.reading (executed : Fin n → Nat) : Metrics n → Nat
  | .counting tally => tally.worth executed
  | .testing _ | .sleeping | .ended => ∑ p, executed p

/-- The count printed last. -/
def lastPrinted (printed : List Nat) : Nat := printed.getLast?.getD 0

theorem lastPrinted_snoc (printed : List Nat) (x : Nat) : lastPrinted (printed ++ [x]) = x := by
  simp [lastPrinted]

theorem lastPrinted_le {printed : List Nat} {b : Nat} (h : ∀ x ∈ printed, x ≤ b) : lastPrinted printed ≤ b := by
  unfold lastPrinted
  cases last : printed.getLast? with
  | none => exact Nat.zero_le b
  | some x => exact h x (List.mem_of_getLast? last)

/-- The printed counts never fall, and none is more than has been executed. -/
structure Measured (cfg : Config σ ℓ n) (s : State σ n) : Prop where
  nodup : ∀ tally, s.metrics = .counting tally → tally.left.Nodup
  reading : s.metrics.reading (executed s) ≤ ∑ p, executed s p
  printed : ∀ x ∈ s.printed, x ≤ s.metrics.reading (executed s)
  sorted : s.printed.Pairwise (· ≤ ·)
  tested : ∀ x, s.metrics = .testing x → x = lastPrinted s.printed
  enough : s.metrics = .ended → cfg.messages.length ≤ lastPrinted s.printed

theorem init_measured (cfg : Config σ ℓ n) : Measured cfg (init cfg) where
  nodup := nofun
  reading := Nat.le_refl _
  printed := nofun
  sorted := List.Pairwise.nil
  tested x h := by
    cases h
    rfl
  enough := nofun

/-- The counters are raised, and `metrics_loop` stays where it is. -/
theorem Measured.raised (h : Measured cfg s) (raised : Pool.Raised s.process.pool s'.process.pool)
    (metrics : s'.metrics = s.metrics) (printed : s'.printed = s.printed) : Measured cfg s' := by
  have grows : ∀ p, executed s p ≤ executed s' p := fun p => (raised p).1
  have total : ∑ p, executed s p ≤ ∑ p, executed s' p := Finset.sum_le_sum fun p _ => grows p
  have later : s.metrics.reading (executed s) ≤ s.metrics.reading (executed s') := by
    cases place : s.metrics with
    | counting tally => exact Tally.worth_mono grows
    | testing | sleeping | ended => exact total
  refine ⟨metrics ▸ h.nodup, ?_, fun x mem => ?_, printed ▸ h.sorted, metrics ▸ printed ▸ h.tested, metrics ▸ printed ▸ h.enough⟩
  · have reading := h.reading
    rw [metrics]
    cases place : s.metrics with
    | counting tally =>
      rw [place] at reading
      exact Tally.worth_le (h.nodup tally place) grows reading
    | testing | sleeping | ended => exact Nat.le_refl _
  · rw [metrics]
    exact (h.printed x (printed ▸ mem)).trans later

/-- The counters only rise, so what a loop has added up so far stays below their sum, and what it printed before stays
below what it will print. -/
theorem measured_move {l : Label ℓ n} (h : Measured cfg s) (move : Move cfg s l s') : Measured cfg s' := by
  have raised := move.raised
  have reading := h.reading
  have printed := h.printed
  cases move with
  | process | submit | joinScheduler | joinWorkload | joinMetrics | sum | report => exact h.raised raised rfl rfl
  | again place less =>
    rw [place] at printed
    exact ⟨nofun, Nat.le_refl _, printed, h.sorted, nofun, nofun⟩
  | finish place enough =>
    rw [place] at printed
    exact ⟨nofun, Nat.le_refl _, printed, h.sorted, nofun, fun _ => h.tested _ place ▸ enough⟩
  | wake place lists =>
    rw [place] at printed
    have all : (Tally.start _).worth (executed s) = ∑ p, executed s p := Tally.worth_start lists.1 lists.2
    refine ⟨?_, all.le, fun x mem => (printed x mem).trans all.ge, h.sorted, nofun, nofun⟩
    rintro _ ⟨⟩
    exact lists.1
  | @add order tally tally' place next =>
    rw [place] at reading printed
    have same : tally'.worth (executed s) = tally.worth (executed s) := Tally.worth_next next
    refine ⟨?_, same.le.trans reading, fun x mem => (printed x mem).trans same.ge, h.sorted, nofun, nofun⟩
    rintro _ ⟨⟩
    exact Tally.nodup_next (h.nodup tally place) next
  | @print order tally place last =>
    rw [place] at reading printed
    have same : tally.worth (executed s) = tally.sum := Tally.worth_end last
    have sum : tally.sum ≤ ∑ p, executed s p := same.ge.trans reading
    refine ⟨nofun, Nat.le_refl _, ?_, ?_, ?_, nofun⟩
    · intro x mem
      rcases List.mem_append.mp mem with old | new
      · exact (printed x old).trans reading
      · exact List.mem_singleton.mp new ▸ sum
    · refine List.pairwise_append.mpr ⟨h.sorted, List.pairwise_singleton _ _, fun x old y new => ?_⟩
      rw [List.mem_singleton.mp new, ← same]
      exact printed x old
    · rintro x ⟨⟩
      exact (lastPrinted_snoc _ _).symm

theorem reachable_measured (reach : (system cfg).Reachable s) : Measured cfg s :=
  reach.invariant (init_measured cfg) fun _ _ _ held step => measured_move held (step_move step)

/-- **When `metrics_loop` ends, every message has been executed**, whenever it has read which counter. -/
theorem Measured.counted (h : Measured cfg s) (submitted : Submitted cfg s) (requests : ∀ m ∈ cfg.messages, m.IsRequest)
    (ended : s.metrics = .ended) : Pool.Counted cfg.given s.process.pool := by
  have sound := Pool.reachable_sound requests (submitted.reachable requests)
  refine .of_le sound ((h.enough ended).trans (lastPrinted_le fun x mem => ?_))
  exact (h.printed x mem).trans h.reading

/-! ### The error count -/

/-- The outcome of executing the messages of the file one by one. -/
def Config.outcome (cfg : Config σ ℓ n) : Option Sequential.Outcome :=
  Sequential.execute cfg.process.compresser (Storage.populated cfg.process.compresser cfg.process.populated) cfg.messages

theorem outcome_of_counted (requests : ∀ m ∈ cfg.messages, m.IsRequest) (settled : Pool.Settled cfg.given)
    (submitted : Submitted cfg s) (counted : Pool.Counted cfg.given s.process.pool) :
    ∃ outcome, cfg.outcome = some outcome ∧ Pool.ComesTo s.process.pool outcome := by
  have uniform := (Storage.populated_spec (z := cfg.process.compresser) cfg.process.populated).1
  have reach := submitted.reachable requests
  exact counted.comesTo requests uniform (Pool.settled_via settled requests uniform reach)

/-- Once everything is executed no error is counted any more. -/
theorem errors_kept {l : Label ℓ n} (requests : ∀ m ∈ cfg.messages, m.IsRequest) (settled : Pool.Settled cfg.given)
    (submitted : Submitted cfg s) (counted : Pool.Counted cfg.given s.process.pool) (move : Move cfg s l s') :
    errors s' = errors s := by
  have submitted' := submitted_move requests submitted move
  have counted' := counted.raised (Pool.reachable_sound requests (submitted'.reachable requests)) move.raised
  obtain ⟨outcome, execute, comes⟩ := outcome_of_counted requests settled submitted counted
  obtain ⟨outcome', execute', comes'⟩ := outcome_of_counted requests settled submitted' counted'
  obtain rfl := Option.some.inj (execute.symm.trans execute')
  have each := (Finset.sum_eq_sum_iff_of_le fun p _ => (move.raised p).2).mp (comes.errors.trans comes'.errors.symm)
  funext p
  rw [errors, errors, each p (Finset.mem_univ p)]

/-- The main thread adds up error counts. -/
def Main.late : Main n → Bool
  | .counting _ | .reported _ => true
  | .joiningScheduler | .joiningWorkload | .joiningMetrics => false

/-- The main thread adds up what does not change any more. -/
structure Written (s : State σ n) : Prop where
  late : s.main.late = true → s.metrics = .ended
  counting : ∀ tally, s.main = .counting tally → tally.worth (errors s) = ∑ p, errors s p
  reported : ∀ errorCount, s.main = .reported errorCount → errorCount = ∑ p, errors s p

theorem Written.kept (h : Written s) (main : s'.main = s.main) (metrics : s.metrics = .ended → s'.metrics = .ended)
    (errors : s.metrics = .ended → errors s' = errors s) : Written s' := by
  refine ⟨fun late => metrics (h.late (main ▸ late)), fun tally place => ?_, fun errorCount place => ?_⟩
  · rw [main] at place
    rw [errors (h.late (by rw [place]; rfl))]
    exact h.counting tally place
  · rw [main] at place
    rw [errors (h.late (by rw [place]; rfl))]
    exact h.reported errorCount place

theorem written_move {l : Label ℓ n} (requests : ∀ m ∈ cfg.messages, m.IsRequest) (settled : Pool.Settled cfg.given)
    (submitted : Submitted cfg s) (measured : Measured cfg s) (h : Written s) (move : Move cfg s l s') : Written s' := by
  have kept : s.metrics = .ended → errors s' = errors s := fun ended =>
    errors_kept requests settled submitted (measured.counted submitted requests ended) move
  cases move with
  | process | submit => exact h.kept rfl id kept
  | again place | wake place | add place | print place => exact h.kept rfl (fun ended => nomatch place.symm.trans ended) kept
  | finish => exact h.kept rfl (fun _ => rfl) kept
  | joinScheduler | joinWorkload => exact ⟨nofun, nofun, nofun⟩
  | joinMetrics place metrics lists =>
    refine ⟨fun _ => metrics, ?_, nofun⟩
    rintro _ ⟨⟩
    exact Tally.worth_start lists.1 lists.2
  | sum place next =>
    refine ⟨fun _ => h.late (by rw [place]; rfl), ?_, nofun⟩
    rintro _ ⟨⟩
    exact (Tally.worth_next next).trans (h.counting _ place)
  | report place last =>
    refine ⟨fun _ => h.late (by rw [place]; rfl), nofun, ?_⟩
    rintro _ ⟨⟩
    exact (Tally.worth_end last).symm.trans (h.counting _ place)

theorem reachable_written (requests : ∀ m ∈ cfg.messages, m.IsRequest) (settled : Pool.Settled cfg.given)
    (reach : (system cfg).Reachable s) : Written s :=
  System.Via.invariant (P := Written) reach ⟨nofun, nofun, nofun⟩ fun _ _ _ via held _ step =>
    written_move requests settled (reachable_submitted requests via) (reachable_measured via) held (step_move step)

/-- What the replica prints and writes is true. -/
structure Accurate (cfg : Config σ ℓ n) (s : State σ n) : Prop where
  sorted : s.printed.Pairwise (· ≤ ·)
  printed : ∀ x ∈ s.printed, x ≤ ∑ p, executed s p
  ended : s.metrics = .ended → ∃ outcome, cfg.outcome = some outcome ∧ Pool.ComesTo s.process.pool outcome
  reported : ∀ errorCount, s.main = .reported errorCount →
    ∃ outcome, cfg.outcome = some outcome ∧ Pool.ComesTo s.process.pool outcome ∧ errorCount = (outcome.errors : BitVec 32)

/-- **Every run is accurate**: the printed counts never fall and never say more than has been executed, and
with the end of `metrics_loop` all answers, the storage and the error count are those of the one-by-one
execution of the file. -/
theorem accurate (requests : ∀ m ∈ cfg.messages, m.IsRequest) (settled : Pool.Settled cfg.given)
    (reach : (system cfg).Reachable s) : Accurate cfg s := by
  have submitted := reachable_submitted requests reach
  have measured := reachable_measured reach
  have written := reachable_written requests settled reach
  have outcome : s.metrics = .ended → _ := fun ended =>
    outcome_of_counted requests settled submitted (measured.counted submitted requests ended)
  refine ⟨measured.sorted, fun x mem => (measured.printed x mem).trans measured.reading, outcome, fun errorCount place => ?_⟩
  obtain ⟨result, execute, comes⟩ := outcome (written.late (by rw [place]; rfl))
  refine ⟨result, execute, comes, ?_⟩
  rw [written.reported errorCount place, ← comes.errors]
  exact (Nat.cast_sum Finset.univ fun p => (s.process.pool.partitions p).errorCount).symm

end Run

end KvPaxos
