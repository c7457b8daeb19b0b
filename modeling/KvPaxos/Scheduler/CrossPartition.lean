import KvPaxos.Scheduler.AsyncImb
import KvPaxos.Scheduler.FreeHandShake
import KvPaxos.Scheduler.RoundRobin

/-!
# The cross-partition ratio

`is_cross_partition_intensive` divides the cross-partition requests since `cross_operation_start_` by
the requests since `operation_start_`. The first counter goes up one statement before
`n_dispatched_requests_`, and under an interval of operations the graph thread moves `operation_start_`
without `cross_operation_start_`, so the two parts of the quotient may be about different requests.

Both are read off the list of dispatched requests: the quotient is a ratio over its window if no
cross-partition request was dispatched between the last install and `operation_start_`, whichever came
first, and none is between the two counters. Otherwise it is not, except where two wrong counts cancel.
-/

namespace KvPaxos

open Lib

namespace AsyncImb

open StopTheWorld (Config Interval)
open FreeScheduler (Label)
open Storage (toInt)

variable {n : Nat} {method : CutMethod} {cfg : Config n} {s s' : State n} {l : Label}

/-- The numerator counts what it should, and is no more than the denominator. -/
structure Quotient.Exact (q : Quotient) : Prop where
  counted : q.numerator = q.counted
  nonneg : 0 ≤ q.numerator
  le : q.numerator ≤ q.denominator

/-- How many of the first `b` requests, without the first `a`, are cross-partition. -/
def crossIn (dispatched : List Bool) (a b : Nat) : Nat := ((dispatched.take b).drop a).count true

/-- The counters have not outgrown `int`. -/
structure Fits (s : State n) : Prop where
  dispatched : s.threads.nDispatchedRequests < 2 ^ 31
  processed : s.threads.nProcessedRequests < 2 ^ 31

instance (s : State n) : Decidable (Fits s) :=
  decidable_of_iff (s.threads.nDispatchedRequests < 2 ^ 31 ∧ s.threads.nProcessedRequests < 2 ^ 31)
    ⟨fun ⟨dispatched, processed⟩ => ⟨dispatched, processed⟩, fun ⟨dispatched, processed⟩ => ⟨dispatched, processed⟩⟩

/-- How many cross-partition requests were dispatched between the last install and `operation_start_`,
whichever came first. -/
def crossBetween (s : State n) : Nat :=
  crossIn s.dispatched (min s.crossStart s.operationStart.toNat) (max s.crossStart s.operationStart.toNat)

/-- The scheduling thread is past `cross_partition_count_ +=` and not past `n_dispatched_requests_++`, with a
cross-partition request. -/
def countingCross (s : State n) : Bool :=
  decide (pending s.threads.scheduling = .dispatched) && s.dispatched.getLast?.getD false

/-- Both counters start and end with the same requests, as far as these are cross-partition. -/
structure Clean (s : State n) : Prop where
  between : crossBetween s = 0
  counting : countingCross s = false

instance (s : State n) : Decidable (Clean s) :=
  decidable_of_iff (crossBetween s = 0 ∧ countingCross s = false)
    ⟨fun ⟨between, counting⟩ => ⟨between, counting⟩, fun ⟨between, counting⟩ => ⟨between, counting⟩⟩

/-- Two wrong counts make up for each other: one cross-partition request of the window came before the
install, and one that is counted already is not yet in the window. -/
structure Cancelled (s : State n) : Prop where
  late : s.operationStart < s.crossStart
  between : crossBetween s = 1
  counting : countingCross s = true

theorem toInt_of_lt {k : Nat} (h : k < 2 ^ 31) : toInt k = k := Storage.toInt_eq (by omega) (by omega)

theorem count_take_mono (dispatched : List Bool) {a b : Nat} (h : a ≤ b) :
    (dispatched.take a).count true ≤ (dispatched.take b).count true :=
  (List.take_sublist_take_left h).count_le true

/-- By the counts of the prefixes. -/
theorem crossIn_eq (dispatched : List Bool) (a b : Nat) :
    crossIn dispatched a b = (dispatched.take b).count true - (dispatched.take a).count true := by
  rcases Nat.le_total a b with h | h
  · have split : (dispatched.take b).count true =
        (dispatched.take a).count true + crossIn dispatched a b := by
      rw [crossIn, ← List.count_append]
      have front : dispatched.take a = (dispatched.take b).take a := by
        rw [List.take_take, Nat.min_eq_left h]
      rw [front, List.take_append_drop]
    omega
  · have none : (dispatched.take b).drop a = [] := by
      apply List.drop_eq_nil_of_le
      exact (List.length_take_le b dispatched).trans h
    have := count_take_mono dispatched h
    rw [crossIn, none, List.count_nil]
    omega

/-! ### The counters and the dispatched requests -/

/-- Requests that `cross_partition_count_` has seen and `n_dispatched_requests_` has not. -/
def Pending.uncounted : Pending → Nat
  | .dispatched => 1
  | _ => 0

/-- What the counters stand for. -/
structure Counters (s : State n) : Prop where
  length : s.dispatched.length = s.threads.nDispatchedRequests + (pending s.threads.scheduling).uncounted
  count : s.crossPartitionCount = s.dispatched.count true
  start : s.crossOperationStart = (s.dispatched.take s.crossStart).count true
  bound : s.crossStart ≤ s.threads.nDispatchedRequests
  operation : 0 ≤ s.operationStart

/-- A step that writes no counter. -/
theorem Counters.frame (h : Counters s) {t : FreeScheduler.State n} (same : Same s.threads t)
    (scheduling : pending t.scheduling = pending s.threads.scheduling) (checks : List Nat)
    (quotients : List Quotient) : Counters { s with threads := t, checks := checks, quotients := quotients } where
  length := by
    rw [same.dispatched, scheduling]
    exact h.length
  count := h.count
  start := h.start
  bound := h.bound.trans_eq same.dispatched.symm
  operation := h.operation

/-- **Each step keeps the counters true**, as long as they fit. -/
theorem Counters.move (h : Counters s) (fits : Fits s) (move : Move method cfg s l s') : Counters s' := by
  obtain ⟨length, count, start, bound, operation⟩ := id h
  have few : s.dispatched.count true ≤ s.dispatched.length := List.count_le_length
  cases move with
  | other same scheduling => exact h.frame same scheduling _ _
  | skip same _ _ _ scheduling | check same _ _ _ scheduling | evaluate same _ _ scheduling
  | graphDone same _ _ _ scheduling => exact h.frame same (congrArg pending scheduling) _ _
  | tally dispatched _ _ _ scheduling =>
    refine ⟨?_, count, start, bound.trans_eq dispatched.symm, operation⟩
    rw [dispatched, scheduling]
    exact length
  | graphRestart same _ _ _ scheduling =>
    refine ⟨?_, count, start, bound.trans_eq same.dispatched.symm, ?_⟩
    · rw [same.dispatched, scheduling]
      exact length
    · dsimp only
      rw [toInt_of_lt fits.processed]
      exact Int.natCast_nonneg _
  | @dispatch _ cross _ same before after =>
    rw [before] at length
    refine ⟨?_, ?_, ?_, bound.trans_eq same.dispatched.symm, operation⟩
    · rw [same.dispatched, after, List.length_append, length]
      rfl
    · show s.crossPartitionCount + cross.toNat = _
      rw [count, List.count_append]
      cases cross <;> rfl
    · show s.crossOperationStart = _
      rw [start, List.take_append_of_le_length (bound.trans_eq length.symm)]
  | count counted _ before after =>
    rw [before] at length
    refine ⟨?_, count, start, ?_, operation⟩
    · rw [counted, after, length]
      rfl
    · show s.crossStart ≤ _
      rw [counted]
      exact bound.trans (Nat.le_succ _)
  | restart same before after =>
    rw [before] at length
    refine ⟨?_, count, start, bound.trans_eq same.dispatched.symm, ?_⟩
    · rw [same.dispatched, after]
      exact length
    · dsimp only
      rw [toInt_of_lt fits.dispatched]
      exact Int.natCast_nonneg _
  | assign before =>
    have known : s.dispatched.length = s.threads.nDispatchedRequests := by
      rw [before] at length
      exact length
    have few : s.crossPartitionCount < 2 ^ 31 := by
      have := fits.dispatched
      omega
    refine ⟨length, count, ?_, known.le, operation⟩
    dsimp only
    rw [toInt_of_lt few, List.take_length, count]
  | settle same before _ after =>
    rw [before] at length
    refine ⟨?_, count, start, bound.trans_eq same.dispatched.symm, operation⟩
    rw [same.dispatched, after]
    exact length

theorem counters_init (method : CutMethod) (cfg : Config n) : Counters (init method cfg) := by
  obtain ⟨w, -, start⟩ := FreeScheduler.methodInit_eq method (threadsConfig cfg)
  unfold init
  rw [start]
  exact ⟨rfl, rfl, rfl, Nat.le_refl _, Int.le_refl _⟩

theorem via_counters {guard : State n → Label → Prop} (fits : ∀ s l, guard s l → Fits s)
    (via : (system method cfg).Via guard s) : Counters s := by
  refine via.invariant (P := Counters) (counters_init method cfg) ?_
  intro s l s' via counters met step
  exact counters.move (fits s l met) (step_move (via_own via) step)

/-- The request between the two counters is the last one of the list. -/
theorem Counters.tail (h : Counters s) :
    crossIn s.dispatched s.threads.nDispatchedRequests s.dispatched.length = (countingCross s).toNat := by
  have length := h.length
  rw [crossIn, List.take_length, countingCross]
  by_cases place : pending s.threads.scheduling = .dispatched
  · rw [place] at length
    rcases List.eq_nil_or_concat s.dispatched with none | ⟨front, last, eq⟩
    · rw [none] at length
      exact absurd length (Nat.succ_ne_zero _).symm
    · rw [List.concat_eq_append] at eq
      rw [eq, List.length_append] at length
      have counted : s.threads.nDispatchedRequests = front.length := (Nat.succ_inj.mp length).symm
      rw [eq, counted, List.drop_left, List.getLast?_concat, decide_eq_true place]
      cases last <;> rfl
  · have counted : s.dispatched.length = s.threads.nDispatchedRequests := by
      rw [length]
      cases here : pending s.threads.scheduling with
      | dispatched => exact absurd here place
      | _ => rfl
    rw [← counted, List.drop_length, decide_eq_false place]
    rfl

/-- The requests the numerator has and the denominator has not are as many cross-partition ones as
those the denominator has and the numerator has not. -/
def Aligned (s : State n) : Prop :=
  crossIn s.dispatched s.crossStart s.operationStart.toNat +
      crossIn s.dispatched s.threads.nDispatchedRequests s.dispatched.length =
    crossIn s.dispatched s.operationStart.toNat s.crossStart

/-- There are none of either, or one of each. -/
theorem Counters.aligned_iff (h : Counters s) : Aligned s ↔ Clean s ∨ Cancelled s := by
  have tail := h.tail
  have operation := h.operation
  have apart (a b : Nat) (le : a ≤ b) : crossIn s.dispatched b a = 0 := by
    have := count_take_mono s.dispatched le
    rw [crossIn_eq]
    omega
  have iff_clean : Clean s ↔ crossBetween s = 0 ∧ countingCross s = false :=
    ⟨fun ⟨between, counting⟩ => ⟨between, counting⟩, fun ⟨between, counting⟩ => ⟨between, counting⟩⟩
  have iff_cancelled : Cancelled s ↔ s.operationStart < s.crossStart ∧ crossBetween s = 1 ∧ countingCross s = true :=
    ⟨fun ⟨late, between, counting⟩ => ⟨late, between, counting⟩,
      fun ⟨late, between, counting⟩ => ⟨late, between, counting⟩⟩
  have short : (countingCross s).toNat ≤ 1 := Bool.toNat_le _
  rw [iff_clean, iff_cancelled, Aligned, tail, ← Bool.toNat_eq_zero, ← Bool.toNat_eq_one]
  rcases Nat.le_total s.crossStart s.operationStart.toNat with early | late
  · have between : crossBetween s = crossIn s.dispatched s.crossStart s.operationStart.toNat := by
      rw [crossBetween, Nat.min_eq_left early, Nat.max_eq_right early]
    have none := apart _ _ early
    omega
  · have between : crossBetween s = crossIn s.dispatched s.operationStart.toNat s.crossStart := by
      rw [crossBetween, Nat.min_eq_right late, Nat.max_eq_left late]
    have none := apart _ _ late
    have together : s.operationStart.toNat = s.crossStart → crossBetween s = 0 := by
      intro eq
      rw [between, eq]
      exact apart _ _ (Nat.le_refl _)
    omega

/-- **The quotient is a ratio over its window exactly if its two parts are aligned.** -/
theorem Counters.exact_iff (h : Counters s) (fits : Fits s) {q : Quotient} (evaluated : quotient s = some q) :
    q.Exact ↔ Aligned s := by
  obtain ⟨length, count, start, bound, operation⟩ := h
  simp only [quotient, toInt_of_lt fits.dispatched] at evaluated
  obtain ⟨window, ⟨⟩⟩ := Option.ite_none_right_eq_some.mp evaluated
  obtain ⟨op, hop⟩ := Int.eq_ofNat_of_zero_le operation
  have before : s.threads.nDispatchedRequests - (s.threads.nDispatchedRequests - s.operationStart).toNat = op := by
    omega
  have counted := crossIn_eq s.dispatched op s.threads.nDispatchedRequests
  have mono {a b : Nat} (h : a ≤ b) := count_take_mono s.dispatched h
  have outer := mono bound
  have inner := mono (a := op) (b := s.threads.nDispatchedRequests) (by omega)
  have rest := mono (a := s.threads.nDispatchedRequests) (b := s.dispatched.length) (by omega)
  have few : s.dispatched.count true ≤ s.dispatched.length := List.count_le_length
  have most : (crossIn s.dispatched op s.threads.nDispatchedRequests) ≤ s.threads.nDispatchedRequests - op := by
    refine List.count_le_length.trans ?_
    rw [List.length_drop, List.length_take]
    omega
  have short : (pending s.threads.scheduling).uncounted ≤ 1 := by
    cases pending s.threads.scheduling <;> decide
  have := fits.dispatched
  rw [List.take_length] at rest
  have numerator : (s.crossPartitionCount - s.crossOperationStart) % 2 ^ 64 =
      (s.dispatched.count true - (s.dispatched.take s.crossStart).count true : Nat) := by
    rw [count, start]
    omega
  have aligned : Aligned s ↔ s.dispatched.count true - (s.dispatched.take s.crossStart).count true =
      crossIn s.dispatched op s.threads.nDispatchedRequests := by
    have start : s.operationStart.toNat = op := by omega
    rw [Aligned, start, crossIn_eq, crossIn_eq, crossIn_eq, crossIn_eq, List.take_length]
    omega
  rw [aligned]
  constructor
  · rintro ⟨exact, -, -⟩
    simp only [numerator, before] at exact
    exact Int.ofNat_inj.mp exact
  · intro same
    refine ⟨?_, ?_, ?_⟩
    · simp only [numerator, before, same]
      rfl
    · rw [numerator]
      exact Int.natCast_nonneg _
    · simp only [numerator, same]
      omega

/-! ### Under an interval of time -/

/-- Only an install moves the two starts, and it moves them together. -/
structure Together (s : State n) : Prop where
  assigned : s.assigned = true → pending s.threads.scheduling = .restarted
  between : pending s.threads.scheduling = .restarted → s.assigned = false →
    s.operationStart = s.threads.nDispatchedRequests
  same : (pending s.threads.scheduling = .restarted → s.assigned = true) → s.operationStart = s.crossStart

theorem Together.frame (h : Together s) {t : FreeScheduler.State n} (same : Same s.threads t)
    (scheduling : pending t.scheduling = pending s.threads.scheduling) (checks : List Nat)
    (quotients : List Quotient) : Together { s with threads := t, checks := checks, quotients := quotients } where
  assigned := by
    rw [scheduling]
    exact h.assigned
  between := by
    rw [scheduling, same.dispatched]
    exact h.between
  same := by
    rw [scheduling]
    exact h.same

/-- Under a clock the graph thread moves no start of a window, so the two starts are written by the scheduling thread
alone, one right after the other. -/
theorem Together.move (h : Together s) (counters : Counters s) (fits : Fits s) (clock : cfg.interval = .chosen)
    (move : Move method cfg s l s') : Together s' := by
  obtain ⟨assigned, between, same⟩ := id h
  cases move with
  | other kept scheduling => exact h.frame kept scheduling _ _
  | skip kept _ _ _ scheduling | check kept _ _ _ scheduling | evaluate kept _ _ scheduling
  | graphDone kept _ _ _ scheduling => exact h.frame kept (congrArg pending scheduling) _ _
  | tally dispatched _ _ _ scheduling =>
    refine ⟨?_, ?_, ?_⟩ <;> simp only [dispatched, scheduling] <;> assumption
  | graphRestart _ interval =>
    rw [clock] at interval
    cases interval
  | dispatch _ before after | count _ _ before after =>
    rw [before] at assigned same
    have idle : s.assigned = false := Bool.eq_false_of_not_eq_true fun up => (by cases assigned up)
    refine ⟨fun up => ?_, fun at_ => ?_, fun _ => same nofun⟩
    · rw [idle] at up
      cases up
    · rw [after] at at_
      cases at_
  | restart kept before after =>
    rw [before] at assigned
    have idle : s.assigned = false := Bool.eq_false_of_not_eq_true fun up => (by cases assigned up)
    refine ⟨fun _ => after, fun _ _ => ?_, fun up => ?_⟩
    · dsimp only
      rw [toInt_of_lt fits.dispatched, kept.dispatched]
    · have up : s.assigned = true := up after
      rw [idle] at up
      cases up
  | assign before fresh =>
    refine ⟨fun _ => before, nofun, fun _ => ?_⟩
    have length := counters.length
    rw [before] at length
    rw [between before fresh, length]
    rfl
  | settle _ before done after =>
    refine ⟨nofun, fun at_ => ?_, fun _ => same fun _ => done⟩
    rw [after] at at_
    cases at_

theorem together_init (method : CutMethod) (cfg : Config n) : Together (init method cfg) := by
  obtain ⟨w, -, start⟩ := FreeScheduler.methodInit_eq method (threadsConfig cfg)
  unfold init
  rw [start]
  exact ⟨nofun, nofun, fun _ => rfl⟩

/-- While the graph thread evaluates the quotient no install is under way. -/
theorem no_install (via : (system method cfg).Via (fun s l => Fits s ∧ l.Sized) s)
    (place : s.threads.graphThread = .testingImbalance) : pending s.threads.scheduling ≠ .restarted := by
  intro restarted
  have scheduling : s.threads.scheduling = .loweringRepartitioning := by
    cases here : s.threads.scheduling <;> rw [here] at restarted <;> first | rfl | cases restarted
  have threads := via_threads (fun _ l => l.Sized) via fun _ _ met => met.2
  by_cases roundRobin : method = .ROUND_ROBIN
  · rw [roundRobin] at threads
    have plain := (FreeScheduler.Anchored.of_reachable threads.reachable).plain
    rw [scheduling] at plain
    cases plain
  · rw [FreeScheduler.methodSystem_eq roundRobin] at threads
    obtain ⟨t, -, related⟩ := FreeScheduler.exists_rounds threads
    have tested := (FreeScheduler.via_places threads).graph
    rw [place] at tested
    have idle := related.idle tested.2 (by rw [scheduling]; rfl)
    rw [related.settling (by rw [scheduling]; rfl)] at idle
    cases idle

/-- Then nothing is dispatched between the two starts. -/
theorem clean_iff (clock : cfg.interval = .chosen) (via : (system method cfg).Via (fun s l => Fits s ∧ l.Sized) s)
    (place : s.threads.graphThread = .testingImbalance) : Clean s ↔ countingCross s = false := by
  have both : Counters s ∧ Together s := by
    refine via.invariant (P := fun s => Counters s ∧ Together s) ⟨counters_init method cfg, together_init method cfg⟩ ?_
    rintro s l s' via ⟨counters, together⟩ ⟨fits, -⟩ step
    have move := step_move (via_own via) step
    exact ⟨counters.move fits move, together.move counters fits clock move⟩
  have starts := both.2.same fun restarted => absurd restarted (no_install via place)
  have none : crossBetween s = 0 := by
    rw [crossBetween, starts, Int.toNat_natCast, Nat.min_self, Nat.max_self, crossIn_eq, Nat.sub_self]
  exact ⟨Clean.counting, fun counting => ⟨none, counting⟩⟩

/-! ### The quotients of a run -/

/-- The quotient a step evaluates. -/
def evaluated (s : State n) (l : Label) : Option Quotient :=
  match l, s.threads.graphThread with
  | .graph _, .testingImbalance => quotient s
  | _, _ => none

theorem graphed_quotients (interval : Interval) (s : State n) (choice : Bool) (t : FreeScheduler.State n) :
    (graphed interval s choice t).quotients = s.quotients ++ (evaluated s (.graph choice)).toList := by
  unfold graphed evaluated
  cases s.threads.graphThread with
  | testingImbalance => rfl
  | testingInterval => cases choice <;> exact (List.append_nil _).symm
  | _ => cases interval <;> exact (List.append_nil _).symm

theorem quotients_step (h : step method cfg s l = some s') : s'.quotients = s.quotients ++ (evaluated s l).toList := by
  cases l with
  | schedule choice =>
    simp only [step, schedule] at h
    split at h
    · cases h
      exact (List.append_nil _).symm
    · obtain ⟨t, -, rfl⟩ := Option.map_eq_some_iff.mp h
      unfold scheduled
      split
      · split <;> exact (List.append_nil _).symm
      all_goals exact (List.append_nil _).symm
  | graph choice =>
    simp only [step, graph] at h
    split at h
    · cases h
    · obtain ⟨t, -, rfl⟩ := Option.map_eq_some_iff.mp h
      exact graphed_quotients cfg.interval s choice t
  | submit | produce | partition | cut =>
    obtain ⟨t, -, rfl⟩ := Option.map_eq_some_iff.mp h
    exact (List.append_nil _).symm

/-- **When the cross-partition ratio is a ratio over one window**, for both interval types and every
interleaving of `dispatch`, `n_dispatched_requests_++`, the statements of an install and the graph
thread's iterations. Every quotient of a run is one if at each evaluation no cross-partition request was
dispatched between the last install and `operation_start_`, and none is between the two counters; any
other quotient is none, but for two wrong counts that cancel. Under an interval of time, where only an
install moves the two starts, the second half of the condition is all of it. -/
theorem cross_partition_ratio (n : Nat) (method : CutMethod) (cfg : Config n) :
    (∀ s, (system method cfg).Via (fun s l => Fits s ∧ ((evaluated s l).isSome = true → Clean s)) s →
      ∀ q ∈ s.quotients, q.Exact) ∧
    (∀ s l q, (system method cfg).Via (fun s _ => Fits s) s → Fits s → evaluated s l = some q →
      (q.Exact ↔ Clean s ∨ Cancelled s)) ∧
    (cfg.interval = .chosen → ∀ s l q, (system method cfg).Via (fun s l => Fits s ∧ l.Sized) s →
      evaluated s l = some q → (Clean s ↔ countingCross s = false)) := by
  have here {s : State n} {l : Label} {q : Quotient} (eq : evaluated s l = some q) :
      quotient s = some q ∧ s.threads.graphThread = .testingImbalance := by
    unfold evaluated at eq
    split at eq
    · rename_i place
      exact ⟨eq, place⟩
    · cases eq
  refine ⟨fun s via => ?_, fun s l q via fits eq => ?_, fun clock s l q via eq => ?_⟩
  · refine via.invariant (P := fun s => ∀ q ∈ s.quotients, q.Exact) nofun ?_
    rintro s l s' via exact ⟨fits, clean⟩ step q mem
    rw [quotients_step step, List.mem_append, Option.mem_toList] at mem
    rcases mem with mem | eq
    · exact exact q mem
    · have counters := via_counters (fun s l met => met.1) via
      have aligned := counters.aligned_iff.mpr (Or.inl (clean (Option.isSome_of_mem eq)))
      exact (counters.exact_iff fits (here eq).1).mpr aligned
  · have counters := via_counters (fun s l met => met) via
    exact (counters.exact_iff fits (here eq).1).trans counters.aligned_iff
  · exact clean_iff clock via (here eq).2

/-- Two partitions with one key each. -/
def scanConfig (interval : Interval) : Config 2 where
  positive := Nat.two_pos
  TL := 0
  queueHeadDistance := 4
  interval := interval
  populated := [0, 1]

/-- A SCAN of both keys is submitted, so a cross-partition request. -/
def submitScan : List Label :=
  [.submit { type := .SCAN, key := 0, args := ['2'] }, .produce, .produce, .produce]

/-- It is dispatched, and `schedule_and_answer` ends. -/
def dispatchScan : List Label := List.replicate 7 (.schedule true)

/-- The graph thread takes a message and evaluates the quotient, with no imbalance. -/
def checkBalance : List Label := List.replicate 8 (.graph true) ++ [.graph false]

/-- A WRITE and a SCAN are dispatched and checked one by one: the second check is past the WRITE, which
`cross_operation_start_` is not. -/
theorem cross_partition_ratio_one : ∃ s, (system .METIS (scanConfig (.operations 1 Nat.one_pos))).Reachable s ∧
    s.quotients = [⟨1, 2, 1⟩, ⟨1, 1, 1⟩] ∧ ∀ q ∈ s.quotients, q.Exact := by
  obtain ⟨s, via, eq⟩ := System.exists_via (M := system .METIS (scanConfig (.operations 1 Nat.one_pos)))
    (fun s l => Fits s ∧ ((evaluated s l).isSome = true → Clean s))
    (P := fun s => s.quotients = [⟨1, 2, 1⟩, ⟨1, 1, 1⟩])
    ([.submit { type := .WRITE, key := 0 }, .produce, .produce, .produce] ++ submitScan ++ dispatchScan ++
      dispatchScan ++ checkBalance ++ [.graph true] ++ checkBalance) (by decide)
  exact ⟨s, via.reachable, eq,
    (cross_partition_ratio 2 .METIS (scanConfig (.operations 1 Nat.one_pos))).1 s via⟩

/-- Two cross-partition requests over one request. Under an interval of operations: both are
dispatched, and the first check has moved `operation_start_` alone. Under an interval of time: the
second is between the two counters. -/
theorem cross_partition_ratio_two :
    (∃ s, (system .METIS (scanConfig (.operations 1 Nat.one_pos))).Reachable s ∧ ⟨2, 1, 1⟩ ∈ s.quotients) ∧
    (∃ s, (system .METIS (scanConfig .chosen)).Reachable s ∧ ⟨2, 1, 1⟩ ∈ s.quotients) ∧
    ¬ Quotient.Exact ⟨2, 1, 1⟩ := by
  refine ⟨?_, ?_, fun exact => absurd exact.le (by decide)⟩
  · apply System.exists_reachable (M := system .METIS (scanConfig (.operations 1 Nat.one_pos)))
      (P := fun s => ⟨2, 1, 1⟩ ∈ s.quotients)
      (submitScan ++ submitScan ++ dispatchScan ++ dispatchScan ++ checkBalance ++ [.graph true] ++ checkBalance)
    decide
  · apply System.exists_reachable (M := system .METIS (scanConfig .chosen))
      (P := fun s => ⟨2, 1, 1⟩ ∈ s.quotients)
      (submitScan ++ submitScan ++ dispatchScan ++ dispatchScan.take 5 ++ checkBalance)
    decide

end AsyncImb

end KvPaxos
