import KvPaxos.Scheduler.Execution
import Mathlib.Algebra.Order.BigOperators.Group.Finset

/-!
# What the counters of the partitions tell

`n_executed_requests` and `error_count` add up the workers' counters. A worker raises `error_count_` before
`n_executed_requests_`, and both only while it has a request in its hand. So as soon as the executed requests
add up to all requests, each has been answered and every error counted, although SYNC messages may still be
on their way.
-/

namespace KvPaxos.Pool

open Lib

variable {n : Nat} {cfg : Config n} {s s' : State n} {p q : Fin n}

/-- The counters of `s'` are those of `s` or have been raised. -/
def Raised (s s' : State n) : Prop :=
  ∀ p, (s.partitions p).nExecutedRequests ≤ (s'.partitions p).nExecutedRequests ∧
    (s.partitions p).errorCount ≤ (s'.partitions p).errorCount

theorem Raised.of_same (same : s'.partitions = s.partitions) : Raised s s' := by
  intro p
  rw [same]
  exact ⟨Nat.le_refl _, Nat.le_refl _⟩

/-- A step that changes partition `p` only. -/
theorem Raised.put {part : Partition} (partitions : s'.partitions = Function.update s.partitions p part)
    (executed : (s.partitions p).nExecutedRequests ≤ part.nExecutedRequests)
    (errors : (s.partitions p).errorCount ≤ part.errorCount) : Raised s s' := by
  intro q
  rw [partitions]
  by_cases eq : q = p
  · subst eq
    rw [Function.update_self]
    exact ⟨executed, errors⟩
  · rw [Function.update_of_ne eq]
    exact ⟨Nat.le_refl _, Nat.le_refl _⟩

theorem Work.raised (h : Work cfg s p s') : Raised s s' := by
  cases h with
  | miss => exact .put rfl (Nat.le_refl _) (Nat.le_succ _)
  | count => exact .put rfl (Nat.le_succ _) (Nat.le_refl _)
  | _ => exact .put rfl (Nat.le_refl _) (Nat.le_refl _)

theorem Push.raised (h : Push cfg s s') : Raised s s' := by
  cases h with
  | skip => exact .of_same rfl
  | reserve | enqueue | post => exact .put rfl (Nat.le_refl _) (Nat.le_refl _)

/-- What partition `p` has still to handle, its calls in `todo` included. -/
def leftover (s : State n) (p : Fin n) : List Entry :=
  (s.partitions p).log.drop (s.partitions p).handled ++ pending s.todo p

theorem plan_split (s : State n) (p : Fin n) :
    plan s p = (s.partitions p).log.take (s.partitions p).handled ++ leftover s p := by
  rw [plan, leftover, ← List.append_assoc, List.take_append_drop]

theorem sum_plan (sound : Sound cfg s) : ∑ p, countRequests (plan s p) = s.dispatched := by
  have total := sound.planned.total fun _ => true
  simpa only [countWhere_true, List.countP_true, List.length_range] using total

theorem executed_le_plan (sound : Sound cfg s) (p : Fin n) :
    (s.partitions p).nExecutedRequests ≤ countRequests (plan s p) := by
  rw [(sound.accounted p).executed, plan_split]
  simp only [countRequests, List.countP_append]
  exact Nat.le_add_right _ _

/-- Every request has been counted by a worker. -/
def Counted (cfg : Config n) (s : State n) : Prop :=
  ∑ p, (s.partitions p).nExecutedRequests = cfg.requests.length

/-- **No request is counted before it is dispatched.** -/
theorem executed_le (sound : Sound cfg s) : ∑ p, (s.partitions p).nExecutedRequests ≤ s.dispatched := by
  rw [← sum_plan sound]
  exact Finset.sum_le_sum fun p _ => executed_le_plan sound p

theorem executed_le_requests (sound : Sound cfg s) : ∑ p, (s.partitions p).nExecutedRequests ≤ cfg.requests.length :=
  (executed_le sound).trans sound.planned.dispatched

namespace Counted

theorem of_le (sound : Sound cfg s) (enough : cfg.requests.length ≤ ∑ p, (s.partitions p).nExecutedRequests) :
    Counted cfg s :=
  Nat.le_antisymm (executed_le_requests sound) enough

theorem dispatched (counted : Counted cfg s) (sound : Sound cfg s) : s.dispatched = cfg.requests.length :=
  Nat.le_antisymm sound.planned.dispatched (counted ▸ executed_le sound)

/-- No partition has a request left. -/
theorem leftover (counted : Counted cfg s) (sound : Sound cfg s) (p : Fin n) : ∀ e ∈ leftover s p, e.message.type = .SYNC := by
  have same : ∑ p, (s.partitions p).nExecutedRequests = ∑ p, countRequests (plan s p) := by
    rw [sum_plan sound, counted.dispatched sound]
    exact counted
  have each := (Finset.sum_eq_sum_iff_of_le fun p _ => executed_le_plan sound p).mp same p (Finset.mem_univ p)
  rw [(sound.accounted p).executed, plan_split] at each
  simp only [countRequests, List.countP_append] at each
  have none := List.countP_eq_zero.mp (Nat.left_eq_add.mp each)
  intro e mem
  simpa using none e mem

theorem handled (counted : Counted cfg s) (sound : Sound cfg s) (P : Nat → Bool) (p : Fin n) :
    countWhere P ((s.partitions p).log.take (s.partitions p).handled) = countWhere P (plan s p) := by
  have none : countWhere P (Pool.leftover s p) = 0 := by
    refine List.countP_eq_zero.mpr fun e mem => ?_
    simp [counted.leftover sound p e mem]
  rw [plan_split]
  exact ((List.countP_append ..).trans (congrArg _ none)).symm

theorem done (counted : Counted cfg s) (sound : Sound cfg s) {k : Nat} (lt : k < cfg.requests.length) :
    ∃ p, Done s p k := by
  rw [← counted.dispatched sound] at lt
  obtain ⟨p, e, mem, request, number⟩ := sound.planned.placed k lt
  rw [plan_split] at mem
  rcases List.mem_append.mp mem with handled | left
  · exact ⟨p, e, handled, request, number⟩
  · exact absurd (counted.leftover sound p e left) (Entry.barrier_eq_none.mp request)

/-- What a worker has in its hand is a SYNC message. -/
theorem hand (counted : Counted cfg s) (sound : Sound cfg s) {e : Entry} (hold : (s.partitions p).worker.entry = some e) :
    e.message.type = .SYNC := by
  refine counted.leftover sound p e (List.mem_append_left _ ?_)
  rw [(sound.accounted p).line, hold]
  exact List.mem_cons_self

/-- Counted requests stay counted. -/
theorem raised (counted : Counted cfg s) (sound : Sound cfg s') (raised : Raised s s') : Counted cfg s' := by
  refine .of_le sound ?_
  rw [← counted]
  exact Finset.sum_le_sum fun p _ => (raised p).1

end Counted

end KvPaxos.Pool
