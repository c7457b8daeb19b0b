import Mathlib.Algebra.GroupWithZero.Nat
import Mathlib.Data.List.FinRange
import KvPaxos.Lib.Streak
import KvPaxos.Lib.System

/-!
# The imbalance detector

`imbalance()` of `OldImbScheduler` and `AsyncImbScheduler`, whose texts are the same. What it compares
with the threshold (queue lengths and the cross-partition ratio, in floating point) comes with each
call; what it counts is the state. Each counter counts a streak of the calls since the last one that
returned true: `Counted` says so, and a call returns true exactly if it makes some streak longer than
`MaxSucessiveImbalances`.
-/

namespace KvPaxos

open Lib

/-- `sucessive_cross_partition_intensive_`, a `size_t`, and `sucessive_imbalance_`, an array of `uint32_t`. -/
structure ImbalanceCounts (n : Nat) where
  sucessiveCrossPartitionIntensive : Nat := 0
  sucessiveImbalance : Fin n → Nat := fun _ => 0

/-- What a call of `imbalance()` finds. -/
structure ImbalanceCall (n : Nat) where
  /-- `n_dispatched_requests_ > operation_start_`. -/
  hasData : Bool
  /-- `cross_partition_ratio > balance_threshold_`. -/
  crossAbove : Bool
  /-- `std::abs(in_queue_amount_[i] - avg) > threshold`. -/
  above : Fin n → Bool
  /-- After true the caller clears the counts once more (`AsyncImbScheduler`, if the graph has a vertex). -/
  clears : Bool := false

namespace ImbalanceCounts

variable {n : Nat}

/-- `clear_imbalance_count()`. -/
def clearImbalanceCount (c : ImbalanceCounts n) : ImbalanceCounts n :=
  { c with sucessiveImbalance := fun _ => 0 }

/-- `is_cross_partition_intensive()`. -/
def isCrossPartitionIntensive (max : Nat) (c : ImbalanceCounts n) (call : ImbalanceCall n) :
    Bool × ImbalanceCounts n :=
  if call.hasData then
    if call.crossAbove then
      let count := (c.sucessiveCrossPartitionIntensive + 1) % 2 ^ 64
      (decide (count > max), { c with sucessiveCrossPartitionIntensive := count })
    else (false, { c with sucessiveCrossPartitionIntensive := 0 })
  else (false, c)

/-- The loop over the partitions that are left, with its `break`. -/
def checkPartitions (max : Nat) (call : ImbalanceCall n) :
    List (Fin n) → ImbalanceCounts n → Bool × ImbalanceCounts n
  | [], c => (false, c)
  | i :: rest, c =>
    if call.above i then
      let count := (c.sucessiveImbalance i + 1) % 2 ^ 32
      let counted := { c with sucessiveImbalance := Function.update c.sucessiveImbalance i count }
      if count > max then
        (true, { counted with sucessiveCrossPartitionIntensive := 0 }.clearImbalanceCount)
      else checkPartitions max call rest counted
    else checkPartitions max call rest
      { c with sucessiveImbalance := Function.update c.sucessiveImbalance i 0 }

/-- `imbalance()`. -/
def imbalance (max : Nat) (c : ImbalanceCounts n) (call : ImbalanceCall n) : Bool × ImbalanceCounts n :=
  match c.isCrossPartitionIntensive max call with
  | (true, c) => (true, { c with sucessiveCrossPartitionIntensive := 0 }.clearImbalanceCount)
  | (false, c) => c.checkPartitions max call (List.finRange n)

/-- The counts after a call and what its caller does with the result. -/
def called (max : Nat) (c : ImbalanceCounts n) (call : ImbalanceCall n) : ImbalanceCounts n :=
  match c.imbalance max call with
  | (true, c) => if call.clears then c.clearImbalanceCount else c
  | (false, c) => c

/-- The counts after the constructor and a list of calls. -/
def after (max : Nat) (calls : List (ImbalanceCall n)) : ImbalanceCounts n := calls.foldl (called max) {}

/-- What a call returns that comes after `before`. -/
def returned (max : Nat) (before : List (ImbalanceCall n)) (call : ImbalanceCall n) : Bool :=
  ((after max before).imbalance max call).1

/-! ### One call -/

/-- The counters are within `MaxSucessiveImbalances`. -/
def Within (max : Nat) (c : ImbalanceCounts n) : Prop :=
  c.sucessiveCrossPartitionIntensive ≤ max ∧ ∀ i, c.sucessiveImbalance i ≤ max

/-- The step of a partition's streak. -/
def nextStreak (call : ImbalanceCall n) (c : ImbalanceCounts n) (i : Fin n) : Nat :=
  if call.above i then c.sucessiveImbalance i + 1 else 0

/-- The loop returns true, with all counts at zero, if it makes a streak too long, and else takes each
streak one step on. -/
theorem checkPartitions_spec {max : Nat} (small : max < 2 ^ 32 - 1) (call : ImbalanceCall n) (ps : List (Fin n)) :
    ∀ {c : ImbalanceCounts n}, ps.Nodup → (∀ i ∈ ps, c.sucessiveImbalance i ≤ max) →
      ((c.checkPartitions max call ps).1 = true ↔ ∃ i ∈ ps, max < nextStreak call c i) ∧
      ((c.checkPartitions max call ps).1 = true → (c.checkPartitions max call ps).2 = {}) ∧
      ((c.checkPartitions max call ps).1 = false → (c.checkPartitions max call ps).2 =
        { c with sucessiveImbalance := fun i => if i ∈ ps then nextStreak call c i else c.sucessiveImbalance i }) := by
  induction ps with
  | nil =>
    intro c _ _
    simp [checkPartitions]
  | cons p rest ih =>
    intro c nodup within
    obtain ⟨fresh, nodup⟩ := List.nodup_cons.mp nodup
    have unwrapped : (c.sucessiveImbalance p + 1) % 2 ^ 32 = c.sucessiveImbalance p + 1 := by
      have le := within p List.mem_cons_self
      exact Nat.mod_eq_of_lt (by omega)
    have here : nextStreak call c p = if call.above p then c.sucessiveImbalance p + 1 else 0 := rfl
    -- The rest of the loop, once the streak of `p` has taken its step.
    let counted : ImbalanceCounts n :=
      { c with sucessiveImbalance := Function.update c.sucessiveImbalance p (nextStreak call c p) }
    have same {i : Fin n} (mem : i ∈ rest) : nextStreak call counted i = nextStreak call c i := by
      have ne : i ≠ p := fun eq => fresh (eq ▸ mem)
      show (if call.above i then Function.update c.sucessiveImbalance p _ i + 1 else 0) = _
      rw [Function.update_of_ne ne]
      rfl
    have tail := @ih counted nodup fun i mem => by
      have ne : i ≠ p := fun eq => fresh (eq ▸ mem)
      show Function.update c.sucessiveImbalance p _ i ≤ max
      rw [Function.update_of_ne ne]
      exact within i (List.mem_cons_of_mem _ mem)
    by_cases long : max < nextStreak call c p
    · have above : call.above p = true := by
        by_contra notOver
        rw [here, if_neg notOver] at long
        omega
      have turn : c.checkPartitions max call (p :: rest) = (true, {}) := by
        rw [here, if_pos above] at long
        simp only [checkPartitions, above, if_true, unwrapped, gt_iff_lt, long]
        rfl
      rw [turn]
      exact ⟨iff_of_true rfl ⟨p, List.mem_cons_self, long⟩, fun _ => rfl, fun h => (by cases h)⟩
    · have turn : c.checkPartitions max call (p :: rest) = counted.checkPartitions max call rest := by
        rw [checkPartitions]
        by_cases above : call.above p = true
        · rw [here, if_pos above] at long
          rw [if_pos above]
          simp only [unwrapped, gt_iff_lt, if_neg long, counted, here, above, if_true]
        · rw [if_neg above]
          simp only [counted, here, if_neg above]
      rw [turn]
      refine ⟨tail.1.trans ?_, tail.2.1, fun quiet => (tail.2.2 quiet).trans ?_⟩
      · constructor
        · rintro ⟨i, mem, lt⟩
          exact ⟨i, List.mem_cons_of_mem _ mem, same mem ▸ lt⟩
        · rintro ⟨i, mem, lt⟩
          rcases List.mem_cons.mp mem with rfl | mem
          · exact absurd lt long
          · exact ⟨i, mem, (same mem).symm ▸ lt⟩
      · show ImbalanceCounts.mk _ _ = ImbalanceCounts.mk _ _
        congr 1
        funext i
        by_cases mem : i ∈ rest
        · rw [if_pos mem, if_pos (List.mem_cons_of_mem _ mem), same mem]
        · rw [if_neg mem]
          show Function.update c.sucessiveImbalance p _ i = _
          rw [Function.update_apply]
          by_cases eq : i = p
          · rw [if_pos eq, if_pos (eq ▸ List.mem_cons_self), eq]
          · rw [if_neg eq, if_neg (by rw [List.mem_cons]; exact not_or.mpr ⟨eq, mem⟩)]

/-- The step of the streak of calls with data. -/
def nextCross (call : ImbalanceCall n) (c : ImbalanceCounts n) : Nat :=
  if call.hasData then (if call.crossAbove then c.sucessiveCrossPartitionIntensive + 1 else 0)
  else c.sucessiveCrossPartitionIntensive

theorem isCrossPartitionIntensive_eq {max : Nat} {c : ImbalanceCounts n} (small : max < 2 ^ 32 - 1)
    (within : c.Within max) (call : ImbalanceCall n) : c.isCrossPartitionIntensive max call =
      (decide (max < nextCross call c), { c with sucessiveCrossPartitionIntensive := nextCross call c }) := by
  have le := within.1
  have unwrapped : (c.sucessiveCrossPartitionIntensive + 1) % 2 ^ 64 = c.sucessiveCrossPartitionIntensive + 1 :=
    Nat.mod_eq_of_lt (by omega)
  have quiet : decide (max < c.sucessiveCrossPartitionIntensive) = false := decide_eq_false (Nat.not_lt.mpr le)
  unfold isCrossPartitionIntensive nextCross
  by_cases data : call.hasData = true
  · rw [if_pos data, if_pos data]
    by_cases above : call.crossAbove = true
    · simp only [if_pos above, unwrapped, gt_iff_lt]
    · simp only [if_neg above, Nat.not_lt_zero, decide_false]
  · rw [if_neg data, if_neg data, quiet]

/-- **One call**: true, with all counts at zero, if it makes a streak too long, and else each streak
takes its step. -/
theorem imbalance_spec {max : Nat} {c : ImbalanceCounts n} (small : max < 2 ^ 32 - 1) (within : c.Within max)
    (call : ImbalanceCall n) :
    ((c.imbalance max call).1 = true ↔ max < nextCross call c ∨ ∃ i, max < nextStreak call c i) ∧
    ((c.imbalance max call).1 = true → (c.imbalance max call).2 = {}) ∧
    ((c.imbalance max call).1 = false → (c.imbalance max call).2 = ⟨nextCross call c, nextStreak call c⟩) := by
  unfold imbalance
  rw [isCrossPartitionIntensive_eq small within call]
  by_cases intensive : max < nextCross call c
  · rw [decide_eq_true intensive]
    exact ⟨iff_of_true rfl (Or.inl intensive), fun _ => rfl, fun h => (by cases h)⟩
  · rw [decide_eq_false intensive]
    have loop := checkPartitions_spec small call (List.finRange n)
      (c := { c with sucessiveCrossPartitionIntensive := nextCross call c }) (List.nodup_finRange n)
      fun i _ => within.2 i
    refine ⟨loop.1.trans ?_, loop.2.1, fun quiet => (loop.2.2 quiet).trans ?_⟩
    · simp only [List.mem_finRange, true_and, intensive, false_or]
      rfl
    · simp only [List.mem_finRange, if_true]
      rfl

/-- A call that returns false leaves the counters within `MaxSucessiveImbalances`. -/
theorem within_called {max : Nat} {c : ImbalanceCounts n} (small : max < 2 ^ 32 - 1) (within : c.Within max)
    (call : ImbalanceCall n) : (c.called max call).Within max ∧
      ((c.imbalance max call).1 = true → c.called max call = {}) ∧
      ((c.imbalance max call).1 = false → c.called max call = ⟨nextCross call c, nextStreak call c⟩) := by
  obtain ⟨result, fires, quiet⟩ := imbalance_spec small within call
  unfold called
  cases turn : c.imbalance max call with
  | mk found c' =>
    rw [turn] at result fires quiet
    cases found with
    | true =>
      obtain rfl : c' = {} := fires rfl
      have cleared : (if call.clears = true then clearImbalanceCount {} else ({} : ImbalanceCounts n)) = {} := by
        split <;> rfl
      refine ⟨?_, fun _ => cleared, fun h => (by cases h)⟩
      show Within max (if call.clears = true then clearImbalanceCount {} else {})
      rw [cleared]
      exact ⟨Nat.zero_le _, fun _ => Nat.zero_le _⟩
    | false =>
      obtain rfl : c' = _ := quiet rfl
      have short := mt result.mpr Bool.false_ne_true
      push Not at short
      exact ⟨short, fun h => (by cases h), fun _ => rfl⟩

/-! ### A run of calls -/

theorem after_concat (max : Nat) (calls : List (ImbalanceCall n)) (call : ImbalanceCall n) :
    after max (calls ++ [call]) = (after max calls).called max call := by
  rw [after, List.foldl_append]
  rfl

theorem after_within {max : Nat} (small : max < 2 ^ 32 - 1) (calls : List (ImbalanceCall n)) :
    (after max calls).Within max := by
  induction calls using List.reverseRecOn with
  | nil => exact ⟨Nat.zero_le _, fun _ => Nat.zero_le _⟩
  | append_singleton calls call ih =>
    rw [after_concat]
    exact (within_called small ih call).1

/-- The counters count the streaks of `recent`. -/
def Counted (recent : List (ImbalanceCall n)) (c : ImbalanceCounts n) : Prop :=
  c.sucessiveCrossPartitionIntensive = streak ImbalanceCall.crossAbove (recent.filter ImbalanceCall.hasData) ∧
    ∀ i, c.sucessiveImbalance i = streak (fun call => call.above i) recent

theorem Counted.nextStreak {recent : List (ImbalanceCall n)} {c : ImbalanceCounts n} (counted : Counted recent c)
    (call : ImbalanceCall n) (i : Fin n) :
    nextStreak call c i = streak (fun call => call.above i) (recent ++ [call]) := by
  rw [streak_concat, ← counted.2 i]
  rfl

theorem Counted.nextCross {recent : List (ImbalanceCall n)} {c : ImbalanceCounts n} (counted : Counted recent c)
    (call : ImbalanceCall n) : nextCross call c =
      streak ImbalanceCall.crossAbove ((recent ++ [call]).filter ImbalanceCall.hasData) := by
  rw [List.filter_append]
  unfold ImbalanceCounts.nextCross
  by_cases data : call.hasData = true
  · rw [if_pos data, List.filter_singleton, data, cond_true, streak_concat, ← counted.1]
  · have none : [call].filter ImbalanceCall.hasData = [] := by simp [data]
    rw [if_neg data, none, List.append_nil]
    exact counted.1

/-- The calls after the last one that returned true are counted. -/
theorem counted_of_quiet {max : Nat} (small : max < 2 ^ 32 - 1) {before : List (ImbalanceCall n)}
    (start : after max before = {}) (recent : List (ImbalanceCall n))
    (quiet : EachAfter (fun earlier call => returned max (before ++ earlier) call = false) recent) :
    Counted recent (after max (before ++ recent)) := by
  induction recent using List.reverseRecOn with
  | nil =>
    rw [List.append_nil, start]
    exact ⟨rfl, fun _ => rfl⟩
  | append_singleton recent call ih =>
    have earlier := ih fun pre c post eq => quiet pre c (post ++ [call]) (by rw [eq]; simp)
    have last := quiet recent call [] rfl
    rw [← List.append_assoc, after_concat,
      (within_called small (after_within small _) call).2.2 last]
    exact ⟨earlier.nextCross call, fun i => earlier.nextStreak call i⟩

/-- **The detector is a debounce.** Take the calls `recent` after the last call that returned true, or after the
constructor. The next call returns true exactly if some partition is over the threshold in it and in each of the
`MaxSucessiveImbalances` calls before it, or it has data and the ratio is over in it and in each of the
`MaxSucessiveImbalances` calls with data before it. After true all counters are zero. This is `imbalance()` of
`OldImbScheduler` and of `AsyncImbScheduler`, with its early returns: where the ratio makes it return the partitions
are not looked at, and where a partition does the ones behind it are not. -/
theorem imbalance_debounces {max : Nat} (small : max < 2 ^ 32 - 1) {before recent : List (ImbalanceCall n)}
    (start : before = [] ∨ ∃ earlier last, before = earlier ++ [last] ∧ returned max earlier last = true)
    (quiet : EachAfter (fun earlier call => returned max (before ++ earlier) call = false) recent)
    (call : ImbalanceCall n) :
    (returned max (before ++ recent) call = true ↔
      (∃ p, HeldFor (fun call => call.above p) (max + 1) (recent ++ [call])) ∨
      (call.hasData = true ∧
        HeldFor ImbalanceCall.crossAbove (max + 1) ((recent ++ [call]).filter ImbalanceCall.hasData))) ∧
    (returned max (before ++ recent) call = true → after max (before ++ recent ++ [call]) = {}) := by
  have zero : after max before = {} := by
    rcases start with rfl | ⟨earlier, last, rfl, fired⟩
    · rfl
    · rw [after_concat]
      exact (within_called small (after_within small _) last).2.1 fired
  have within := after_within small (before ++ recent)
  have counted := counted_of_quiet small zero recent quiet
  refine ⟨(imbalance_spec small within call).1.trans ?_, fun fired => ?_⟩
  · simp only [← le_streak_iff, ← counted.nextStreak call, ← counted.nextCross call, Nat.succ_le_iff]
    rw [or_comm]
    refine or_congr Iff.rfl ⟨fun long => ⟨?_, long⟩, fun long => long.2⟩
    by_contra noData
    rw [ImbalanceCounts.nextCross, if_neg noData] at long
    exact absurd within.1 (Nat.not_le_of_lt long)
  · rw [after_concat]
    exact (within_called small within call).2.1 fired

/-- Both partitions below the threshold but one, which is over it in both calls. -/
theorem imbalance_debounces_two : returned 1 [⟨false, false, fun p => p = Fin.last 1, false⟩]
      ⟨true, false, fun p => p = Fin.last 1, false⟩ = true ∧
    HeldFor (fun call : ImbalanceCall 2 => call.above (Fin.last 1)) 2
      [⟨false, false, fun p => p = Fin.last 1, false⟩, ⟨true, false, fun p => p = Fin.last 1, false⟩] := by
  have quiet : EachAfter (fun earlier call => returned 1 ([] ++ earlier) call = false)
      [(⟨false, false, fun p => p = Fin.last 1, false⟩ : ImbalanceCall 2)] :=
    EachAfter.nil.snoc (by decide)
  have debounced := imbalance_debounces (n := 2) (by decide) (Or.inl rfl) quiet
    ⟨true, false, fun p => p = Fin.last 1, false⟩
  have held : HeldFor (fun call : ImbalanceCall 2 => call.above (Fin.last 1)) 2
      [⟨false, false, fun p => p = Fin.last 1, false⟩, ⟨true, false, fun p => p = Fin.last 1, false⟩] := by
    refine ⟨by decide, ?_⟩
    decide
  exact ⟨debounced.1.mpr (Or.inl ⟨Fin.last 1, held⟩), held⟩

end ImbalanceCounts

end KvPaxos
