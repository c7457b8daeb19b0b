import Mathlib.Data.List.DropRight

/-!
# Streaks

How many of the last elements of a list, in a row, meet a test. A counter that goes up on each
element that meets the test and back to zero on each other one counts the streak, and it has
reached `m` exactly if each of the last `m` elements meets the test.
-/

namespace KvPaxos.Lib

variable {α : Type*} {P : α → Bool} {l : List α} {a : α} {m : Nat}

/-- There are `m` last elements, and each meets the test. -/
def HeldFor (P : α → Bool) (m : Nat) (l : List α) : Prop :=
  m ≤ l.length ∧ ∀ a ∈ l.drop (l.length - m), P a = true

/-- How many elements in a row, at the end of the list, meet the test. -/
def streak (P : α → Bool) (l : List α) : Nat := (l.rtakeWhile P).length

@[simp] theorem streak_nil : streak P [] = 0 := by
  rw [streak, List.rtakeWhile_nil, List.length_nil]

/-- The counter of the streak. -/
theorem streak_concat : streak P (l ++ [a]) = if P a = true then streak P l + 1 else 0 := by
  unfold streak
  rw [List.rtakeWhile_concat]
  split
  · rw [List.length_append, List.length_singleton]
  · rw [List.length_nil]

theorem heldFor_zero : HeldFor P 0 l := by
  refine ⟨Nat.zero_le _, fun a mem => ?_⟩
  rw [Nat.sub_zero, List.drop_length] at mem
  cases mem

theorem heldFor_concat : HeldFor P (m + 1) (l ++ [a]) ↔ P a = true ∧ HeldFor P m l := by
  unfold HeldFor
  have length : (l ++ [a]).length - (m + 1) = l.length - m := by
    rw [List.length_append, List.length_singleton]
    omega
  rw [length, List.drop_append_of_le_length (Nat.sub_le _ _), List.length_append, List.length_singleton]
  simp only [List.mem_append, List.mem_singleton]
  constructor
  · rintro ⟨enough, all⟩
    exact ⟨all a (Or.inr rfl), by omega, fun b mem => all b (Or.inl mem)⟩
  · rintro ⟨last, enough, all⟩
    refine ⟨by omega, fun b mem => ?_⟩
    rcases mem with mem | rfl
    · exact all b mem
    · exact last

/-- The streak is at least `m` long exactly if each of the last `m` elements meets the test. -/
theorem le_streak_iff : m ≤ streak P l ↔ HeldFor P m l := by
  induction l using List.reverseRecOn generalizing m with
  | nil =>
    cases m with
    | zero => exact iff_of_true (Nat.zero_le _) heldFor_zero
    | succ m => exact iff_of_false (by simp) fun held => absurd held.1 (Nat.not_succ_le_zero m)
  | append_singleton l a ih =>
    cases m with
    | zero => exact iff_of_true (Nat.zero_le _) heldFor_zero
    | succ m =>
      rw [streak_concat, heldFor_concat, ← ih]
      by_cases meets : P a = true
      · rw [if_pos meets]
        simp only [meets, true_and]
        omega
      · rw [if_neg meets]
        exact iff_of_false (Nat.not_succ_le_zero m) fun held => meets held.1

end KvPaxos.Lib
