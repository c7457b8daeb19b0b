import Mathlib.Data.List.Chain

/-!
# Marks at a distance

Values of a counter at which something was done, in order. They are spaced if the counter was
`interval` or more at the first and has gone up by that much between each and the next, so what is
spaced happens at most once in `interval` counts.
-/

namespace KvPaxos.Lib

variable {interval m : Nat} {marks : List Nat}

/-- The last mark, 0 where there is none. -/
def lastMark (marks : List Nat) : Nat := marks.getLast?.getD 0

/-- Each mark is `interval` or more after the one before it, the first after 0. -/
def Spaced (interval : Nat) (marks : List Nat) : Prop :=
  (0 :: marks).IsChain fun a b => a + interval ≤ b

@[simp] theorem lastMark_nil : lastMark [] = 0 := rfl

@[simp] theorem lastMark_snoc : lastMark (marks ++ [m]) = m := by
  rw [lastMark, List.getLast?_concat, Option.getD_some]

theorem spaced_nil : Spaced interval [] := List.IsChain.singleton 0

/-- One more mark. -/
theorem spaced_snoc : Spaced interval (marks ++ [m]) ↔ Spaced interval marks ∧ lastMark marks + interval ≤ m := by
  have last : (0 :: marks).getLast? = some (lastMark marks) := List.getLast?_cons
  unfold Spaced
  rw [← List.cons_append, List.isChain_append, last]
  simp

/-- Spaced marks are few. -/
theorem Spaced.length_mul_le (h : Spaced interval marks) : marks.length * interval ≤ lastMark marks := by
  induction marks using List.reverseRecOn with
  | nil => rw [List.length_nil, Nat.zero_mul, lastMark_nil]
  | append_singleton marks m ih =>
    obtain ⟨before, next⟩ := spaced_snoc.mp h
    have few := ih before
    rw [List.length_append, List.length_singleton, Nat.succ_mul, lastMark_snoc]
    omega

end KvPaxos.Lib
