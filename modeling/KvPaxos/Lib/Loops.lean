import Mathlib.Data.List.Induction

/-!
# Loops that may throw

A `for` loop whose body may throw is `List.foldlM` into `Option`. The rule here is the one
for such a loop: an invariant of the elements visited so far and the state, kept by every
round, whose body is shown not to throw.
-/

namespace KvPaxos.Lib

variable {σ α : Type*}

/-- **The loop rule.** The rounds are those of `l`: each finds the elements before it visited. -/
theorem foldlM_invariant {f : σ → α → Option σ} {l : List α} (P : List α → σ → Prop) {s : σ} (init : P [] s)
    (round : ∀ done a rest s, l = done ++ a :: rest → P done s → ∃ s', f s a = some s' ∧ P (done ++ [a]) s') :
    ∃ s', l.foldlM f s = some s' ∧ P l s' := by
  induction l using List.reverseRecOn with
  | nil => exact ⟨s, rfl, init⟩
  | append_singleton l a ih =>
    have before : ∀ done b rest s, l = done ++ b :: rest → P done s → ∃ s', f s b = some s' ∧ P (done ++ [b]) s' := by
      intro done b rest s eq
      exact round done b (rest ++ [a]) s (by rw [eq, List.append_assoc, List.cons_append])
    obtain ⟨s', ran, keep⟩ := ih before
    obtain ⟨s'', last, keep⟩ := round l a [] s' rfl keep
    refine ⟨s'', ?_, keep⟩
    rw [List.foldlM_append, ran]
    show List.foldlM f s' [a] = some s''
    rw [List.foldlM_cons, last]
    rfl

end KvPaxos.Lib
