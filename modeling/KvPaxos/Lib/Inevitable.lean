import KvPaxos.Lib.System
import Mathlib.Order.WellFounded

/-!
# What every run comes to

`exists_settled` finds one run to a goal. Here no step can be taken that leads away from it: every run
whose steps meet the guard comes to the goal, and none stops before.
-/

namespace KvPaxos.Lib.System

variable {σ ℓ : Type*} {M : System σ ℓ} {guard guard' : σ → ℓ → Prop} {goal : σ → Prop} {s t u : σ}

/-- A guarded step before a guarded run. -/
theorem Via.after {l : ℓ} (met : guard s l) (hs : M.step s l = some t) (h : (M.resume t).Via guard u) :
    (M.resume s).Via guard u := by
  refine Via.invariant (P := (M.resume s).Via guard) h ?_ fun _ _ _ _ before met step => before.step met step
  exact Via.step (M := M.resume s) Via.init met hs

theorem Via.trans (h : M.Via guard s) (later : (M.resume s).Via guard' t) (imp : ∀ s l, guard' s l → guard s l) :
    M.Via guard t :=
  Via.invariant (P := M.Via guard) later h fun s l _ _ before met step => before.step (imp s l met) step

/-- Whatever guarded steps are taken from `s`, a state with `goal` comes, and until then there is one to take. -/
inductive Inevitable (M : System σ ℓ) (guard : σ → ℓ → Prop) (goal : σ → Prop) : σ → Prop
  | now {s : σ} : goal s → Inevitable M guard goal s
  | later {s : σ} : (∃ l s', guard s l ∧ M.step s l = some s') →
      (∀ l s', guard s l → M.step s l = some s' → Inevitable M guard goal s') → Inevitable M guard goal s

/-- Some guarded run gets there. -/
theorem Inevitable.exists_reached (h : Inevitable M guard goal s) : ∃ t, (M.resume s).Via guard t ∧ goal t := by
  induction h with
  | now reached => exact ⟨_, Via.init (M := M.resume _), reached⟩
  | later go _ ih =>
    obtain ⟨l, s', met, step⟩ := go
    obtain ⟨t, run, reached⟩ := ih l s' met step
    exact ⟨t, run.after met step, reached⟩

/-- What every step keeps holds at the goal too. -/
theorem Inevitable.with_invariant {P goal' : σ → Prop} (h : Inevitable M guard goal s)
    (keep : ∀ s l s', P s → guard s l → M.step s l = some s' → P s') (imp : ∀ s, P s → goal s → goal' s) (held : P s) :
    Inevitable M guard goal' s := by
  induction h with
  | now reached => exact .now (imp _ held reached)
  | later go _ ih => exact .later go fun l s' met step => ih l s' met step (keep _ l s' held met step)

/-- **The termination rule**: every guarded step keeps `P` and lowers a rank, and there is one before the goal. -/
theorem inevitable_of_rank {β : Type*} {r : β → β → Prop} (wf : WellFounded r) (rank : σ → β) {P : σ → Prop}
    (go : ∀ s, P s → goal s ∨ ∃ l s', guard s l ∧ M.step s l = some s')
    (keep : ∀ s l s', P s → guard s l → M.step s l = some s' → P s' ∧ r (rank s') (rank s)) (h : P s) :
    Inevitable M guard goal s := by
  induction hr : rank s using wf.induction generalizing s with
  | _ b ih =>
    rcases go s h with reached | more
    · exact .now reached
    · refine .later more fun l s' met step => ?_
      obtain ⟨held, less⟩ := keep s l s' h met step
      exact ih (rank s') (hr ▸ less) held rfl

end KvPaxos.Lib.System
