import Mathlib.Logic.Relation
import Mathlib.Data.List.Induction
import Mathlib.Data.List.Nodup

/-!
# Labelled systems, their guarded runs and their traces

A `System` is one initial state and a step that is `none` where its label is not
enabled, so all nondeterminism (which thread moves, what the environment chooses)
sits in the labels and a run is computed by `exec`. `Via guard` is the set of states
of the runs each of whose steps meets `guard` at the state it leaves; `Reachable` is
the case of no guard. A `Simulation` relates the runs of one system to those of another
that takes a step, or none, for each of its steps.

A trace is the list of events of a run; `EachAfter P` says of every event that `P` holds
between the events before it and itself.
-/

namespace KvPaxos.Lib

/-- An initial state and a labelled step; `none` where the label is not enabled. -/
structure System (σ ℓ : Type*) where
  init : σ
  step : σ → ℓ → Option σ

namespace System

variable {σ ℓ : Type*} (M : System σ ℓ)

/-- The states of the runs whose every step `l` from `s` meets `guard s l`. -/
inductive Via (guard : σ → ℓ → Prop) : σ → Prop
  | init : Via guard M.init
  | step {s s' : σ} {l : ℓ} : Via guard s → guard s l → M.step s l = some s' → Via guard s'

/-- The states of all runs. -/
def Reachable : σ → Prop := M.Via fun _ _ => True

variable {M}

theorem Reachable.init : M.Reachable M.init := Via.init

theorem Reachable.step {s s' : σ} {l : ℓ} (h : M.Reachable s) (hs : M.step s l = some s') :
    M.Reachable s' :=
  Via.step h True.intro hs

/-- Guarded runs are runs. -/
theorem Via.reachable {guard : σ → ℓ → Prop} {s : σ} (h : M.Via guard s) : M.Reachable s := by
  induction h with
  | init => exact Via.init
  | step _ _ hs ih => exact ih.step hs

/-- A weaker guard has more runs. -/
theorem Via.mono {guard guard' : σ → ℓ → Prop} {s : σ} (h : M.Via guard s)
    (imp : ∀ s l, guard s l → guard' s l) : M.Via guard' s := by
  induction h with
  | init => exact Via.init
  | step _ met hs ih => exact ih.step (imp _ _ met) hs

/-- **The invariant rule** of guarded runs: the step may use that the state it leaves is
on a guarded run and that the guard was met there. -/
theorem Via.invariant {guard : σ → ℓ → Prop} {P : σ → Prop} {s : σ} (h : M.Via guard s)
    (init : P M.init)
    (keep : ∀ s l s', M.Via guard s → P s → guard s l → M.step s l = some s' → P s') : P s := by
  induction h with
  | init => exact init
  | step hv hg hs ih => exact keep _ _ _ hv ih hg hs

/-- **The invariant rule** of all runs. -/
theorem Reachable.invariant {P : σ → Prop} {s : σ} (h : M.Reachable s) (init : P M.init)
    (keep : ∀ s l s', P s → M.step s l = some s' → P s') : P s :=
  Via.invariant h init fun s l s' _ hp _ hs => keep s l s' hp hs

/-- The system that also keeps the labels of its run. -/
def recorded (M : System σ ℓ) : System (σ × List ℓ) ℓ where
  init := (M.init, [])
  step s l := (M.step s.1 l).map fun t => (t, s.2 ++ [l])

theorem recorded_step {s s' : σ × List ℓ} {l : ℓ} (hs : M.recorded.step s l = some s') :
    M.step s.1 l = some s'.1 ∧ s'.2 = s.2 ++ [l] := by
  obtain ⟨t, step, rfl⟩ := Option.map_eq_some_iff.mp hs
  exact ⟨step, rfl⟩

/-- Every state is reached with some labels. -/
theorem Reachable.recorded {s : σ} (h : M.Reachable s) : ∃ ls, M.recorded.Reachable (s, ls) := by
  refine h.invariant (P := fun s => ∃ ls, M.recorded.Reachable (s, ls)) ⟨[], Via.init⟩ ?_
  rintro s l s' ⟨ls, reachable⟩ step
  have recorded : M.recorded.step (s, ls) l = some (s', ls ++ [l]) := Option.map_eq_some_iff.mpr ⟨s', step, rfl⟩
  exact ⟨ls ++ [l], reachable.step recorded⟩

variable (M)

/-- The state after the labels `ls`, if each is enabled and meets `guard`. -/
def execVia (guard : σ → ℓ → Prop) [∀ s l, Decidable (guard s l)] : σ → List ℓ → Option σ
  | s, [] => some s
  | s, l :: ls => if guard s l then (M.step s l).bind fun s' => execVia guard s' ls else none

/-- The state after the labels `ls`, if each is enabled. -/
def exec : σ → List ℓ → Option σ
  | s, [] => some s
  | s, l :: ls => (M.step s l).bind fun s' => exec s' ls

variable {M}

theorem Via.exec {guard : σ → ℓ → Prop} [∀ s l, Decidable (guard s l)] {ls : List ℓ} :
    ∀ {s s' : σ}, M.Via guard s → M.execVia guard s ls = some s' → M.Via guard s' := by
  induction ls with
  | nil =>
    intro s s' h he
    cases he
    exact h
  | cons l ls ih =>
    intro s s' h he
    simp only [execVia] at he
    split at he
    · rename_i hg
      obtain ⟨t, ht, he⟩ := Option.bind_eq_some_iff.mp he
      exact ih (h.step hg ht) he
    · cases he

theorem Reachable.exec {ls : List ℓ} :
    ∀ {s s' : σ}, M.Reachable s → M.exec s ls = some s' → M.Reachable s' := by
  induction ls with
  | nil =>
    intro s s' h he
    cases he
    exact h
  | cons l ls ih =>
    intro s s' h he
    obtain ⟨t, ht, he⟩ := Option.bind_eq_some_iff.mp he
    exact ih (h.step ht) he

/-- A guarded run found by evaluation. -/
theorem exists_via (guard : σ → ℓ → Prop) [∀ s l, Decidable (guard s l)] {P : σ → Prop} [DecidablePred P]
    (ls : List ℓ) (h : (M.execVia guard M.init ls).any (fun s => P s) = true) : ∃ s, M.Via guard s ∧ P s := by
  cases he : M.execVia guard M.init ls with
  | none =>
    rw [he] at h
    cases h
  | some s =>
    rw [he] at h
    exact ⟨s, Via.exec Via.init he, of_decide_eq_true h⟩

/-- A run found by evaluation. -/
theorem exists_reachable {P : σ → Prop} [DecidablePred P] (ls : List ℓ)
    (h : (M.exec M.init ls).any (fun s => P s) = true) : ∃ s, M.Reachable s ∧ P s := by
  cases he : M.exec M.init ls with
  | none =>
    rw [he] at h
    cases h
  | some s =>
    rw [he] at h
    exact ⟨s, Reachable.exec Reachable.init he, of_decide_eq_true h⟩

/-- The system started in `s`. -/
def resume (M : System σ ℓ) (s : σ) : System σ ℓ := ⟨s, M.step⟩

/-- A step before a run. -/
theorem Reachable.after {s t u : σ} {l : ℓ} (hs : M.step s l = some t) (h : (M.resume t).Reachable u) :
    (M.resume s).Reachable u := by
  refine Reachable.invariant (P := (M.resume s).Reachable) h ?_ fun _ _ _ before step => before.step step
  exact Reachable.step (M := M.resume s) Reachable.init hs

theorem Reachable.trans {s t : σ} (h : M.Reachable s) (later : (M.resume s).Reachable t) : M.Reachable t :=
  Reachable.invariant (P := M.Reachable) later h fun _ _ _ before step => before.step step

/-- Nothing comes after a state without a step. -/
theorem eq_of_stuck {s t : σ} (stuck : ∀ l, M.step s l = none) (h : (M.resume s).Reachable t) : t = s := by
  refine Reachable.invariant (P := fun t => t = s) h rfl ?_
  rintro u l u' rfl step
  have none : M.step u l = some u' := step
  rw [stuck l] at none
  cases none

/-- **The progress rule**: where every step but the last lowers a measure, the last is reached. -/
theorem exists_settled {P goal : σ → Prop} (measure : σ → Nat)
    (go : ∀ s, P s → goal s ∨ ∃ l s', M.step s l = some s' ∧ P s' ∧ measure s' < measure s) {s : σ} (h : P s) :
    ∃ t, (M.resume s).Reachable t ∧ goal t := by
  induction hm : measure s using Nat.strongRecOn generalizing s with
  | _ m ih =>
    rcases go s h with reached | ⟨l, s', step, held, less⟩
    · exact ⟨s, Reachable.init (M := M.resume s), reached⟩
    · obtain ⟨t, later, reached⟩ := ih (measure s') (hm ▸ less) held rfl
      exact ⟨t, later.after step, reached⟩

section Simulation

variable {τ κ : Type*} {N : System τ κ} {guard : σ → ℓ → Prop} {R : σ → τ → Prop}

/-- `R` is a forward simulation of the guarded runs of `M` by `N`: a step of `M` is matched by one
step of `N`, or by none. -/
structure Simulation (M : System σ ℓ) (N : System τ κ) (guard : σ → ℓ → Prop) (R : σ → τ → Prop) : Prop where
  init : R M.init N.init
  step : ∀ s l s' t, M.Via guard s → R s t → guard s l → M.step s l = some s' →
    R s' t ∨ ∃ k t', N.step t k = some t' ∧ R s' t'

/-- **The simulation rule**: a guarded run of `M` is related to some run of `N`. -/
theorem Simulation.exists_related (sim : Simulation M N guard R) {s : σ} (h : M.Via guard s) :
    ∃ t, N.Reachable t ∧ R s t := by
  apply h.invariant (P := fun s => ∃ t, N.Reachable t ∧ R s t)
  · exact ⟨N.init, Reachable.init, sim.init⟩
  · rintro s l s' via ⟨t, reachable, related⟩ met step
    rcases sim.step s l s' t via related met step with stutter | ⟨k, t', matched, related'⟩
    · exact ⟨t, reachable, stutter⟩
    · exact ⟨t', reachable.step matched, related'⟩

end Simulation

end System

section Trace

variable {α β : Type*}

/-- `P pre a` for every event `a` of the trace and the events `pre` before it. -/
def EachAfter (P : List α → α → Prop) (l : List α) : Prop :=
  ∀ pre a post, l = pre ++ a :: post → P pre a

namespace EachAfter

variable {P Q : List α → α → Prop} {l : List α} {a : α}

theorem nil : EachAfter P [] := by
  intro pre a post h
  have := congrArg List.length h
  simp at this

/-- One more event. -/
theorem snoc (h : EachAfter P l) (ha : P l a) : EachAfter P (l ++ [a]) := by
  intro pre b post eq
  rcases List.eq_nil_or_concat post with rfl | ⟨post, c, rfl⟩
  · obtain ⟨same, eq⟩ := List.append_inj' eq rfl
    rw [← same, ← List.singleton_inj.mp eq]
    exact ha
  · rw [List.concat_eq_append, ← List.cons_append, ← List.append_assoc] at eq
    exact h pre b post (List.append_inj_left' eq rfl)

theorem mono (h : EachAfter P l) (imp : ∀ pre a, P pre a → Q pre a) : EachAfter Q l :=
  fun pre a post eq => imp pre a (h pre a post eq)

/-- What no event repeats is recorded without duplicates. -/
theorem nodup {f : α → Option β} (h : EachAfter (fun pre a => ∀ b, f a = some b → b ∉ pre.filterMap f) l) :
    (l.filterMap f).Nodup := by
  induction l using List.reverseRecOn with
  | nil => exact List.nodup_nil
  | append_singleton l a ih =>
    rw [List.filterMap_append]
    have before : EachAfter (fun pre a => ∀ b, f a = some b → b ∉ pre.filterMap f) l :=
      fun pre b post eq => h pre b (post ++ [a]) (by rw [eq]; simp)
    have last := h l a [] rfl
    cases ha : f a with
    | none => simpa [ha] using ih before
    | some b =>
      simp only [List.filterMap_cons, ha, List.filterMap_nil]
      refine List.nodup_append.mpr ⟨ih before, List.nodup_singleton b, ?_⟩
      rintro x mem y mem' rfl
      cases List.mem_singleton.mp mem'
      exact last _ ha mem

end EachAfter

end Trace

end KvPaxos.Lib
