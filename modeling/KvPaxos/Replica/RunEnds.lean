import KvPaxos.Replica.Run

/-!
# The replica's `run` comes to its end

`metrics_loop` could go round for ever while no other thread gets a turn; the sleep between two rounds is
there to prevent that. So a run is `Patient` if `metrics_loop` begins to add up only after a thread of the
process or `workload_loop` has made a statement since it last began. Every patient run writes the error
count: the messages are submitted, the process takes and executes them, then the next sum is the number
of messages, and the main thread has nothing left to wait for. As for the process alone, the file must fit into
the semaphores (`Short`).
-/

namespace KvPaxos

open Lib

variable {σ ℓ : Type} {n : Nat}

/-- What `workload_loop` and the main thread rely on to go on. -/
structure Client.Draining {F : Frontend σ ℓ n} (client : Client F) extends F.Draining where
  returned_iff : ∀ f, client.returned f = true ↔ ended f
  ended_kept : ∀ f l f', F.system.step f l = some f' → ended f → ended f'
  stop_ends : ∀ f l f' message, F.system.step f l = some f' → F.call f l = .stop message → ended f'
  submit_goes : ∀ f message, client.submitting f = false →
    (F.system.step f (client.submit message)).isSome ∧ F.call f (client.submit message) = .aside
  submitting_goes : ∀ f, client.submitting f = true →
    ∃ l, F.submits l = none ∧ (F.system.step f l).isSome ∧ F.call f l = .aside

namespace Run

variable {cfg : Config σ ℓ n} {s s' : State σ n}

/-! ### The scheduling thread returns -/

/-- A scheduling thread that has taken an END has returned. -/
def Returns (draining : cfg.client.Draining) (t : Process.State σ n) : Prop :=
  (∃ m ∈ t.taken, m.type = .END) → draining.ended t.front

/-- An END that has been taken has brought the scheduling thread out of its loop, and nothing brings it back. -/
theorem returns_move {draining : cfg.client.Draining} {t t' : Process.State σ n} {l : Process.Label ℓ n}
    (linked : Process.Linked cfg.process t) (clients : Process.FromClients cfg.process t l) (h : Returns draining t)
    (move : Process.Move cfg.process t l t') : Returns draining t' := by
  cases move with
  | aside step call | quiet step call =>
    intro taken
    exact draining.ended_kept _ _ _ step (h taken)
  | stop step call =>
    intro _
    exact draining.stop_ends _ _ _ _ step call
  | @dispatch l first rest f message mapping pool step call =>
    rintro ⟨m, mem, type⟩
    rcases List.mem_append.mp mem with old | new
    · exact draining.ended_kept _ _ _ step (h ⟨m, old, type⟩)
    · have asks := cfg.process.frontend.asks t.front l f linked.front clients step
      rw [call] at asks
      rw [List.mem_singleton.mp new] at type
      exact absurd type asks.dispatched.1
  | syncAll step call =>
    intro taken
    exact draining.ended_kept _ _ _ step (h taken)
  | push | work => exact h

theorem via_returns (draining : cfg.client.Draining) {t : Process.State σ n}
    (via : (Process.system cfg.process).Via (Process.FromClients cfg.process) t) : Returns draining t :=
  via.invariant (P := Returns draining) (fun ⟨_, mem, _⟩ => absurd mem List.not_mem_nil)
    fun _ _ _ via held clients step => returns_move (Process.via_linked via) clients held (Process.step_move step)

/-! ### A round nothing has stirred -/

/-- While nothing stirs, the sum under way is the present one; before the next round it is too small. -/
def Metrics.Fresh (messages : Nat) (executed : Fin n → Nat) : Metrics n → Prop
  | .counting tally => tally.worth executed = ∑ p, executed p
  | .testing executedRequests => executedRequests = ∑ p, executed p
  | .sleeping => ∑ p, executed p < messages
  | .ended => True

def Fresh (cfg : Config σ ℓ n) (s : State σ n) : Prop :=
  s.stirred = false → s.metrics.Fresh cfg.messages.length (executed s)

theorem fresh_move {l : Label ℓ n} (h : Fresh cfg s) (move : Move cfg s l s') : Fresh cfg s' := by
  cases move with
  | process | submit => exact nofun
  | again place less =>
    intro still
    have now := h still
    rw [place] at now
    exact now.symm.trans_lt less
  | finish => exact fun _ => True.intro
  | wake place lists => exact fun _ => Tally.worth_start lists.1 lists.2
  | add place next =>
    intro still
    have now := h still
    rw [place] at now
    exact (Tally.worth_next next).trans now
  | print place last =>
    intro still
    have now := h still
    rw [place] at now
    exact (Tally.worth_end last).symm.trans now
  | joinScheduler | joinWorkload | joinMetrics | sum | report => exact h

theorem reachable_fresh (reach : (system cfg).Reachable s) : Fresh cfg s :=
  reach.invariant (P := Fresh cfg) nofun fun _ _ _ held step => fresh_move held (step_move step)

/-! ### The rank -/

/-- The statements of `metrics_loop` until it sleeps again or ends. -/
def Metrics.left : Metrics n → Nat
  | .counting tally => tally.left.length + 2
  | .testing _ => 1
  | .sleeping | .ended => 0

/-- The statements of the main thread. -/
def Main.left : Main n → Nat
  | .joiningScheduler => n + 4
  | .joiningWorkload => n + 3
  | .joiningMetrics => n + 2
  | .counting tally => tally.left.length + 1
  | .reported _ => 0

/-- What is left to do for the two threads that only read, where a stirred process allows one more round. -/
def readersLeft (s : State σ n) : Nat := s.main.left + s.metrics.left + if s.stirred then n + 3 else 0

/-- A round begins only after something has stirred. -/
def Patient (_ : Config σ ℓ n) (s : State σ n) : Label ℓ n → Prop
  | .metrics _ => s.metrics = .sleeping → s.stirred = true
  | _ => True

def rank (draining : cfg.client.Draining) (s : State σ n) : Nat × (Nat × Nat) × Nat :=
  (s.left.length, Process.rank draining.toDraining s.process, readersLeft s)

/-- The order of the ranks. -/
abbrev Less : Nat × (Nat × Nat) × Nat → Nat × (Nat × Nat) × Nat → Prop :=
  Prod.Lex (· < ·) (Prod.Lex (Prod.Lex (· < ·) (· < ·)) (· < ·))

theorem less_wf : WellFounded Less := by
  have lt : WellFounded (· < · : Nat → Nat → Prop) := wellFounded_lt
  exact (Prod.lex ⟨_, lt⟩ (Prod.lex (Prod.lex ⟨_, lt⟩ ⟨_, lt⟩) ⟨_, lt⟩)).wf

theorem length_of_lists {order : List (Fin n)} (lists : Lists order) : order.length = n := by
  rw [← List.toFinset_card_of_nodup lists.1, lists.2, Finset.card_univ, Fintype.card_fin]

/-- **Every statement of a patient run lowers the rank.** -/
theorem rank_move {draining : cfg.client.Draining} {l : Label ℓ n} (patient : Patient cfg s l) (move : Move cfg s l s') :
    Less (rank draining s') (rank draining s) := by
  have readers : ∀ t : State σ n, t.left = s.left → t.process = s.process → readersLeft t < readersLeft s →
      Less (rank draining t) (rank draining s) := by
    intro t left process less
    simp only [rank, left, process]
    exact Prod.Lex.right _ (Prod.Lex.right _ less)
  cases move with
  | process inner step => exact Prod.Lex.right _ (Prod.Lex.left _ _ (Process.rank_move inner (Process.step_move step)))
  | submit left idle step =>
    refine Prod.Lex.left _ _ ?_
    show _ < s.left.length
    rw [left]
    exact Nat.lt_succ_self _
  | wake place lists =>
    refine readers _ rfl rfl ?_
    have length := length_of_lists lists
    simp only [readersLeft, place, patient place, Metrics.left, Tally.start, length, if_true, Bool.false_eq_true, if_false]
    omega
  | again place | finish place | print place =>
    refine readers _ rfl rfl ?_
    simp only [readersLeft, place, Metrics.left]
    omega
  | add place next =>
    refine readers _ rfl rfl ?_
    have length := Tally.length_next next
    simp only [readersLeft, place, Metrics.left, length]
    omega
  | joinScheduler place | joinWorkload place | report place =>
    refine readers _ rfl rfl ?_
    simp only [readersLeft, place, Main.left]
    omega
  | joinMetrics place metrics lists =>
    refine readers _ rfl rfl ?_
    have length := length_of_lists lists
    simp only [readersLeft, place, Main.left, Tally.start, length]
    omega
  | sum place next =>
    refine readers _ rfl rfl ?_
    have length := Tally.length_next next
    simp only [readersLeft, place, Main.left, length]
    omega

/-! ### There is always a statement to make -/

/-- A statement of a patient run can be made. -/
def Goes (cfg : Config σ ℓ n) (s : State σ n) : Prop := ∃ l, Patient cfg s l ∧ (step cfg s l).isSome

theorem goes_process {l : Process.Label ℓ n} (quiet : Process.Unsubmitting cfg.process s.process l)
    (enabled : (Process.step cfg.process s.process l).isSome) : Goes cfg s := by
  refine ⟨.process l, True.intro, ?_⟩
  rw [step, if_pos (inner_of_unsubmitting quiet), Option.isSome_map]
  exact enabled

/-- A submit that is under way goes on. -/
theorem goes_submitting (draining : cfg.client.Draining) (submitting : cfg.client.submitting s.process.front = true) :
    Goes cfg s := by
  obtain ⟨l, none, enabled, call⟩ := draining.submitting_goes _ submitting
  obtain ⟨f, step⟩ := Option.isSome_iff_exists.mp enabled
  refine goes_process (l := .front l []) none ?_
  simp only [Process.step, Process.front, step, Option.bind_some, call, Option.isSome_some]

/-- While messages are left, `workload_loop` goes on. -/
theorem goes_workload (draining : cfg.client.Draining) (more : s.left ≠ []) : Goes cfg s := by
  cases submitting : cfg.client.submitting s.process.front with
  | true => exact goes_submitting draining submitting
  | false =>
    cases left : s.left with
    | nil => exact absurd left more
    | cons message rest =>
      obtain ⟨enabled, call⟩ := draining.submit_goes _ message submitting
      obtain ⟨f, step⟩ := Option.isSome_iff_exists.mp enabled
      refine ⟨.workload, True.intro, ?_⟩
      simp only [Run.step, workload, left, submitting, Bool.false_eq_true, if_false, Process.step, Process.front, step,
        Option.bind_some, call, Option.map_some, Option.isSome_some]

theorem lists_finRange (n : Nat) : Lists (List.finRange n) := ⟨List.nodup_finRange n, by ext p; simp⟩

theorem Submitted.all (h : Submitted cfg s) (left : s.left = []) : s.process.submitted = cfg.messages ++ [cfg.endMessage] := by
  rw [← h.file, left, List.append_nil]

/-- With everything taken and nothing under way, every message has been executed. -/
theorem executed_finished (submitted : Submitted cfg s) (requests : ∀ m ∈ cfg.messages, m.IsRequest) (left : s.left = [])
    (finished : Process.Finished cfg.process s.process) : ∑ p, executed s p = cfg.messages.length := by
  have sound := Pool.reachable_sound requests (submitted.reachable requests)
  have taken : s.process.taken = cfg.messages ++ [cfg.endMessage] := by
    rw [← submitted.all left, submitted.linked.inOrder, finished.backlog, List.append_nil]
  have dispatched := submitted.linked.dispatched
  rw [taken, requests_file requests] at dispatched
  exact (finished.quiet.executed sound).trans dispatched

/-- **`metrics_loop` goes on**: with nothing else to do, it does not sleep unstirred. -/
theorem goes_metrics (submitted : Submitted cfg s) (requests : ∀ m ∈ cfg.messages, m.IsRequest) (fresh : Fresh cfg s)
    (left : s.left = []) (finished : Process.Finished cfg.process s.process) : s.metrics = .ended ∨ Goes cfg s := by
  cases place : s.metrics with
  | ended => exact Or.inl rfl
  | sleeping =>
    refine Or.inr ⟨.metrics (List.finRange n), fun _ => ?_, ?_⟩
    · by_contra still
      have less := fresh (Bool.eq_false_iff.mpr still)
      rw [place] at less
      exact absurd (executed_finished submitted requests left finished) (Nat.ne_of_lt less)
    · simp only [step, metrics, place, if_pos (lists_finRange n), Option.isSome_some]
  | testing executedRequests =>
    refine Or.inr ⟨.metrics [], by simp [Patient, place], ?_⟩
    simp only [step, metrics, place, Option.isSome_some]
  | counting tally =>
    refine Or.inr ⟨.metrics [], by simp [Patient, place], ?_⟩
    simp only [step, metrics, place]
    split <;> rfl

/-- With nothing else to do, the main thread goes on until it has written the error count. -/
theorem goes_main (draining : cfg.client.Draining) (submitted : Submitted cfg s) (left : s.left = [])
    (idle : cfg.client.submitting s.process.front = false) (finished : Process.Finished cfg.process s.process)
    (metrics : s.metrics = .ended) : (∃ errorCount, s.main = .reported errorCount) ∨ Goes cfg s := by
  have go : ∀ order, (main cfg s order).isSome → Goes cfg s := fun order enabled => ⟨.main order, True.intro, enabled⟩
  cases place : s.main with
  | joiningScheduler =>
    have taken : cfg.endMessage ∈ s.process.taken := by
      have all := submitted.all left
      rw [submitted.linked.inOrder, finished.backlog, List.append_nil] at all
      rw [all]
      exact List.mem_append_right _ List.mem_cons_self
    have ended := via_returns draining submitted.via ⟨_, taken, cfg.endType⟩
    refine Or.inr (go [] ?_)
    simp only [main, place, if_pos ((draining.returned_iff _).mpr ended), Option.isSome_some]
  | joiningWorkload =>
    have both : s.left = [] ∧ cfg.client.submitting s.process.front = false := ⟨left, idle⟩
    refine Or.inr (go [] ?_)
    simp only [main, place, if_pos both, Option.isSome_some]
  | joiningMetrics =>
    refine Or.inr (go (List.finRange n) ?_)
    simp only [main, place, metrics, if_pos (lists_finRange n), Option.isSome_some]
  | counting tally =>
    refine Or.inr (go [] ?_)
    simp only [main, place]
    split <;> rfl
  | reported errorCount => exact Or.inl ⟨errorCount, rfl⟩

/-- What is sent for the messages of the file and the END fits into the semaphores of the workers. -/
def Short (cfg : Config σ ℓ n) : Prop := 6 * (cfg.messages.length + 1) ≤ SEM_VALUE_MAX

instance (cfg : Config σ ℓ n) : Decidable (Short cfg) := inferInstanceAs (Decidable (_ ≤ _))

theorem Submitted.few (h : Submitted cfg s) (short : Short cfg) : Process.Few s.process := by
  have length := congrArg List.length h.file
  rw [List.length_append, List.length_append, List.length_singleton] at length
  unfold Process.Few
  unfold Short at short
  omega

/-- The whole program goes on until the error count is written. -/
theorem goes (draining : cfg.client.Draining) (requests : ∀ m ∈ cfg.messages, m.IsRequest) (short : Short cfg)
    (answerable : Pool.Answerable cfg.given) (submitted : Submitted cfg s) (fresh : Fresh cfg s) :
    (∃ errorCount, s.main = .reported errorCount) ∨ Goes cfg s := by
  by_cases left : s.left = []
  · have all := submitted.all left
    have given : cfg.process.given s.process = cfg.given := by
      rw [Process.Config.given, all, requests_file requests]
    have last : ∀ m ∈ s.process.submitted.dropLast, m.type ≠ .END := by
      rw [all, List.dropLast_concat]
      intro m mem type
      rcases (requests m mem).type with h | h | h <;> rw [h] at type <;> cases type
    have closed := Process.via_closed draining.toDraining submitted.via
    have paid := (Process.via_paced draining.toDraining submitted.via).paid submitted.linked (submitted.few short)
    rcases submitted.linked.goes closed paid (given ▸ answerable) last with finished | ⟨l, process, quiet, step⟩
    · cases submitting : cfg.client.submitting s.process.front with
      | true => exact Or.inr (goes_submitting draining submitting)
      | false =>
        rcases goes_metrics submitted requests fresh left finished with ended | go
        · exact goes_main draining submitted left submitting finished ended
        · exact Or.inr go
    · exact Or.inr (goes_process quiet (by rw [step]; rfl))
  · exact Or.inr (goes_workload draining left)

/-- **Every patient run writes the error count.** -/
theorem ends (draining : cfg.client.Draining) (requests : ∀ m ∈ cfg.messages, m.IsRequest) (short : Short cfg)
    (answerable : Pool.Answerable cfg.given) (reach : (system cfg).Reachable s) :
    (system cfg).Inevitable (Patient cfg) (fun t => ∃ errorCount, t.main = .reported errorCount) s := by
  refine System.inevitable_of_rank less_wf (rank draining) (P := (system cfg).Reachable) (fun t reach => ?_)
    (fun t l t' reach patient step => ⟨reach.step step, rank_move patient (step_move step)⟩) reach
  rcases goes draining requests short answerable (reachable_submitted requests reach) (reachable_fresh reach) with reported | go
  · exact Or.inl reported
  · obtain ⟨l, patient, enabled⟩ := go
    obtain ⟨t', step⟩ := Option.isSome_iff_exists.mp enabled
    exact Or.inr ⟨l, t', patient, step⟩

end Run

end KvPaxos
