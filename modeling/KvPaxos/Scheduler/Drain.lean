import KvPaxos.Lib.Inevitable
import KvPaxos.Queue.Queue
import KvPaxos.Scheduler.Completion
import KvPaxos.Scheduler.Process

/-!
# Every run of the process comes to its end

Once nothing is submitted any more, the threads of a scheduler use up the posts of their semaphores, and
the workers the calls they were given. A `Draining` frontend says so of its own threads: its statements
lower a measure, and while there is a message to take and no END was met, one of them has a statement to
make. The calls of a dispatch and of a repartition are paid for by the statement that makes them, so the
process has a lexicographic measure, and no interleaving keeps it from taking and executing everything.

This holds of workloads whose messages fit into the semaphores. A scheduling thread calls
`sync_all_partitions` at most once for each message it dispatches, so a worker is sent fewer than six
messages for each submitted one, and no post of `push_request` is lost while these are at most `SEM_VALUE_MAX`.
-/

namespace KvPaxos

open Lib

section Queue

variable {α : Type} {q q' : Queue α} {h : Fin 2} {value : α}

theorem Queue.mem_pushTo {i : Fin 2} {a : α} (mem : a ∈ (q.pushTo h value).queues i) : a ∈ q.queues i ∨ a = value := by
  simp only [Queue.pushTo, Function.update_apply] at mem
  split at mem
  · rename_i eq
    rw [eq]
    exact (List.mem_append.mp mem).imp id List.mem_singleton.mp
  · exact Or.inl mem

theorem Queue.mem_popFront (front : q.popFront h = some (value, q')) :
    value ∈ q.queues h ∧ ∀ i, ∀ a ∈ q'.queues i, a ∈ q.queues i := by
  obtain ⟨rest, queued, rfl⟩ := Queue.popFront_eq_some.mp front
  refine ⟨by rw [queued]; exact List.mem_cons_self, fun i a mem => ?_⟩
  simp only [Function.update_apply] at mem
  split at mem
  · rename_i eq
    rw [eq, queued]
    exact List.mem_cons_of_mem _ mem
  · exact mem

/-- The head of a queue that holds something can be popped. -/
theorem Queue.popFront_isSome (some : q.queues h ≠ []) : (q.popFront h).isSome := by
  unfold Queue.popFront
  split
  · exact absurd ‹_› some
  · rfl

end Queue

/-- How many calls of `dispatch` and of `sync_all_partitions` a statement makes. -/
def Call.dispatches : Call → Nat
  | .dispatch _ => 1
  | .aside | .quiet | .stop _ | .syncAll => 0

def Call.syncs : Call → Nat
  | .syncAll => 1
  | .aside | .quiet | .stop _ | .dispatch _ => 0

/-- What brings the threads of a scheduler to rest. -/
structure Frontend.Draining {σ ℓ : Type} {n : Nat} (F : Frontend σ ℓ n) where
  /-- The statements that the posts so far still allow. -/
  work : σ → Nat
  work_step : ∀ f l f', F.system.step f l = some f' → F.submits l = none → work f' < work f
  /-- The scheduling thread has left its loop. -/
  ended : σ → Prop
  ended_init : ¬ended F.system.init
  ended_step : ∀ f l f', F.system.step f l = some f' → ended f' → ended f ∨ ∃ message, F.call f l = .stop message
  goes : ∀ f, F.system.Via F.FromClients f → F.backlog f ≠ [] → ¬ended f →
    ∃ l f', F.submits l = none ∧ F.system.step f l = some f'
  /-- The calls of `sync_all_partitions` that the dispatches so far still allow. -/
  credit : σ → Nat
  credit_init : credit F.system.init = 0
  credit_step : ∀ f l f', F.system.step f l = some f' → credit f' + (F.call f l).syncs ≤ credit f + (F.call f l).dispatches

namespace Process

variable {σ ℓ : Type} {n : Nat} {cfg : Config σ ℓ n} {s s' : State σ n}

/-- Nothing is submitted. -/
def Unsubmitting (cfg : Config σ ℓ n) (_ : State σ n) : Label ℓ n → Prop
  | .front l _ => cfg.frontend.submits l = none
  | _ => True

theorem Unsubmitting.fromClients {l : Label ℓ n} (h : Unsubmitting cfg s l) : FromClients cfg s l := by
  cases l with
  | front l order =>
    intro m mem
    rw [h] at mem
    cases mem
  | _ => exact True.intro

theorem Unsubmitting.submitted {l : Label ℓ n} (h : Unsubmitting cfg s l) (move : Move cfg s l s') :
    s'.submitted = s.submitted := by
  have none : ∀ l order, Unsubmitting cfg s (.front l order) → s.submitted ++ (cfg.frontend.submits l).toList = s.submitted := by
    intro l order h
    rw [show cfg.frontend.submits l = none from h, Option.toList_none, List.append_nil]
  cases move with
  | aside | quiet | stop | dispatch | syncAll => exact none _ _ h
  | push | work => rfl

/-- A scheduling thread that has ended has taken an END. -/
def Closed (draining : cfg.frontend.Draining) (s : State σ n) : Prop :=
  draining.ended s.front → ∃ m ∈ s.taken, m.type = .END

/-- The scheduling thread leaves its loop on an END that it has taken, and nothing brings it back. -/
theorem closed_move {draining : cfg.frontend.Draining} {l : Label ℓ n} (linked : Linked cfg s) (h : Closed draining s)
    (clients : FromClients cfg s l) (move : Move cfg s l s') : Closed draining s' := by
  have before : ∀ l f, cfg.frontend.system.step s.front l = some f → (∀ message, cfg.frontend.call s.front l ≠ .stop message) →
      draining.ended f → ∃ m ∈ s.taken, m.type = .END := by
    intro l f step other ended
    rcases draining.ended_step _ _ _ step ended with already | ⟨message, call⟩
    · exact h already
    · exact absurd call (other message)
  cases move with
  | aside step call | quiet step call =>
    intro ended
    exact before _ _ step (by simp [call]) ended
  | @stop l order f message step call =>
    intro _
    have asks := cfg.frontend.asks s.front l f linked.front clients step
    rw [call] at asks
    exact ⟨message, List.mem_append_right _ (List.mem_singleton_self _), asks.stopped⟩
  | dispatch step call =>
    intro ended
    obtain ⟨m, mem, type⟩ := before _ _ step (by simp [call]) ended
    exact ⟨m, List.mem_append_left _ mem, type⟩
  | syncAll step call =>
    intro ended
    exact before _ _ step (by simp [call]) ended
  | push | work => exact h

theorem via_closed (draining : cfg.frontend.Draining) (via : (system cfg).Via (FromClients cfg) s) : Closed draining s :=
  via.invariant (P := Closed draining) (fun ended => absurd ended draining.ended_init)
    fun _ _ _ via closed clients step => closed_move (via_linked via) closed clients (step_move step)

/-! ### The messages that are sent -/

/-- The calls made so far are those of the dispatches and of at most as many repartitions. -/
def Paced (draining : cfg.frontend.Draining) (s : State σ n) : Prop :=
  s.pool.issue + 3 * draining.credit s.front ≤ 6 * s.pool.dispatched

/-- A dispatch takes three issue numbers for its calls and leaves credit for three more, which the repartition that
may follow it takes. -/
theorem paced_move {draining : cfg.frontend.Draining} {l : Label ℓ n} (h : Paced draining s) (move : Move cfg s l s') :
    Paced draining s' := by
  have credit := fun l f step => draining.credit_step s.front l f step
  unfold Paced at h ⊢
  cases move with
  | aside step call | quiet step call | stop step call =>
    have next := credit _ _ step
    rw [call] at next
    simp only [Call.syncs, Call.dispatches] at next
    dsimp only
    omega
  | dispatch step call live dispatched =>
    have next := credit _ _ step
    rw [call] at next
    cases Pool.dispatch_cases dispatched with
    | mk =>
      simp only [Call.syncs, Call.dispatches] at next
      dsimp only
      omega
  | syncAll step call live synced =>
    have next := credit _ _ step
    rw [call] at next
    cases Pool.repartition_cases synced with
    | mk =>
      simp only [Call.syncs, Call.dispatches] at next
      dsimp only
      omega
  | @push pool step =>
    have move := Pool.push_cases step
    have same : pool.issue = s.pool.issue := by cases move <;> rfl
    dsimp only
    rw [move.dispatched_eq, same]
    exact h
  | work step =>
    have same := (Pool.work_cases step).sameCalls
    dsimp only
    rw [same.dispatched, same.issue]
    exact h

theorem via_paced (draining : cfg.frontend.Draining) (via : (system cfg).Via (FromClients cfg) s) : Paced draining s := by
  refine via.invariant (P := Paced draining) ?_ fun _ _ _ _ paced _ step => paced_move paced (step_move step)
  show 0 + 3 * draining.credit cfg.frontend.system.init ≤ 6 * 0
  rw [draining.credit_init]

/-- The values the frontends count without a limit stay in the range of the code's types: no item or distance
semaphore gets past `SEM_VALUE_MAX`, so no `sem_post` on one finds it full, and `n_dispatched_requests_` is an `int`. -/
structure Within (queue : Queue ClientMessage) (nDispatchedRequests : Nat) : Prop where
  items : ∀ h, queue.semaphores h ≤ SEM_VALUE_MAX
  aheads : ∀ h, queue.aheadSems h ≤ SEM_VALUE_MAX
  dispatched : nDispatchedRequests < 2 ^ 31

/-- What is sent for the submitted messages fits into the semaphores of the workers. -/
def Few (s : State σ n) : Prop := 6 * s.submitted.length ≤ SEM_VALUE_MAX

/-- On such a workload no post of `push_request` is lost. -/
theorem Paced.paid {draining : cfg.frontend.Draining} (paced : Paced draining s) (linked : Linked cfg s) (few : Few s)
    (p : Fin n) : Pool.Paid s.pool p := by
  have sound := Pool.reachable_sound linked.areRequests linked.reachable
  have sent := sound.planned.length_le p
  have taken : (requests s.taken).length ≤ s.submitted.length := by
    rw [linked.inOrder, List.length_append]
    exact (List.length_filter_le _ _).trans (Nat.le_add_right _ _)
  have dispatched := linked.dispatched
  refine sound.short p ?_
  unfold Pool.plan at sent
  unfold Paced at paced
  unfold Few at few
  rw [List.length_append] at sent
  omega

/-- What is left to do: by the scheduler's threads, and by the workers. -/
def rank (draining : cfg.frontend.Draining) (s : State σ n) : Nat × Nat :=
  (draining.work s.front, Pool.effort (cfg.pool []) s.pool)

/-- **Every statement but a submit lowers the rank.** -/
theorem rank_move {draining : cfg.frontend.Draining} {l : Label ℓ n} (quiet : Unsubmitting cfg s l)
    (move : Move cfg s l s') : Prod.Lex (· < ·) (· < ·) (rank draining s') (rank draining s) := by
  cases move with
  | aside step | quiet step | stop step | dispatch step | syncAll step =>
    exact Prod.Lex.left _ _ (draining.work_step _ _ _ step quiet)
  | push step => exact Prod.Lex.right _ (Pool.effort_push (Pool.push_cases step))
  | work step => exact Prod.Lex.right _ (Pool.effort_work (Pool.work_cases step))

/-! ### There is always a statement to make -/

/-- The requests of the workers, as far as they have been submitted. -/
abbrev Config.given (cfg : Config σ ℓ n) (s : State σ n) : KvPaxos.Config n := cfg.pool (requests s.submitted)

/-- Where nothing is under way at the partitions, every statement of the scheduler's threads can be made. -/
theorem Linked.front_enabled (linked : Linked cfg s) (quiet : Pool.Quiescent s.pool) {l : ℓ} {f : σ}
    (none : cfg.frontend.submits l = none) (step : cfg.frontend.system.step s.front l = some f) :
    ∃ order, (Process.step cfg s (.front l order)).isSome := by
  have ready : s.pool.stage = .ready ∧ s.pool.todo = [] := ⟨quiet.stage, quiet.todo⟩
  have clients : cfg.frontend.FromClients s.front l := by
    intro m mem
    rw [none] at mem
    cases mem
  have asks := cfg.frontend.asks s.front l f linked.front clients step
  cases call : cfg.frontend.call s.front l with
  | aside => exact ⟨[], by simp only [Process.step, Process.front, step, Option.bind_some, call, Option.isSome_some]⟩
  | quiet | stop message =>
    exact ⟨[], by simp only [Process.step, Process.front, step, Option.bind_some, call, if_pos ready, Option.isSome_some]⟩
  | dispatch message =>
    rw [call] at asks
    obtain ⟨notEnd, -, m, m', partitions, live, -, involved⟩ := asks.dispatched
    have taken : requests (s.taken ++ [message]) = requests s.taken ++ [message] := by
      rw [requests_append]
      simp [requests, notEnd]
    have order := cfg.frontend.backlog_step s.front l f linked.front clients step
    rw [call, Call.taken, none, Option.toList_none, List.append_nil] at order
    have areRequests : ∀ r ∈ requests (s.taken ++ [message]), r.IsRequest := by
      intro r mem
      refine linked.areRequests r (List.mem_of_mem_filter mem |> fun inside => ?_)
      refine List.mem_filter.mpr ⟨?_, (List.mem_filter.mp mem).2⟩
      rw [linked.inOrder, ← order]
      rcases List.mem_append.mp inside with old | new
      · exact List.mem_append_left _ old
      · exact List.mem_append_right _ (List.mem_append_left _ new)
    have more : s.pool.dispatched < (requests (s.taken ++ [message])).length := by
      rw [taken, List.length_append, ← linked.dispatched]
      exact Nat.lt_succ_self _
    have quiet' : Pool.Quiescent { s.pool with mapping := m } := ⟨quiet.todo, quiet.stage, quiet.workers⟩
    obtain ⟨first, rest, pool, dispatched⟩ : ∃ first rest pool,
        Pool.dispatch (cfg.pool (requests (s.taken ++ [message]))) { s.pool with mapping := m } first rest = some pool :=
      Pool.exists_dispatch areRequests quiet' more
    refine ⟨first :: rest, ?_⟩
    simp only [Process.step, Process.front, step, Option.bind_some, call, Call.taken, live, dispatched, Option.map_some,
      Option.isSome_some]
  | syncAll =>
    rw [call] at asks
    obtain ⟨m, m', -, live, -⟩ := asks.synced
    have all : (List.finRange n).Nodup ∧ (List.finRange n).toFinset = Finset.univ :=
      ⟨List.nodup_finRange n, by ext p; simp⟩
    refine ⟨List.finRange n, ?_⟩
    simp only [Process.step, Process.front, step, Option.bind_some, call, live, Pool.repartition, quiet.stage, quiet.todo,
      if_pos all, Option.map_some, Option.isSome_some]

/-- A process with a message to take, or with something under way at a partition, goes on. -/
theorem Linked.goes {draining : cfg.frontend.Draining} (linked : Linked cfg s) (closed : Closed draining s)
    (paid : ∀ p, Pool.Paid s.pool p) (answerable : Pool.Answerable (cfg.given s)) (last : ∀ m ∈ s.submitted.dropLast, m.type ≠ .END) :
    Finished cfg s ∨ ∃ l s', Unsubmitting cfg s l ∧ Process.step cfg s l = some s' := by
  have reach := linked.reachable
  have uniform := (Storage.populated_spec (z := cfg.compresser) cfg.populated).1
  have sound := Pool.reachable_sound linked.areRequests reach
  by_cases outstanding : Pool.Outstanding s.pool
  · refine Or.inr ?_
    have alive := answerable.alive linked.areRequests uniform reach
    rcases (outstanding.enabled sound paid).resolve_right fun ⟨p, ends⟩ => alive p ends with pushes | ⟨p, serial, works⟩
    · obtain ⟨pool, step⟩ := Option.isSome_iff_exists.mp pushes
      exact ⟨.push, _, True.intro, Option.map_eq_some_iff.mpr ⟨pool, step, rfl⟩⟩
    · obtain ⟨pool, step⟩ := Option.isSome_iff_exists.mp works
      exact ⟨.work p serial, _, True.intro, Option.map_eq_some_iff.mpr ⟨pool, step, rfl⟩⟩
  · have quiet := (Pool.quiescent_iff sound.accounted).mpr outstanding
    by_cases empty : cfg.frontend.backlog s.front = []
    · exact Or.inl ⟨empty, quiet⟩
    · refine Or.inr ?_
      have running : ¬draining.ended s.front := by
        intro ended
        obtain ⟨m, mem, type⟩ := closed ended
        refine last m ?_ type
        rw [linked.inOrder, List.dropLast_append_of_ne_nil empty]
        exact List.mem_append_left _ mem
      obtain ⟨l, f, none, step⟩ := draining.goes s.front linked.front empty running
      obtain ⟨order, enabled⟩ := linked.front_enabled quiet none step
      obtain ⟨s', enabled⟩ := Option.isSome_iff_exists.mp enabled
      exact ⟨.front l order, s', none, enabled⟩

/-- **Every run comes to its end.** After the last submit, whatever the threads do, everything submitted
has been taken and executed in the end; END, if it was submitted, last. -/
theorem drains (draining : cfg.frontend.Draining) (via : (system cfg).Via (FromClients cfg) s) (few : Few s)
    (answerable : Pool.Answerable (cfg.given s)) (last : ∀ m ∈ s.submitted.dropLast, m.type ≠ .END) :
    (system cfg).Inevitable (Unsubmitting cfg) (fun t => t.submitted = s.submitted ∧ Finished cfg t) s := by
  have wf : WellFounded (Prod.Lex (· < · : Nat → Nat → Prop) (· < · : Nat → Nat → Prop)) :=
    (Prod.lex ⟨_, wellFounded_lt⟩ ⟨_, wellFounded_lt⟩).wf
  refine System.inevitable_of_rank wf (rank draining)
    (P := fun t => (Linked cfg t ∧ Closed draining t ∧ Paced draining t) ∧ t.submitted = s.submitted) (fun t held => ?_) ?_
    ⟨⟨via_linked via, via_closed draining via, via_paced draining via⟩, rfl⟩
  · obtain ⟨⟨linked, closed, paced⟩, same⟩ := held
    have given : cfg.given t = cfg.given s := by rw [Config.given, same]
    have few : Few t := by
      rw [Few, same]
      exact few
    exact (linked.goes closed (paced.paid linked few) (given ▸ answerable) (same ▸ last)).imp
      (fun finished => ⟨same, finished⟩) id
  · rintro t l t' ⟨⟨linked, closed, paced⟩, same⟩ quiet step
    have move := step_move step
    exact ⟨⟨⟨linked_move linked quiet.fromClients move, closed_move linked closed quiet.fromClients move,
      paced_move paced move⟩, (quiet.submitted move).trans same⟩, rank_move quiet move⟩

/-! ### A workload -/

/-- A WRITE and a SCAN that conflict, where the SCAN is of keys of two partitions, and a READ. -/
def mixedRequests : List ClientMessage :=
  [{ type := .WRITE, key := 0, args := ['a'] }, { type := .SCAN, key := 0, args := ['2'] }, { type := .READ, key := 1 }]

def mixedWorkload : List ClientMessage := mixedRequests ++ [{ type := .END }]

/-- With the keys 0 and 1 populated it is settled and answerable. -/
theorem mixed_given {c : KvPaxos.Config n} (requests : c.requests = mixedRequests)
    (storage : c.storage = Storage.populated ⟨id, some⟩ [0, 1]) : Pool.Settled c ∧ Pool.Answerable c := by
  have size : UnorderedMap.size c.storage = 2 := by
    rw [storage]
    decide
  have inside : ∀ m ∈ mixedRequests, m.type = .SCAN → ∀ x ∈ m.keys, 0 ≤ x ∧ x < 2 := by decide
  have read : ∀ m ∈ mixedRequests, m.type = .READ → m.key = 1 := by decide
  rw [← requests] at inside read
  refine ⟨fun m mem type => Or.inl fun x covered => ?_, fun k m here type => ?_, fun m mem type => ?_⟩
  · rw [size]
    exact inside m mem type x covered
  · rw [Pool.met, Sequential.mem_storageBefore, storage, read m (List.mem_of_getElem? here) type]
    exact Or.inl (by decide)
  · rw [size]
    decide

end Process

end KvPaxos
