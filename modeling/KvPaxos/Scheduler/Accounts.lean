import KvPaxos.Scheduler.PoolSteps

/-!
# Token accounting of one partition

The semaphores of a partition, its queue and its worker agree at every statement: an item
token that is posted, about to be posted or in the worker's hand covers a queued message, and a
bounded queue's free places add up to its capacity. `line` ties the queue to the ghost log:
what is left of it is the message in the worker's hand and then the queue.

Each queued message is paid for (`Paid`) as long as no post is lost, that is in runs in which
`push_request` never finds `semaphore_` at `SEM_VALUE_MAX`. A bounded queue never gets there, nor
does a partition that has been sent no more messages than that.
-/

namespace KvPaxos

namespace Worker

/-- The type of message a place is about, and the length of a SCAN under way. -/
def Typed : Worker → Prop
  | .scanning e length _ _ | .reading e length _ _ _ => e.message.type = .SCAN ∧ e.message.range = some length
  | .atBarrier e | .destroying e => e.message.type = .SYNC
  | .counting e _ => e.message.type ≠ .SYNC
  | _ => True

end Worker

/-- How many of the messages are executed rather than waited on. -/
def countRequests (l : List Entry) : Nat :=
  l.countP fun e => e.message.type ≠ .SYNC

/-- The accounts of a partition; `unposted` is 1 while the scheduling thread has queued a message
but not posted its token, `held` is 1 while it holds a place it has not filled. -/
structure Accounts (capacity unposted held : Nat) (part : Partition) : Prop where
  line : part.log.drop part.handled = part.worker.entry.toList ++ part.requestsQueue
  bound : part.handled ≤ part.log.length
  items : part.semaphore + unposted + part.worker.token ≤ part.requestsQueue.length
  places : 0 < capacity →
    part.remainingSpace + part.requestsQueue.length + held + part.worker.space = capacity
  executed : part.nExecutedRequests = countRequests (part.log.take part.handled)
  typed : part.worker.Typed

namespace Accounts

variable {capacity unposted held : Nat} {part : Partition}

/-- The message in the worker's hand is the next one of the log. -/
theorem current (h : Accounts capacity unposted held part) {e : Entry}
    (hold : part.worker.entry = some e) : part.log[part.handled]? = some e := by
  have line := h.line
  rw [hold] at line
  have first : (part.log.drop part.handled)[0]? = some e := by rw [line]; rfl
  simpa using first

/-- Being done with the message in hand extends the handled part of the log by it. -/
theorem take_succ (h : Accounts capacity unposted held part) {e : Entry}
    (hold : part.worker.entry = some e) :
    part.log.take (part.handled + 1) = part.log.take part.handled ++ [e] := by
  rw [List.take_add_one, h.current hold]
  rfl

/-- Finishing the message in hand keeps the accounts, if it is counted exactly when it is
not a SYNC. -/
theorem finish (h : Accounts capacity unposted held part) {e : Entry}
    (hold : part.worker.entry = some e) (free : part.worker.space = 0) (used : part.worker.token = 0)
    {counted : Nat} (count : counted = part.nExecutedRequests + countRequests [e]) :
    Accounts capacity unposted held { part with
      worker := .waiting, nExecutedRequests := counted, handled := part.handled + 1 } := by
  have line := h.line
  have items := h.items
  have places := h.places
  have here := h.current hold
  have less := (List.getElem?_eq_some_iff.mp here).1
  rw [hold, List.drop_eq_getElem?_toList_append, here] at line
  refine ⟨?_, less, ?_, ?_, ?_, True.intro⟩
  · simpa [Worker.entry] using line
  · rw [used] at items
    exact items
  · intro pos
    have := places pos
    rw [free] at this
    exact this
  · simp only [h.take_succ hold, count, h.executed, countRequests, List.countP_append]

/-- Statements that keep the message in hand keep the accounts. -/
theorem run (h : Accounts capacity unposted held part) {worker : Worker} {errors : Nat}
    (entry : worker.entry = part.worker.entry) (token : worker.token = part.worker.token)
    (space : worker.space = part.worker.space) (typed : worker.Typed) :
    Accounts capacity unposted held { part with worker := worker, errorCount := errors } := by
  refine ⟨?_, h.bound, ?_, ?_, h.executed, typed⟩
  · rw [entry]
    exact h.line
  · rw [token]
    exact h.items
  · intro pos
    rw [space]
    exact h.places pos

/-- The queue is the end of the log. -/
theorem queue_le (h : Accounts capacity unposted held part) : part.requestsQueue.length ≤ part.log.length := by
  have line := congrArg List.length h.line
  rw [List.length_drop, List.length_append] at line
  omega

end Accounts

namespace Pool

variable {n : Nat} {cfg : Config n} {s s' : State n} {p : Fin n}

/-- 1 while the message queued last on `p` has no item token yet. -/
def unposted (s : State n) (p : Fin n) : Nat :=
  match s.stage with
  | .posting q => if q = p then 1 else 0
  | _ => 0

/-- 1 while the scheduling thread holds a place of `p` for the first call of `todo`. -/
def held (s : State n) (p : Fin n) : Nat :=
  match s.stage, s.todo with
  | .reserved, (q, _) :: _ => if q = p then 1 else 0
  | _, _ => 0

/-- Every partition's accounts. -/
def Accounted (cfg : Config n) (s : State n) : Prop :=
  ∀ p, Accounts cfg.capacity (unposted s p) (held s p) (s.partitions p)

theorem init_accounted : Accounted cfg (init cfg) := by
  intro p
  constructor <;> simp [init, unposted, held, Worker.entry, Worker.token, Worker.space, countRequests,
    Worker.Typed]

/-- A worker's own accounts survive its step. -/
theorem Work.accounts (h : Work cfg s p s') {u v : Nat} (acc : Accounts cfg.capacity u v (s.partitions p)) :
    Accounts cfg.capacity u v (s'.partitions p) := by
  have items := acc.items
  have line := acc.line
  have places := acc.places
  have typed := acc.typed
  cases h with
  | acquire place token =>
    simp only [put_partitions, Function.update_self]
    rw [place] at items line places
    refine ⟨line, acc.bound, ?_, places, acc.executed, True.intro⟩
    simp only [Worker.token] at items ⊢
    omega
  | dequeue place front =>
    simp only [put_partitions, Function.update_self]
    rw [place, front] at items line places
    refine ⟨?_, acc.bound, ?_, ?_, acc.executed, True.intro⟩
    · simpa [Worker.entry] using line
    · simp only [Worker.token, List.length_cons] at items ⊢
      omega
    · intro pos
      have := places pos
      simp only [Worker.space, List.length_cons] at this ⊢
      omega
  | release place =>
    simp only [put_partitions, Function.update_self]
    rw [place] at items line places
    refine ⟨line, acc.bound, items, ?_, acc.executed, True.intro⟩
    intro pos
    have := places pos
    simp only [Worker.space, if_pos pos] at this ⊢
    omega
  | read place type | write place type =>
    simp only [put_partitions, Function.update_self]
    exact acc.run (by rw [place]; rfl) (by rw [place]; rfl) (by rw [place]; rfl)
      (by simp only [Worker.Typed, type]; decide)
  | scan place type range =>
    simp only [put_partitions, Function.update_self]
    exact acc.run (by rw [place]; rfl) (by rw [place]; rfl) (by rw [place]; rfl) ⟨type, range⟩
  | arrive _ place type =>
    simp only [put_partitions, Function.update_self]
    exact acc.run (by rw [place]; rfl) (by rw [place]; rfl) (by rw [place]; rfl) type
  | other place type =>
    simp only [put_partitions, Function.update_self]
    exact acc.run (by rw [place]; rfl) (by rw [place]; rfl) (by rw [place]; rfl) type.2.2.2
  | key place =>
    simp only [put_partitions, Function.update_self]
    rw [place] at typed
    exact acc.run (by rw [place]; rfl) (by rw [place]; rfl) (by rw [place]; rfl) typed
  | hit place =>
    simp only [put_partitions, Function.update_self]
    rw [place] at typed
    exact acc.run (by rw [place]; rfl) (by rw [place]; rfl) (by rw [place]; rfl) typed
  | scanned place | miss place =>
    simp only [put_partitions, Function.update_self]
    rw [place] at typed
    simp only [Worker.Typed] at typed
    exact acc.run (by rw [place]; rfl) (by rw [place]; rfl) (by rw [place]; rfl)
      (by simp only [Worker.Typed, typed.1]; decide)
  | elect place =>
    simp only [put_partitions, Function.update_self]
    rw [place] at typed
    exact acc.run (by rw [place]; rfl) (by rw [place]; rfl) (by rw [place]; rfl) typed
  | leave place | destroy place =>
    simp only [put_partitions, Function.update_self]
    rw [place] at typed
    simp only [Worker.Typed] at typed
    exact acc.finish (by rw [place]; rfl) (by rw [place]; rfl) (by rw [place]; rfl)
      (by simp [countRequests, typed])
  | count place =>
    simp only [put_partitions, Function.update_self]
    rw [place] at typed
    simp only [Worker.Typed] at typed
    exact acc.finish (by rw [place]; rfl) (by rw [place]; rfl) (by rw [place]; rfl)
      (by simp [countRequests, typed])

theorem Work.accounted (h : Work cfg s p s') (acc : Accounted cfg s) : Accounted cfg s' := by
  intro q
  have same := h.sameCalls
  have hu : unposted s' q = unposted s q := by simp only [unposted, same.stage]
  have hh : held s' q = held s q := by simp only [held, same.stage, same.todo]
  rw [hu, hh]
  by_cases eq : q = p
  · subst eq
    exact h.accounts (acc q)
  · rw [h.others eq]
    exact acc q

/-- A push adds to the queue of one partition what the scheduling thread has had in hand, then its post. For the
others the accounts are as they were. -/
theorem Push.accounted (h : Push cfg s s') (acc : Accounted cfg s) : Accounted cfg s' := by
  intro q
  have accq := acc q
  cases h with
  | @skip call rest stage todo unbounded =>
    simp only [unposted, held, stage] at accq ⊢
    exact ⟨accq.line, accq.bound, accq.items, fun pos => by omega, accq.executed, accq.typed⟩
  | @reserve p e rest stage todo bounded free =>
    simp only [unposted, held, stage, put_todo, todo, put_partitions] at accq ⊢
    by_cases eq : q = p
    · subst eq
      rw [Function.update_self, if_pos rfl]
      refine ⟨accq.line, accq.bound, accq.items, fun pos => ?_, accq.executed, accq.typed⟩
      have := accq.places pos
      dsimp only
      omega
    · rw [Function.update_of_ne eq, if_neg (Ne.symm eq)]
      exact accq
  | @enqueue p e rest stage todo =>
    simp only [unposted, held, stage, todo, put_partitions] at accq ⊢
    by_cases eq : q = p
    · subst eq
      rw [Function.update_self, if_pos rfl]
      rw [if_pos rfl] at accq
      have bound := accq.bound
      refine ⟨?_, ?_, ?_, fun pos => ?_, ?_, accq.typed⟩
      · dsimp only
        rw [List.drop_append_of_le_length bound, accq.line, List.append_assoc]
      · simp only [List.length_append, List.length_cons]
        omega
      · have := accq.items
        simp only [List.length_append, List.length_cons, List.length_nil]
        omega
      · have := accq.places pos
        simp only [List.length_append, List.length_cons, List.length_nil]
        omega
      · dsimp only
        rw [List.take_append_of_le_length bound]
        exact accq.executed
    · rw [Function.update_of_ne eq, if_neg (Ne.symm eq)]
      rw [if_neg (Ne.symm eq)] at accq
      exact accq
  | @post p stage =>
    simp only [unposted, held, stage, put_partitions] at accq ⊢
    by_cases eq : q = p
    · subst eq
      rw [Function.update_self]
      rw [if_pos rfl] at accq
      have items := accq.items
      have post := semPost_le (some SEM_VALUE_MAX) (s.partitions q).semaphore
      exact ⟨accq.line, accq.bound, by dsimp only; omega, accq.places, accq.executed, accq.typed⟩
    · rw [Function.update_of_ne eq]
      rw [if_neg (Ne.symm eq)] at accq
      exact accq

/-- Setting up new calls touches no account. -/
theorem accounted_of_same (acc : Accounted cfg s) (stage : s.stage = .ready) (stage' : s'.stage = .ready)
    (same : s'.partitions = s.partitions) : Accounted cfg s' := by
  intro q
  have accq := acc q
  simp only [unposted, held, stage] at accq
  simp only [unposted, held, stage', same]
  exact accq

/-- **Token accounting** holds in every reachable state. -/
theorem accounted_step {l : Label n} (acc : Accounted cfg s) (h : step cfg s l = some s') : Accounted cfg s' := by
  cases l with
  | dispatch first rest =>
    cases dispatch_cases h with
    | mk stage => exact accounted_of_same acc stage stage rfl
  | repartition scheme order =>
    cases repartition_cases h with
    | mk stage => exact accounted_of_same acc stage stage rfl
  | push => exact (push_cases h).accounted acc
  | work p serial => exact (work_cases h).accounted acc

/-- The item tokens of `p`: posted, about to be posted, in the worker's hand. -/
def tokens (s : State n) (p : Fin n) : Nat :=
  (s.partitions p).semaphore + unposted s p + (s.partitions p).worker.token

/-- Every message in the queue of `p` is paid for by a token. -/
def Paid (s : State n) (p : Fin n) : Prop := tokens s p = (s.partitions p).requestsQueue.length

/-- No post of the step finds `semaphore_` at its limit. -/
def NotFull (s : State n) : Label n → Prop
  | .push => ∀ p, s.stage = .posting p → (s.partitions p).semaphore ≠ SEM_VALUE_MAX
  | _ => True

instance (s : State n) (l : Label n) : Decidable (NotFull s l) := by
  unfold NotFull
  split <;> infer_instance

/-- A worker takes a token for each message it removes. -/
theorem Work.tokens_eq (h : Work cfg s p s') (q : Fin n) :
    tokens s' q + (s.partitions q).requestsQueue.length = tokens s q + (s'.partitions q).requestsQueue.length := by
  have same : unposted s' q = unposted s q := by simp only [unposted, h.sameCalls.stage]
  unfold tokens
  rw [same]
  by_cases eq : q = p
  · subst eq
    cases h with
    | acquire place token =>
      simp only [put_partitions, Function.update_self, place, Worker.token]
      omega
    | dequeue place front =>
      simp only [put_partitions, Function.update_self, place, front, Worker.token, List.length_cons]
      omega
    | _ => simp_all [Worker.token]
  · rw [h.others eq]

/-- A push adds a token with its message; only a post that finds the semaphore full loses one. -/
theorem Push.tokens_eq (h : Push cfg s s') (q : Fin n)
    (notFull : s.stage = .posting q → (s.partitions q).semaphore ≠ SEM_VALUE_MAX) :
    tokens s' q + (s.partitions q).requestsQueue.length = tokens s q + (s'.partitions q).requestsQueue.length := by
  cases h with
  | skip stage => simp only [tokens, unposted, stage]
  | @reserve p e rest stage =>
    simp only [tokens, unposted, stage, put_partitions]
    by_cases eq : q = p
    · subst eq
      simp
    · simp [eq]
  | @enqueue p e rest stage =>
    simp only [tokens, unposted, stage, put_partitions]
    by_cases eq : q = p
    · subst eq
      simp only [Function.update_self, if_pos, List.length_append, List.length_cons, List.length_nil]
      omega
    · simp [eq, Ne.symm eq]
  | @post p stage =>
    simp only [tokens, unposted, stage, put_partitions]
    by_cases eq : q = p
    · subst eq
      have post := semPost_of_ne fun full => notFull stage (Option.some_inj.mp full).symm
      simp only [Function.update_self, post, if_pos, Nat.add_zero]
    · simp [eq, Ne.symm eq]

/-- Setting up calls changes no token. -/
theorem tokens_of_same (stage : s.stage = .ready) (stage' : s'.stage = .ready) (same : s'.partitions = s.partitions)
    (q : Fin n) : tokens s' q = tokens s q := by
  simp only [tokens, unposted, stage, stage', same]

theorem paid_step {l : Label n} (h : step cfg s l = some s')
    (notFull : l = .push → s.stage = .posting p → (s.partitions p).semaphore ≠ SEM_VALUE_MAX)
    (paid : Paid s p) : Paid s' p := by
  unfold Paid at paid ⊢
  cases l with
  | dispatch first rest =>
    cases dispatch_cases h with
    | mk stage => exact (tokens_of_same stage stage rfl p).trans paid
  | repartition scheme order =>
    cases repartition_cases h with
    | mk stage => exact (tokens_of_same stage stage rfl p).trans paid
  | push =>
    have balance := (push_cases h).tokens_eq p (notFull rfl)
    omega
  | work q serial =>
    have balance := (work_cases h).tokens_eq p
    omega

/-- The token about to be posted has its message in the queue. -/
theorem Accounted.semaphore_lt (acc : Accounted cfg s) (posting : s.stage = .posting p) :
    (s.partitions p).semaphore < (s.partitions p).requestsQueue.length := by
  have items := (acc p).items
  simp only [unposted, posting, if_pos] at items
  omega

/-- The semaphore of a bounded queue stays below `Capacity`. -/
theorem Accounted.notFull (acc : Accounted cfg s) (bounded : 0 < cfg.capacity) (limit : cfg.capacity ≤ SEM_VALUE_MAX)
    (l : Label n) : NotFull s l := by
  cases l with
  | push =>
    intro p posting
    have less := acc.semaphore_lt posting
    have places := (acc p).places bounded
    omega
  | _ => trivial

theorem log_length_le {l : Label n} (h : step cfg s l = some s') (p : Fin n) :
    (s.partitions p).log.length ≤ (s'.partitions p).log.length := by
  cases l with
  | dispatch first rest =>
    cases dispatch_cases h
    exact Nat.le_refl _
  | repartition scheme order =>
    cases repartition_cases h
    exact Nat.le_refl _
  | push =>
    cases push_cases h with
    | skip => exact Nat.le_refl _
    | @reserve q | @enqueue q | @post q =>
      by_cases eq : p = q
      · subst eq
        simp
      · simp [eq]
  | work q serial => rw [(work_cases h).log p]

/-- A partition that has been sent no more messages than `semaphore_` counts has lost no post. -/
def ShortPaid (s : State n) : Prop := ∀ p, (s.partitions p).log.length ≤ SEM_VALUE_MAX → Paid s p

theorem init_shortPaid : ShortPaid (init cfg) := fun _ _ => rfl

theorem shortPaid_step {l : Label n} (acc : Accounted cfg s) (short : ShortPaid s)
    (h : step cfg s l = some s') : ShortPaid s' := by
  intro p few
  have before := Nat.le_trans (log_length_le h p) few
  refine paid_step h (fun _ posting => ?_) (short p before)
  have less := acc.semaphore_lt posting
  have le := (acc p).queue_le
  omega

end Pool

end KvPaxos
