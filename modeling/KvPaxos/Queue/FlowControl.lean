import KvPaxos.Lib.System
import KvPaxos.Queue.Queue

/-!
# Flow control between the two heads

One producer repeats `push; notify<0>; notify<1>` and two consumers repeat
`wait<h>; pop<h>`, interleaved at every semaphore and queue operation. `pushed` and
`delivered` are ghosts. `Flow` is the joint invariant: what each queue holds, and one
balance for each semaphore over the places of the three threads.

The item semaphores are posted once for each message and nothing bounds how many wait at
a head, so a producer that runs far ahead of a head fills its semaphore, and the posts
that follow are lost. The balance of items is therefore an inequality, and an equality in
the runs where no notify finds its semaphore full.
-/

namespace KvPaxos

open Lib Queue

namespace FlowControl

/-- Where the consumer of a head is. -/
inductive Consumer where
  /-- `sem_wait(&semaphores[h])`. -/
  | waitingItem
  /-- `sem_wait(&ahead_sems[h])`. -/
  | waitingAhead
  /-- `front()` and `pop()`. -/
  | popping
  /-- `sem_post(&ahead_sems[h + 1])`. -/
  | releasing
  deriving DecidableEq

/-- Where the producer is in `submit`. -/
inductive Producer (α : Type) where
  | idle
  /-- `queues[1].push(value)`. -/
  | pushing (value : α)
  /-- `notify<0>()`. -/
  | notifying0
  /-- `notify<1>()`. -/
  | notifying1
  deriving DecidableEq

/-- The queue, where each of the three threads is, and as ghosts what has been pushed and what each head has
delivered. -/
structure State (α : Type) where
  queue : Queue α
  producer : Producer α := .idle
  consumers : Fin 2 → Consumer := fun _ => .waitingItem
  pushed : List α := []
  delivered : Fin 2 → List α := fun _ => []

/-- The producer starts a `submit`, or its next statement, or the next statement of a consumer. -/
inductive Label (α : Type) where
  | submit (value : α)
  | produce
  | consume (h : Fin 2)

variable {α : Type}

/-- The producer's next statement. `submit` calls `push`, whose first half is the label of that name, then `notify<0>`
and `notify<1>`; the second half of `push` and the two posts are the statements here. A post at `SEM_VALUE_MAX` fails,
and `notify` does not look at what `sem_post` returns. -/
def produce (s : State α) : Option (State α) :=
  match s.producer with
  | .idle => none
  | .pushing value => some { s with queue := s.queue.pushTo 1 value, producer := .notifying0 }
  | .notifying0 => some { s with queue := s.queue.notify (some SEM_VALUE_MAX) 0, producer := .notifying1 }
  | .notifying1 => some { s with queue := s.queue.notify (some SEM_VALUE_MAX) 1, producer := .idle }

/-- The next statement of the consumer of `h`: the two `sem_wait`s of `wait<h>`, which block at zero, then the removal
of the front under the lock and the post of the other head's distance semaphore, the two halves of `pop<h>`. -/
def consume (s : State α) (h : Fin 2) : Option (State α) :=
  match s.consumers h with
  | .waitingItem => (s.queue.waitItem h).map fun q =>
      { s with queue := q, consumers := Function.update s.consumers h .waitingAhead }
  | .waitingAhead => (s.queue.waitAhead h).map fun q =>
      { s with queue := q, consumers := Function.update s.consumers h .popping }
  | .popping => (s.queue.popFront h).map fun (value, q) =>
      { s with
        queue := q
        consumers := Function.update s.consumers h .releasing
        delivered := Function.update s.delivered h (s.delivered h ++ [value]) }
  | .releasing => some { s with
      queue := s.queue.postAhead (some SEM_VALUE_MAX) (h + 1)
      consumers := Function.update s.consumers h .waitingItem }

/-- One statement of one of the three threads. A message can be submitted when the call before has returned: there is
one producer. -/
def step (s : State α) : Label α → Option (State α)
  | .submit value =>
    match s.producer with
    | .idle => some { s with
        queue := s.queue.pushTo 0 value
        producer := .pushing value
        pushed := s.pushed ++ [value] }
    | _ => none
  | .produce => produce s
  | .consume h => consume s h

/-- The threads around a new queue. -/
def system (queue : Queue α) : System (State α) (Label α) := ⟨{ queue := queue }, step⟩

/-! ### The invariant -/

/-- 1 from the first `sem_wait` of `wait` to the removal. -/
def Consumer.holdsItem : Consumer → Nat
  | .waitingAhead | .popping => 1
  | _ => 0

/-- 1 from the second `sem_wait` to the removal. -/
def Consumer.holdsAhead : Consumer → Nat
  | .popping => 1
  | _ => 0

/-- 1 from the removal to the post for the other head. -/
def Consumer.owes : Consumer → Nat
  | .releasing => 1
  | _ => 0

/-- What the producer has pushed for head 0 and not yet for `h`. -/
def Producer.unsent : Producer α → Fin 2 → List α
  | .pushing value, 1 => [value]
  | _, _ => []

/-- 1 if the message under way has not been notified to `h`. -/
def Producer.unposted : Producer α → Fin 2 → Nat
  | .idle, _ => 0
  | .notifying1, 0 => 0
  | _, _ => 1

/-- The posts for head `h` that have been consumed, can be consumed or are to come. -/
def accounted (s : State α) (h : Fin 2) : Nat :=
  s.queue.semaphores h + (s.consumers h).holdsItem + (s.delivered h).length + s.producer.unposted h

/-- The joint invariant, for the distances `A`. -/
structure Flow (A : Fin 2 → Nat) (s : State α) : Prop where
  contents : ∀ h, s.pushed = s.delivered h ++ s.queue.queues h ++ s.producer.unsent h
  items : ∀ h, accounted s h ≤ s.pushed.length
  aheads : ∀ h, s.queue.aheadSems h + (s.consumers h).holdsAhead + (s.delivered h).length +
    (s.consumers (h + 1)).owes = A h + (s.delivered (h + 1)).length

/-- A notify does not find its semaphore full; of the other statements nothing is asked. -/
def NotFull (s : State α) : Label α → Prop
  | .produce =>
    (s.producer = .notifying0 → s.queue.semaphores 0 ≠ SEM_VALUE_MAX) ∧
      (s.producer = .notifying1 → s.queue.semaphores 1 ≠ SEM_VALUE_MAX)
  | _ => True

instance [DecidableEq α] (s : State α) : ∀ l, Decidable (NotFull s l)
  | .produce => inferInstanceAs (Decidable (_ ∧ _))
  | .submit _ | .consume _ => isTrue trivial

/-- A `submit` is under way. -/
def Producer.busy : Producer α → Bool
  | .idle => false
  | .pushing _ | .notifying0 | .notifying1 => true

theorem Producer.busy_eq_false {producer : Producer α} : producer.busy = false ↔ producer = .idle := by
  cases producer <;> simp [Producer.busy]

/-- A `submit` under way is at one of three statements. -/
theorem Producer.busy_cases {motive : Producer α → Prop} {producer : Producer α} (busy : producer.busy = true)
    (pushing : ∀ value, motive (.pushing value)) (notifying0 : motive .notifying0) (notifying1 : motive .notifying1) :
    motive producer := by
  cases producer with
  | idle => cases busy
  | pushing value => exact pushing value
  | notifying0 => exact notifying0
  | notifying1 => exact notifying1

/-- A message is notified after it is pushed. -/
theorem Producer.unsent_le (p : Producer α) (h : Fin 2) : (p.unsent h).length ≤ p.unposted h := by
  cases p with
  | idle => exact Nat.zero_le _
  | pushing value =>
    match h with
    | 0 => exact Nat.zero_le _
    | 1 => exact Nat.le_refl _
  | notifying0 => exact Nat.zero_le _
  | notifying1 => exact Nat.zero_le _

section Accounts

variable {s s' : State α} {h : Fin 2}

/-- A consumer's statements move a token from one place to the next. -/
theorem accounted_consume (step : consume s h = some s') (h' : Fin 2) : accounted s' h' = accounted s h' := by
  have ne := other_ne h
  unfold consume at step
  split at step
  · rename_i place
    obtain ⟨q, take, rfl⟩ := Option.map_eq_some_iff.mp step
    obtain ⟨pos, rfl⟩ := Queue.waitItem_eq_some.mp take
    rcases eq_or_other h h' with rfl | rfl
    · simp [accounted, place, Consumer.holdsItem]
      omega
    · simp [accounted, ne]
  · rename_i place
    obtain ⟨q, take, rfl⟩ := Option.map_eq_some_iff.mp step
    obtain ⟨pos, rfl⟩ := Queue.waitAhead_eq_some.mp take
    rcases eq_or_other h h' with rfl | rfl
    · simp [accounted, place, Consumer.holdsItem]
    · simp [accounted, ne]
  · rename_i place
    obtain ⟨⟨value, q⟩, take, rfl⟩ := Option.map_eq_some_iff.mp step
    obtain ⟨rest, queued, rfl⟩ := Queue.popFront_eq_some.mp take
    rcases eq_or_other h h' with rfl | rfl
    · simp [accounted, place, Consumer.holdsItem]
      omega
    · simp [accounted, ne]
  · rename_i place
    cases step
    rcases eq_or_other h h' with rfl | rfl
    · simp [accounted, place, Consumer.holdsItem, Queue.postAhead]
    · simp [accounted, ne, Queue.postAhead]

/-- The producer's statements lose a post where the semaphore is full, and only there. -/
theorem accounted_produce (step : produce s = some s') (h' : Fin 2) :
    accounted s' h' ≤ accounted s h' ∧ (NotFull s .produce → accounted s' h' = accounted s h') := by
  unfold produce at step
  split at step
  · cases step
  · rename_i value place
    cases step
    have same : accounted { s with queue := s.queue.pushTo 1 value, producer := .notifying0 } h' = accounted s h' := by
      simp [accounted, place, Producer.unposted, Queue.pushTo]
    exact ⟨Nat.le_of_eq same, fun _ => same⟩
  all_goals
    rename_i place
    cases step
    refine ⟨?_, fun notFull => ?_⟩
  · have le := semPost_le (some SEM_VALUE_MAX) (s.queue.semaphores 0)
    match h' with
    | 0 =>
      simp [accounted, place, Producer.unposted, Queue.notify]
      omega
    | 1 => simp [accounted, place, Producer.unposted, Queue.notify]
  · have post : semPost (some SEM_VALUE_MAX) (s.queue.semaphores 0) = s.queue.semaphores 0 + 1 :=
      semPost_of_ne fun full => notFull.1 place (Option.some_inj.mp full).symm
    match h' with
    | 0 =>
      simp [accounted, place, Producer.unposted, Queue.notify, post]
      omega
    | 1 => simp [accounted, place, Producer.unposted, Queue.notify]
  · have le := semPost_le (some SEM_VALUE_MAX) (s.queue.semaphores 1)
    match h' with
    | 0 => simp [accounted, place, Producer.unposted, Queue.notify]
    | 1 =>
      simp [accounted, place, Producer.unposted, Queue.notify]
      omega
  · have post : semPost (some SEM_VALUE_MAX) (s.queue.semaphores 1) = s.queue.semaphores 1 + 1 :=
      semPost_of_ne fun full => notFull.2 place (Option.some_inj.mp full).symm
    match h' with
    | 0 => simp [accounted, place, Producer.unposted, Queue.notify]
    | 1 =>
      simp [accounted, place, Producer.unposted, Queue.notify, post]
      omega

/-- A submit adds a post to come for each head. -/
theorem accounted_submit {value : α} (step : FlowControl.step s (.submit value) = some s') (h' : Fin 2) :
    accounted s' h' = accounted s h' + 1 ∧ s'.pushed = s.pushed ++ [value] := by
  simp only [FlowControl.step] at step
  split at step
  · rename_i place
    cases step
    refine ⟨?_, rfl⟩
    simp [accounted, place, Producer.unposted, Queue.pushTo]
  · cases step

theorem pushed_produce (step : produce s = some s') : s'.pushed = s.pushed := by
  unfold produce at step
  split at step
  · cases step
  all_goals
    cases step
    rfl

theorem pushed_consume (step : consume s h = some s') : s'.pushed = s.pushed := by
  unfold consume at step
  split at step
  · obtain ⟨q, -, rfl⟩ := Option.map_eq_some_iff.mp step
    rfl
  · obtain ⟨q, -, rfl⟩ := Option.map_eq_some_iff.mp step
    rfl
  · obtain ⟨⟨value, q⟩, -, rfl⟩ := Option.map_eq_some_iff.mp step
    rfl
  · cases step
    rfl

end Accounts

namespace Flow

variable {A : Fin 2 → Nat} {s s' : State α}

theorem init (A : Fin 2 → Nat) (queue : Queue α) (aheads : queue.aheadSems = A)
    (semaphores : queue.semaphores = fun _ => 0) (queues : queue.queues = fun _ => []) :
    Flow A { queue := queue } where
  contents h := by
    have empty : queue.queues h = [] := congrFun queues h
    show [] = [] ++ queue.queues h ++ []
    rw [empty, List.append_nil, List.append_nil]
  items h := by
    show queue.semaphores h + 0 + 0 + 0 ≤ 0
    have none : queue.semaphores h = 0 := congrFun semaphores h
    omega
  aheads h := by
    show queue.aheadSems h + 0 + 0 + 0 = A h + 0
    rw [aheads]

/-- The distance semaphores never hold more than the distance between them. -/
theorem aheads_le (flow : Flow A s) (h : Fin 2) :
    s.queue.aheadSems h + (s.consumers (h + 1)).owes ≤ A 0 + A 1 := by
  have here := flow.aheads h
  have there := flow.aheads (h + 1)
  rw [other_other] at there
  have sum : A h + A (h + 1) = A 0 + A 1 := by
    match h with
    | 0 => rfl
    | 1 => exact Nat.add_comm _ _
  omega

/-- A consumer that has its item finds it. -/
theorem queue_ne_nil (flow : Flow A s) {h : Fin 2} (holds : (s.consumers h).holdsItem = 1) :
    s.queue.queues h ≠ [] := by
  intro empty
  have count := congrArg List.length (flow.contents h)
  have items := flow.items h
  have behind := s.producer.unsent_le h
  rw [empty, List.append_nil, List.length_append] at count
  unfold accounted at items
  omega

/-- What a head has delivered is a prefix of what was pushed. -/
theorem delivered_prefix (flow : Flow A s) (h : Fin 2) : s.delivered h <+: s.pushed := by
  rw [flow.contents h, List.append_assoc]
  exact List.prefix_append _ _

/-- The pops of a head exceed those of the other by at most its distance. -/
theorem delivered_le (flow : Flow A s) (h : Fin 2) :
    (s.delivered h).length ≤ (s.delivered (h + 1)).length + A h := by
  have here := flow.aheads h
  omega

/-- A statement of the producer: what it puts into a queue or posts it has had in hand until then. A post that is lost
at the limit leaves the semaphore below what is waiting, which is all that `Flow` asks of it. -/
theorem produce (flow : Flow A s) (step : FlowControl.produce s = some s') : Flow A s' := by
  have items : ∀ h, accounted s' h ≤ s'.pushed.length := by
    intro h
    rw [pushed_produce step]
    exact Nat.le_trans (accounted_produce step h).1 (flow.items h)
  refine ⟨fun h => ?_, items, ?_⟩
  · have contents := flow.contents h
    unfold FlowControl.produce at step
    split at step
    · cases step
    · rename_i value pushing
      cases step
      rw [pushing] at contents
      match h with
      | 0 => simpa [Queue.pushTo, Producer.unsent] using contents
      | 1 => simpa [Queue.pushTo, Producer.unsent] using contents
    all_goals
      rename_i place
      cases step
      rw [place] at contents
      exact contents
  · unfold FlowControl.produce at step
    split at step
    · cases step
    all_goals
      cases step
      exact flow.aheads

theorem submit (flow : Flow A s) {value : α} (step : FlowControl.step s (.submit value) = some s') : Flow A s' := by
  have items : ∀ h, accounted s' h ≤ s'.pushed.length := by
    intro h
    obtain ⟨account, pushed⟩ := accounted_submit step h
    rw [account, pushed, List.length_append]
    exact Nat.add_le_add_right (flow.items h) 1
  simp only [FlowControl.step] at step
  split at step
  · rename_i idle
    cases step
    refine ⟨fun h => ?_, items, flow.aheads⟩
    have contents := flow.contents h
    rw [idle] at contents
    match h with
    | 0 => simp [contents, Queue.pushTo, Producer.unsent]
    | 1 => simp [contents, Queue.pushTo, Producer.unsent]
  · cases step

/-- A consumer's statements; the post for the other head never meets a full semaphore. -/
theorem consume (flow : Flow A s) (bounded : A 0 + A 1 ≤ SEM_VALUE_MAX) {h : Fin 2}
    (step : FlowControl.consume s h = some s') : Flow A s' := by
  have items : ∀ h', accounted s' h' ≤ s'.pushed.length := by
    intro h'
    rw [accounted_consume step, pushed_consume step]
    exact flow.items h'
  have ne := other_ne h
  have here := flow.aheads h
  have there := flow.aheads (h + 1)
  rw [other_other] at there
  unfold FlowControl.consume at step
  split at step
  · rename_i place
    obtain ⟨q, take, rfl⟩ := Option.map_eq_some_iff.mp step
    obtain ⟨pos, rfl⟩ := Queue.waitItem_eq_some.mp take
    rw [place] at here there
    refine ⟨flow.contents, items, fun h' => ?_⟩
    rcases eq_or_other h h' with rfl | rfl
    · simpa [ne, Consumer.holdsAhead] using here
    · simpa [ne, other_other, Consumer.owes] using there
  · rename_i place
    obtain ⟨q, take, rfl⟩ := Option.map_eq_some_iff.mp step
    obtain ⟨pos, rfl⟩ := Queue.waitAhead_eq_some.mp take
    rw [place] at here there
    refine ⟨flow.contents, items, fun h' => ?_⟩
    rcases eq_or_other h h' with rfl | rfl
    · simp [ne, Consumer.holdsAhead] at here ⊢
      omega
    · simpa [ne, other_other, Consumer.owes] using there
  · rename_i place
    obtain ⟨⟨value, q⟩, take, rfl⟩ := Option.map_eq_some_iff.mp step
    obtain ⟨rest, queued, rfl⟩ := Queue.popFront_eq_some.mp take
    rw [place] at here there
    refine ⟨fun h' => ?_, items, fun h' => ?_⟩
    · rcases eq_or_other h h' with rfl | rfl
      · simpa [queued] using flow.contents h'
      · simpa [ne] using flow.contents (h + 1)
    · rcases eq_or_other h h' with rfl | rfl
      · simp [ne, Consumer.holdsAhead] at here ⊢
        omega
      · simp [ne, other_other, Consumer.owes] at there ⊢
        omega
  · rename_i place
    cases step
    have room := flow.aheads_le (h + 1)
    rw [other_other, place] at room
    have posted : semPost (some SEM_VALUE_MAX) (s.queue.aheadSems (h + 1)) = s.queue.aheadSems (h + 1) + 1 := by
      apply semPost_of_ne
      intro full
      have := Option.some_inj.mp full
      simp only [Consumer.owes] at room
      omega
    rw [place] at here there
    refine ⟨flow.contents, items, fun h' => ?_⟩
    rcases eq_or_other h h' with rfl | rfl
    · simpa [Queue.postAhead, ne, ne.symm, Consumer.holdsAhead] using here
    · simp [Queue.postAhead, ne, other_other, Consumer.owes, posted] at there ⊢
      omega

end Flow

/-! ### Runs -/

section Runs

variable {queueHeadDistance : Nat} {s : State α}

theorem ahead_sum (le : queueHeadDistance ≤ SEM_VALUE_MAX) :
    let A := (schedulerQueue (α := α) queueHeadDistance).aheadSems
    0 < A 0 + A 1 ∧ A 0 + A 1 ≤ SEM_VALUE_MAX := by
  unfold schedulerQueue
  split
  · show 0 < SEM_VALUE_MAX + 0 ∧ SEM_VALUE_MAX + 0 ≤ SEM_VALUE_MAX
    decide
  · show 0 < queueHeadDistance / 2 + (queueHeadDistance / 2 + queueHeadDistance % 2) ∧
      queueHeadDistance / 2 + (queueHeadDistance / 2 + queueHeadDistance % 2) ≤ SEM_VALUE_MAX
    omega

/-- Every reachable state has the joint invariant. -/
theorem reachable_flow (le : queueHeadDistance ≤ SEM_VALUE_MAX)
    (reachable : (system (schedulerQueue (α := α) queueHeadDistance)).Reachable s) :
    Flow (schedulerQueue (α := α) queueHeadDistance).aheadSems s := by
  apply reachable.invariant
  · apply Flow.init _ _ rfl
    · unfold schedulerQueue
      split <;> rfl
    · unfold schedulerQueue
      split <;> rfl
  · intro s l s' flow step
    cases l with
    | submit value => exact flow.submit step
    | produce => exact flow.produce step
    | consume h => exact flow.consume (ahead_sum le).2 step

/-- In a run without a full item semaphore every post is accounted for. -/
theorem via_accounted (via : (system (schedulerQueue (α := α) queueHeadDistance)).Via NotFull s) (h : Fin 2) :
    accounted s h = s.pushed.length := by
  apply via.invariant (P := fun s => accounted s h = s.pushed.length)
  · show (schedulerQueue queueHeadDistance).semaphores h + 0 + 0 + 0 = 0
    unfold schedulerQueue
    split <;> rfl
  · intro s l s' _ all notFull step
    cases l with
    | submit value =>
      obtain ⟨account, pushed⟩ := accounted_submit step h
      rw [account, pushed, List.length_append, all]
      rfl
    | produce => rw [(accounted_produce step h).2 notFull, pushed_produce step, all]
    | consume h' => rw [accounted_consume step, pushed_consume step, all]

/-- What holds in every state: each head has delivered a prefix of what was pushed, a pop finds its
queue not empty, the pops of the two heads stay within the distances, and no post of a distance
semaphore meets the limit. -/
structure Controlled (A : Fin 2 → Nat) (s : State α) : Prop where
  delivered : ∀ h, s.delivered h <+: s.pushed
  nonempty : ∀ h, s.consumers h = .popping → s.queue.queues h ≠ []
  distance0 : (s.delivered 0).length ≤ (s.delivered 1).length + A 0
  distance1 : (s.delivered 1).length ≤ (s.delivered 0).length + A 1
  noOverflow : ∀ h, s.consumers h = .releasing → s.queue.aheadSems (h + 1) < SEM_VALUE_MAX

/-- The producer is between submits, a message is undelivered to some head, and both are blocked. -/
structure Stuck (s : State α) : Prop where
  idle : s.producer = .idle
  undelivered : ∃ h, s.delivered h ≠ s.pushed
  blocked : ∀ h, consume s h = none

theorem Flow.controlled {A : Fin 2 → Nat} (flow : Flow A s) (bounded : A 0 + A 1 ≤ SEM_VALUE_MAX) :
    Controlled A s where
  delivered := flow.delivered_prefix
  nonempty h popping := flow.queue_ne_nil (by rw [popping]; rfl)
  distance0 := flow.delivered_le 0
  distance1 := flow.delivered_le 1
  noOverflow h releasing := by
    have room := flow.aheads_le (h + 1)
    rw [other_other, releasing] at room
    simp only [Consumer.owes] at room
    omega

/-- A consumer has no next statement at one of its two waits only, or where it would pop from an empty queue. -/
theorem blocked_cases {h : Fin 2} (blocked : consume s h = none) :
    (s.consumers h = .waitingItem ∧ s.queue.semaphores h = 0) ∨
      (s.consumers h = .waitingAhead ∧ s.queue.aheadSems h = 0) ∨
      (s.consumers h = .popping ∧ s.queue.queues h = []) := by
  unfold consume at blocked
  split at blocked
  · rename_i place
    refine Or.inl ⟨place, ?_⟩
    by_contra pos
    rw [Queue.waitItem, if_pos (by omega)] at blocked
    cases blocked
  · rename_i place
    refine Or.inr (Or.inl ⟨place, ?_⟩)
    by_contra pos
    rw [Queue.waitAhead, if_pos (by omega)] at blocked
    cases blocked
  · rename_i place
    refine Or.inr (Or.inr ⟨place, ?_⟩)
    unfold Queue.popFront at blocked
    split at blocked
    · assumption
    · cases blocked
  · cases blocked

/-- **No mutual block**: a head that waits for the other has popped more than it, so both cannot. -/
theorem Flow.not_stuck {A : Fin 2 → Nat} (flow : Flow A s) (pos : 0 < A 0 + A 1)
    (all : ∀ h, accounted s h = s.pushed.length) : ¬Stuck s := by
  rintro ⟨idle, ⟨h, undelivered⟩, blocked⟩
  -- a blocked head has delivered everything, or has run its distance ahead of the other
  have head : ∀ h, (s.delivered h).length = s.pushed.length ∨
      (s.delivered h).length = A h + (s.delivered (h + 1)).length := by
    intro h
    have account := all h
    have here := flow.aheads h
    have resting : (s.consumers (h + 1)).owes = 0 := by
      rcases blocked_cases (blocked (h + 1)) with ⟨place, -⟩ | ⟨place, -⟩ | ⟨place, -⟩ <;> rw [place] <;> rfl
    unfold accounted at account
    rw [idle] at account
    rcases blocked_cases (blocked h) with ⟨place, none⟩ | ⟨place, none⟩ | ⟨place, empty⟩
    · rw [place] at account
      simp only [Consumer.holdsItem, Producer.unposted] at account
      exact Or.inl (by omega)
    · rw [place] at here
      simp only [Consumer.holdsAhead] at here
      exact Or.inr (by omega)
    · exact absurd empty (flow.queue_ne_nil (by rw [place]; rfl))
  have whole : ∀ h, (s.delivered h).length = s.pushed.length → s.delivered h = s.pushed :=
    fun h eq => (flow.delivered_prefix h).eq_of_length eq
  have le : ∀ h, (s.delivered h).length ≤ s.pushed.length := fun h => (flow.delivered_prefix h).length_le
  have le0 := le 0
  have le1 := le 1
  have behind : (s.delivered h).length ≠ s.pushed.length := fun eq => undelivered (whole h eq)
  rcases head 0 with head0 | head0 <;> rcases head 1 with head1 | head1
  · match h with
    | 0 => exact behind head0
    | 1 => exact behind head1
  · rw [show (1 : Fin 2) + 1 = 0 from rfl] at head1
    match h with
    | 0 => exact behind head0
    | 1 => omega
  · rw [show (0 : Fin 2) + 1 = 1 from rfl] at head0
    match h with
    | 0 => omega
    | 1 => exact behind head1
  · rw [show (0 : Fin 2) + 1 = 1 from rfl] at head0
    rw [show (1 : Fin 2) + 1 = 0 from rfl] at head1
    omega

end Runs

/-- **Flow control.** The first half of `push`, the second one, the two `notify`s and the statements of `wait` and
`pop` at both heads may be interleaved in any way, and the queue may have been made with any distance. In every state
of every run each head has popped a prefix of what was pushed, neither head is further ahead of the other than the
distance allows, and the semaphores count what is left of both. The heads never block each other as long as no notify
finds its item semaphore full: the guard is on the posts of the producer and says nothing of the consumers. -/
theorem flow_control (queueHeadDistance : Nat) (le : queueHeadDistance ≤ SEM_VALUE_MAX) :
    (∀ s : State α, (system (schedulerQueue queueHeadDistance)).Reachable s →
      Controlled (schedulerQueue (α := α) queueHeadDistance).aheadSems s) ∧
    (∀ s : State α, (system (schedulerQueue queueHeadDistance)).Via NotFull s → ¬Stuck s) := by
  obtain ⟨pos, bounded⟩ := ahead_sum (α := α) le
  refine ⟨fun s reachable => ?_, fun s via => ?_⟩
  · exact (reachable_flow le reachable).controlled bounded
  · exact (reachable_flow le via.reachable).not_stuck pos (via_accounted via)

/-- Two messages: head 1 has popped both and head 0 the first, a distance of one. -/
theorem flow_control_one : ∃ s : State Nat, (system (schedulerQueue 1)).Via NotFull s ∧
    (s.delivered 0 = [7] ∧ s.delivered 1 = [7, 8]) ∧ Controlled (schedulerQueue (α := Nat) 1).aheadSems s ∧
    ¬Stuck s := by
  obtain ⟨s, via, popped⟩ := System.exists_via (M := system (schedulerQueue 1)) NotFull
    (P := fun s : State Nat => s.delivered 0 = [7] ∧ s.delivered 1 = [7, 8])
    ([.submit 7, .produce, .produce, .produce, .submit 8, .produce, .produce, .produce] ++
      List.replicate 4 (.consume 1) ++ List.replicate 4 (.consume 0) ++ List.replicate 4 (.consume 1)) (by decide)
  obtain ⟨controlled, live⟩ := flow_control (α := Nat) 1 (by decide)
  exact ⟨s, via, popped, controlled s via.reachable, live s via⟩

/-! ### A producer that runs ahead -/

section Overrun

variable {queue : Queue Unit} {s s' : State Unit}

/-- `n` submits before either head moves: the item semaphores hold as many posts as fit. -/
theorem submits (none : queue.semaphores = fun _ => 0) (n : Nat) :
    ∃ s, (system queue).Reachable s ∧ s.producer = .idle ∧ s.pushed.length = n ∧
      ∀ h, s.queue.semaphores h = min n SEM_VALUE_MAX ∧ s.consumers h = .waitingItem ∧ s.delivered h = [] := by
  induction n with
  | zero => exact ⟨_, System.Reachable.init, rfl, rfl, fun h => ⟨by simp [system, none], rfl, rfl⟩⟩
  | succ n ih =>
    obtain ⟨s, reachable, idle, pushed, heads⟩ := ih
    have post : semPost (some SEM_VALUE_MAX) (min n SEM_VALUE_MAX) = min (n + 1) SEM_VALUE_MAX := by
      unfold semPost
      by_cases full : SEM_VALUE_MAX ≤ n
      · rw [if_pos (by rw [Nat.min_eq_right full]), Nat.min_eq_right full, Nat.min_eq_right (by omega)]
      · rw [if_neg (by rw [Option.some_inj]; omega), Nat.min_eq_left (by omega), Nat.min_eq_left (by omega)]
    have first : (system queue).step s (.submit ()) = some { s with
        queue := s.queue.pushTo 0 (), producer := .pushing (), pushed := s.pushed ++ [()] } := by
      show step s (.submit ()) = _
      simp only [step, idle]
    have reached := (((reachable.step first).step (l := .produce) rfl).step (l := .produce) rfl).step
      (l := .produce) rfl
    refine ⟨_, reached, rfl, by simp [pushed], fun h => ⟨?_, (heads h).2⟩⟩
    match h with
    | 0 => simp [Queue.notify, Queue.pushTo, (heads 0).1, post]
    | 1 => simp [Queue.notify, Queue.pushTo, (heads 1).1, post]

/-- The statements a head can still make with the posts it has. -/
def remaining (s : State Unit) (h : Fin 2) : Nat :=
  4 * s.queue.semaphores h + match s.consumers h with
    | .waitingItem => 0
    | .waitingAhead => 3
    | .popping => 2
    | .releasing => 1

/-- A consumer's statement is one of the four its message costs, and leaves the other consumer's cost as it is. -/
theorem remaining_consume {h : Fin 2} (step : consume s h = some s') :
    remaining s' 0 + remaining s' 1 + 1 = remaining s 0 + remaining s 1 ∧ s'.producer = s.producer := by
  have here : remaining s' h + 1 = remaining s h ∧ remaining s' (h + 1) = remaining s (h + 1) ∧
      s'.producer = s.producer := by
    have ne := other_ne h
    unfold consume at step
    split at step
    · rename_i place
      obtain ⟨q, take, rfl⟩ := Option.map_eq_some_iff.mp step
      obtain ⟨pos, rfl⟩ := Queue.waitItem_eq_some.mp take
      refine ⟨?_, by simp [remaining, ne], rfl⟩
      simp [remaining, place]
      omega
    · rename_i place
      obtain ⟨q, take, rfl⟩ := Option.map_eq_some_iff.mp step
      obtain ⟨pos, rfl⟩ := Queue.waitAhead_eq_some.mp take
      exact ⟨by simp [remaining, place], by simp [remaining, ne], rfl⟩
    · rename_i place
      obtain ⟨⟨value, q⟩, take, rfl⟩ := Option.map_eq_some_iff.mp step
      obtain ⟨rest, queued, rfl⟩ := Queue.popFront_eq_some.mp take
      exact ⟨by simp [remaining, place], by simp [remaining, ne], rfl⟩
    · rename_i place
      cases step
      exact ⟨by simp [remaining, place, Queue.postAhead], by simp [remaining, ne, Queue.postAhead], rfl⟩
  match h with
  | 0 =>
    rw [show (0 : Fin 2) + 1 = 1 from rfl] at here
    exact ⟨by omega, here.2.2⟩
  | 1 =>
    rw [show (1 : Fin 2) + 1 = 0 from rfl] at here
    exact ⟨by omega, here.2.2⟩

/-- Left to themselves the heads use their posts up and block. -/
theorem drained (reachable : (system queue).Reachable s) :
    ∃ s', (system queue).Reachable s' ∧ s'.producer = s.producer ∧ s'.pushed = s.pushed ∧
      (∀ h, accounted s' h = accounted s h) ∧ ∀ h, consume s' h = none := by
  induction work : remaining s 0 + remaining s 1 generalizing s with
  | zero =>
    refine ⟨s, reachable, rfl, rfl, fun _ => rfl, fun h => ?_⟩
    cases step : consume s h with
    | none => rfl
    | some s' =>
      have := (remaining_consume step).1
      omega
  | succ work' ih =>
    by_cases blocked : ∀ h, consume s h = none
    · exact ⟨s, reachable, rfl, rfl, fun _ => rfl, blocked⟩
    · obtain ⟨h, moves⟩ := not_forall.mp blocked
      obtain ⟨s', step⟩ := Option.ne_none_iff_exists'.mp moves
      obtain ⟨less, producer⟩ := remaining_consume step
      obtain ⟨s'', reachable, producer', pushed, accounts, blocked⟩ :=
        ih (reachable.step (l := .consume h) step) (by omega)
      exact ⟨s'', reachable, producer'.trans producer, pushed.trans (pushed_consume step),
        fun h' => (accounts h').trans (accounted_consume step h'), blocked⟩

/-- After more submits than a semaphore holds, before either head moves, both heads end blocked with
a message undelivered. -/
theorem overrun_stuck : ∃ s : State Unit, (system (schedulerQueue 1)).Reachable s ∧ Stuck s := by
  obtain ⟨s, reachable, idle, pushed, heads⟩ := @submits (schedulerQueue 1) rfl (SEM_VALUE_MAX + 1)
  obtain ⟨s', reachable, producer, same, accounts, blocked⟩ := drained reachable
  refine ⟨s', reachable, producer.trans idle, ⟨0, fun whole => ?_⟩, blocked⟩
  have account := accounts 0
  have lost : accounted s 0 = SEM_VALUE_MAX := by
    rw [accounted, (heads 0).1, (heads 0).2.1, (heads 0).2.2, idle, Nat.min_eq_right (by omega)]
    rfl
  have length := congrArg List.length whole
  rw [same, pushed] at length
  rw [lost] at account
  unfold accounted at account
  omega

end Overrun

end FlowControl

end KvPaxos
