import KvPaxos.Lib.Object
import KvPaxos.Queue.LinkedQueue

/-!
# One queue in place of the other

The two queues as objects with the same operations. `Stands` says that a `LinkedQueue` holds what a
`Queue` holds: the pushed sequence in its chain, and for each head the part behind it. It is kept
by every operation, with the two semaphores of each kind equal.

The constructors differ: a `LinkedQueue` gives each head the distance of the other one. So it
stands for the `Queue` built from the distances in the other order, and for the one built from the
same distances when they are equal.
-/

namespace KvPaxos

open Lib

/-- An operation of either queue; `wait<h>` is its two `sem_wait`s. -/
inductive QueueOperation (α : Type) where
  | push (value : α)
  | notify (h : Fin 2)
  | free (h : Fin 2)
  | waitItem (h : Fin 2)
  | waitAhead (h : Fin 2)
  | pop (h : Fin 2)
  deriving DecidableEq

/-- What the caller sees: the operation returns, it would block, or it returns a value. -/
inductive QueueAnswer (α : Type) where
  | done
  | blocked
  | value (value : α)
  deriving DecidableEq

variable {α σ : Type}

/-- A `sem_wait` that would block leaves the queue as it is. -/
def answerWait (q : σ) (waited : Option σ) : QueueAnswer α × σ :=
  match waited with
  | none => (.blocked, q)
  | some q' => (.done, q')

/-- The operations of a `Queue`, each with nothing in between. -/
def Queue.object (limit : Option Nat) : Object (Queue α) (QueueOperation α) (QueueAnswer α) where
  perform q
    | .push value => some (.done, (q.pushTo 0 value).pushTo 1 value)
    | .notify h => some (.done, q.notify limit h)
    | .free h => some (.done, (q.notify limit h).postAhead limit h)
    | .waitItem h => some (answerWait q (q.waitItem h))
    | .waitAhead h => some (answerWait q (q.waitAhead h))
    | .pop h => (q.popFront h).map fun (value, q') => (.value value, q'.postAhead limit (h + 1))

/-- The operations of a `LinkedQueue`. -/
def LinkedQueue.object (limit : Option Nat) : Object (LinkedQueue α) (QueueOperation α) (QueueAnswer α) where
  perform q
    | .push value => (q.push value).map fun q' => (.done, q')
    | .notify h => some (.done, q.notify limit h)
    | .free h => some (.done, (q.notify limit h).postAhead limit h)
    | .waitItem h => some (answerWait q (q.waitItem h))
    | .waitAhead h => some (answerWait q (q.waitAhead h))
    | .pop h => (q.pop limit h).map fun (value, q') => (.value value, q')

/-! ### The simulation -/

namespace LinkedQueue

/-- The list holds `values`; each head is inside it, and nothing behind a head is deleted. -/
structure Holds (values : List α) (q : LinkedQueue α) : Prop where
  chain : Chain values values.length (passedBy q.heads) q.freeHead q.heap
  tail : q.tail = values.length
  free : ∀ h, q.freeHead ≤ q.heads h
  heads : ∀ h, q.heads h ≤ values.length

namespace Holds

variable {values : List α} {q : LinkedQueue α} {h : Fin 2}

theorem ofAhead (ahead0 ahead1 : Nat) : Holds ([] : List α) (LinkedQueue.ofAhead ahead0 ahead1) where
  chain := Chain.empty
  tail := rfl
  free _ := Nat.le_refl 0
  heads _ := Nat.le_refl 0

/-- The semaphores do not matter. -/
theorem posts (holds : Holds values q) (semaphores aheadSems : Fin 2 → Nat) :
    Holds values { q with semaphores := semaphores, aheadSems := aheadSems } :=
  ⟨holds.chain, holds.tail, holds.free, holds.heads⟩

theorem push (holds : Holds values q) (value : α) :
    ∃ heap, q.push value = some { q with heap := heap, tail := values.length + 1 } ∧
      Holds (values ++ [value]) { q with heap := heap, tail := values.length + 1 } := by
  have length : (values ++ [value]).length = values.length + 1 := by simp
  have free : q.freeHead ≤ values.length := Nat.le_trans (holds.free 0) (holds.heads 0)
  have unpassed : passedBy q.heads (values.length + 1) = false :=
    passedBy_eq_false fun h => Nat.lt_succ_of_le (holds.heads h)
  have allocated := holds.chain.allocate value (Nat.le_refl _) free unpassed
  obtain ⟨heap, linked, chain⟩ := Chain.linkTail (q := q.allocate value) allocated holds.tail free (by omega)
  refine ⟨heap, ?_, ⟨length ▸ chain, length.symm, holds.free, fun h => ?_⟩⟩
  · rw [LinkedQueue.push, holds.chain.next, linked, Option.map_some]
    rfl
  · rw [length]
    exact Nat.le_succ_of_le (holds.heads h)

/-- `pop` gives the value behind the head and moves the head; it may delete nodes before the head. -/
theorem pop (holds : Holds values q) (limit : Option Nat) (inside : q.heads h < values.length) :
    ∃ heap freeHead q', q' = { q with
        heap := heap, heads := Function.update q.heads h (q.heads h + 1), freeHead := freeHead } ∧
      q.pop limit h = some (values[q.heads h], q'.postAhead limit (h + 1)) ∧ Holds values q' := by
  have free := holds.free h
  have chain : Chain values values.length (passedBy q.heads) (q.moveHead h (q.heads h + 1)).freeHead
    (q.moveHead h (q.heads h + 1)).heap := holds.chain
  have next := holds.chain.readNext free inside (Nat.le_refl _)
  have value := holds.chain.readValue (Nat.le_succ_of_le free) inside
  have flag := chain.loadPassed (Nat.le_succ_of_le free) inside
  have after := passedBy_update q.heads h
  have inside' : ∀ h', Function.update q.heads h (q.heads h + 1) h' ≤ values.length := by
    intro h'
    rw [Function.update_apply]
    split
    · exact inside
    · exact holds.heads h'
  cases passed : passedBy q.heads (q.heads h + 1) with
  | true =>
    -- The other head is here or further on, so the nodes before this one can go.
    have reach : q.heads h + 1 ≤ values.length := inside
    have enough : q.heads h + 1 - q.freeHead ≤ (q.moveHead h (q.heads h + 1)).heap.next := by
      show _ ≤ q.heap.next
      rw [holds.chain.next]
      omega
    obtain ⟨heap, run, rest⟩ := Chain.freeTo reach (Nat.le_refl _) chain (Nat.le_succ_of_le free) enough
    have same : Function.update (passedBy q.heads) (q.heads h + 1) true = passedBy q.heads := by
      rw [← passed, Function.update_eq_self]
    refine ⟨heap, q.heads h + 1, _, rfl, ?_, ⟨?_, holds.tail, fun h' => ?_, inside'⟩⟩
    · simp only [LinkedQueue.pop, next, value, flag, passed, run, Option.bind_eq_bind, Option.bind_some, if_true]
      rfl
    · rw [← same, ← after] at rest
      exact rest
    · show q.heads h + 1 ≤ Function.update q.heads h (q.heads h + 1) h'
      obtain ⟨ahead, le⟩ := passedBy_iff.mp passed
      rw [Function.update_apply]
      by_cases same : h' = h
      · rw [if_pos same]
      · obtain rfl := (eq_or_other h h').resolve_left same
        rcases eq_or_other h ahead with rfl | rfl
        · exact absurd le (Nat.not_succ_le_self _)
        · rw [if_neg same]
          exact le
  | false =>
    obtain ⟨heap, stored, rest⟩ := chain.storePassed (Nat.le_succ_of_le free) inside
    refine ⟨heap, q.freeHead, _, rfl, ?_, ⟨?_, holds.tail, fun h' => ?_, inside'⟩⟩
    · simp only [LinkedQueue.pop, next, value, flag, passed, stored, Option.bind_eq_bind, Option.bind_some,
        Bool.false_eq_true, if_false]
      rfl
    · rw [← after] at rest
      exact rest
    · show q.freeHead ≤ Function.update q.heads h (q.heads h + 1) h'
      rw [Function.update_apply]
      split
      · exact Nat.le_succ_of_le free
      · exact holds.free h'

/-- With nothing behind the head, `pop` follows a pointer that is not set. -/
theorem pop_none (holds : Holds values q) (limit : Option Nat) (last : q.heads h = values.length) :
    q.pop limit h = none := by
  have unset : q.readNext h = none := by
    rw [readNext, holds.chain.live (holds.free h) (holds.heads h), Option.bind_some]
    exact if_neg (by omega)
  rw [LinkedQueue.pop, unset]
  rfl

end Holds

/-- The list stands for the queue: equal semaphores, and each head has before it what its copy holds. -/
structure Stands (l : LinkedQueue α) (q : Queue α) : Prop where
  semaphores : l.semaphores = q.semaphores
  aheadSems : l.aheadSems = q.aheadSems
  contents : ∃ values, Holds values l ∧ ∀ h, q.queues h = values.drop (l.heads h)

namespace Stands

variable {l : LinkedQueue α} {q : Queue α} {limit : Option Nat}

/-- The constructors give the heads their distances the other way round. -/
theorem ofAhead (ahead0 ahead1 : Nat) :
    Stands (LinkedQueue.ofAhead ahead0 ahead1) (Queue.ofAhead ahead1 ahead0 : Queue α) where
  semaphores := rfl
  aheadSems := rfl
  contents := ⟨[], Holds.ofAhead ahead0 ahead1, fun _ => rfl⟩

theorem notify (stands : Stands l q) (h : Fin 2) : Stands (l.notify limit h) (q.notify limit h) where
  semaphores := by
    show Function.update l.semaphores h _ = Function.update q.semaphores h _
    rw [stands.semaphores]
  aheadSems := stands.aheadSems
  contents := by
    obtain ⟨values, holds, rest⟩ := stands.contents
    exact ⟨values, holds.posts _ _, rest⟩

theorem postAhead (stands : Stands l q) (h : Fin 2) : Stands (l.postAhead limit h) (q.postAhead limit h) where
  semaphores := stands.semaphores
  aheadSems := by
    show Function.update l.aheadSems h _ = Function.update q.aheadSems h _
    rw [stands.aheadSems]
  contents := by
    obtain ⟨values, holds, rest⟩ := stands.contents
    exact ⟨values, holds.posts _ _, rest⟩

/-- A `sem_wait` blocks on both or on neither. -/
theorem waitItem (stands : Stands l q) (h : Fin 2) :
    (answerWait l (l.waitItem h) : QueueAnswer α × _).1 = (answerWait q (q.waitItem h)).1 ∧
      Stands (answerWait l (l.waitItem h) : QueueAnswer α × _).2
        (answerWait q (q.waitItem h) : QueueAnswer α × _).2 := by
  obtain ⟨values, holds, rest⟩ := stands.contents
  unfold LinkedQueue.waitItem Queue.waitItem
  rw [stands.semaphores]
  by_cases posted : 0 < q.semaphores h
  · rw [if_pos posted, if_pos posted]
    exact ⟨rfl, rfl, stands.aheadSems, values, holds.posts _ _, rest⟩
  · rw [if_neg posted, if_neg posted]
    exact ⟨rfl, stands⟩

theorem waitAhead (stands : Stands l q) (h : Fin 2) :
    (answerWait l (l.waitAhead h) : QueueAnswer α × _).1 = (answerWait q (q.waitAhead h)).1 ∧
      Stands (answerWait l (l.waitAhead h) : QueueAnswer α × _).2
        (answerWait q (q.waitAhead h) : QueueAnswer α × _).2 := by
  obtain ⟨values, holds, rest⟩ := stands.contents
  unfold LinkedQueue.waitAhead Queue.waitAhead
  rw [stands.aheadSems]
  by_cases posted : 0 < q.aheadSems h
  · rw [if_pos posted, if_pos posted]
    exact ⟨rfl, stands.semaphores, rfl, values, holds.posts _ _, rest⟩
  · rw [if_neg posted, if_neg posted]
    exact ⟨rfl, stands⟩

theorem push (stands : Stands l q) (value : α) :
    ∃ l', l.push value = some l' ∧ Stands l' ((q.pushTo 0 value).pushTo 1 value) := by
  obtain ⟨values, holds, rest⟩ := stands.contents
  obtain ⟨heap, run, holds'⟩ := holds.push value
  refine ⟨_, run, stands.semaphores, stands.aheadSems, values ++ [value], holds', fun h => ?_⟩
  have appended : (values ++ [value]).drop (l.heads h) = q.queues h ++ [value] := by
    rw [List.drop_append_of_le_length (holds.heads h), rest]
  rcases eq_or_other 0 h with rfl | rfl
  · exact appended.symm
  · exact appended.symm

/-- `pop` has a meaning on both or on neither, and gives the same value. -/
theorem pop (stands : Stands l q) (h : Fin 2) :
    Option.Rel (fun x y => x.1 = y.1 ∧ Stands x.2 y.2) ((LinkedQueue.object limit).perform l (.pop h))
      ((Queue.object limit).perform q (.pop h)) := by
  simp only [object, Queue.object]
  obtain ⟨values, holds, rest⟩ := stands.contents
  by_cases inside : l.heads h < values.length
  · obtain ⟨heap, freeHead, l', eq, run, holds'⟩ := holds.pop limit inside
    have front : q.queues h = values[l.heads h] :: values.drop (l.heads h + 1) := by
      rw [rest, List.drop_eq_getElem_cons inside]
    have popped := Queue.popFront_eq_some.mpr ⟨_, front, rfl⟩
    rw [run, popped]
    refine Option.Rel.some ⟨rfl, Stands.postAhead ?_ _⟩
    subst eq
    refine ⟨stands.semaphores, stands.aheadSems, values, holds', fun h' => ?_⟩
    show Function.update q.queues h _ h' = values.drop (Function.update l.heads h _ h')
    rw [Function.update_apply, Function.update_apply]
    split
    · rfl
    · exact rest h'
  · have last : l.heads h = values.length := Nat.le_antisymm (holds.heads h) (Nat.le_of_not_lt inside)
    have empty : q.queues h = [] := by rw [rest, last, List.drop_length]
    have unpopped : q.popFront h = none := by
      unfold Queue.popFront
      rw [empty]
    rw [holds.pop_none limit last, unpopped]
    exact Option.Rel.none

theorem simulates (limit : Option Nat) :
    (LinkedQueue.object (α := α) limit).Simulates (Queue.object limit) Stands := by
  intro l q op stands
  cases op with
  | push value =>
    obtain ⟨l', run, stands'⟩ := stands.push value
    simp only [object, Queue.object, run]
    exact Option.Rel.some ⟨rfl, stands'⟩
  | notify h => exact Option.Rel.some ⟨rfl, stands.notify h⟩
  | free h => exact Option.Rel.some ⟨rfl, (stands.notify h).postAhead h⟩
  | waitItem h => exact Option.Rel.some (stands.waitItem h)
  | waitAhead h => exact Option.Rel.some (stands.waitAhead h)
  | pop h => exact stands.pop h

end Stands

end LinkedQueue

/-! ### Which queues can be told apart -/

/-- A head that is notified and waits, `m` times over, with no pop. -/
def QueueOperation.rounds : Nat → List (QueueOperation α)
  | 0 => []
  | m + 1 => .notify 0 :: .waitItem 0 :: .waitAhead 0 :: rounds m

/-- Head 0 can go on exactly as often as its distance says. -/
theorem Queue.blocked_rounds (m : Nat) : ∀ {q : Queue α}, q.semaphores 0 = 0 →
    (some QueueAnswer.blocked ∈ (Queue.object (some SEM_VALUE_MAX)).observe q (QueueOperation.rounds m) ↔
      q.aheadSems 0 < m) := by
  induction m with
  | zero =>
    intro q _
    simp [QueueOperation.rounds, Object.observe]
  | succ m ih =>
    intro q empty
    have posted : semPost (some SEM_VALUE_MAX) 0 = 1 := rfl
    simp only [QueueOperation.rounds, Object.observe, Queue.object, notify, waitItem, waitAhead, empty, posted,
      Function.update_self, Nat.one_pos, if_true, answerWait, List.mem_cons, Option.some.injEq, reduceCtorEq, false_or]
    by_cases free : 0 < q.aheadSems 0
    · rw [if_pos free]
      simp only [reduceCtorEq, false_or]
      refine (ih ?_).trans ?_
      · show Function.update (Function.update q.semaphores 0 1) 0 0 0 = 0
        rw [Function.update_self]
      · show Function.update q.aheadSems 0 (q.aheadSems 0 - 1) 0 < m ↔ _
        rw [Function.update_self]
        omega
    · rw [if_neg free]
      exact iff_of_true (Or.inl rfl) (by omega)

/-- With the distances exchanged the two cannot be told apart. -/
theorem LinkedQueue.observe_crossed (ahead0 ahead1 : Nat) (ops : List (QueueOperation α)) :
    (LinkedQueue.object (some SEM_VALUE_MAX)).observe (LinkedQueue.ofAhead ahead0 ahead1 : LinkedQueue α) ops =
      (Queue.object (some SEM_VALUE_MAX)).observe (Queue.ofAhead ahead1 ahead0) ops :=
  (Stands.simulates (some SEM_VALUE_MAX)).observe_eq ops (Stands.ofAhead ahead0 ahead1)

/-- With the same distances they can, unless the two are equal. -/
theorem LinkedQueue.observe_same (ahead0 ahead1 : Nat) : (∀ ops,
    (LinkedQueue.object (some SEM_VALUE_MAX)).observe (LinkedQueue.ofAhead ahead0 ahead1 : LinkedQueue α) ops =
      (Queue.object (some SEM_VALUE_MAX)).observe (Queue.ofAhead ahead0 ahead1) ops) ↔ ahead0 = ahead1 := by
  constructor
  · intro agree
    have lt (m : Nat) : ahead1 < m ↔ ahead0 < m := by
      have at1 := Queue.blocked_rounds m (q := (Queue.ofAhead ahead1 ahead0 : Queue α)) rfl
      have at0 := Queue.blocked_rounds m (q := (Queue.ofAhead ahead0 ahead1 : Queue α)) rfl
      rw [← LinkedQueue.observe_crossed, agree] at at1
      exact at1.symm.trans at0
    have le := (lt (ahead0 + 1)).mpr (Nat.lt_succ_self _)
    have ge := (lt (ahead1 + 1)).mp (Nat.lt_succ_self _)
    omega
  · rintro rfl
    exact LinkedQueue.observe_crossed ahead0 ahead0

/-- **A `LinkedQueue` in place of a `Queue`.** Take any two constructor arguments for which the `sem_init`s succeed. The
two classes block on the same waits and return the same values under every schedule of operations exactly if the
arguments are the same `unsigned int`; for a single distance, exactly if it is even. With the distances exchanged
they always do. -/
theorem LinkedQueue.replaces_queue (ahead0 ahead1 distance : Nat) :
    (∀ l ∈ (LinkedQueue.construct ahead0 ahead1 : Option (LinkedQueue α)), ∀ q ∈ Queue.construct ahead1 ahead0, ∀ ops,
      (LinkedQueue.object (some SEM_VALUE_MAX)).observe l ops = (Queue.object (some SEM_VALUE_MAX)).observe q ops) ∧
    (∀ l ∈ (LinkedQueue.construct ahead0 ahead1 : Option (LinkedQueue α)), ∀ q ∈ Queue.construct ahead0 ahead1,
      (∀ ops, (LinkedQueue.object (some SEM_VALUE_MAX)).observe l ops = (Queue.object (some SEM_VALUE_MAX)).observe q ops) ↔
        ahead0 % 2 ^ 32 = ahead1 % 2 ^ 32) ∧
    (∀ l ∈ (LinkedQueue.constructDistance distance : Option (LinkedQueue α)), ∀ q ∈ Queue.constructDistance distance,
      (∀ ops, (LinkedQueue.object (some SEM_VALUE_MAX)).observe l ops = (Queue.object (some SEM_VALUE_MAX)).observe q ops) ↔
        distance % 2 = 0) := by
  refine ⟨fun l made q made' ops => ?_, fun l made q made' => ?_, fun l made q made' => ?_⟩
  · rw [LinkedQueue.construct_eq_some made, Queue.construct_eq_some made']
    exact LinkedQueue.observe_crossed _ _ ops
  · rw [LinkedQueue.construct_eq_some made, Queue.construct_eq_some made']
    exact LinkedQueue.observe_same _ _
  · rw [LinkedQueue.construct_eq_some made, Queue.construct_eq_some made']
    refine (LinkedQueue.observe_same _ _).trans ?_
    omega

/-- Distance 2, and distance 1: the first cannot be told apart, the second can. -/
theorem LinkedQueue.replaces_queue_two :
    (∀ ops, (LinkedQueue.object (some SEM_VALUE_MAX)).observe (LinkedQueue.ofAhead 1 1 : LinkedQueue Nat) ops =
      (Queue.object (some SEM_VALUE_MAX)).observe (Queue.ofAhead 1 1) ops) ∧
    ¬∀ ops, (LinkedQueue.object (some SEM_VALUE_MAX)).observe (LinkedQueue.ofAhead 0 1 : LinkedQueue Nat) ops =
      (Queue.object (some SEM_VALUE_MAX)).observe (Queue.ofAhead 0 1) ops := by
  have two := (LinkedQueue.replaces_queue (α := Nat) 0 0 2).2.2 (LinkedQueue.ofAhead 1 1) rfl (Queue.ofAhead 1 1) rfl
  have one := (LinkedQueue.replaces_queue (α := Nat) 0 0 1).2.2 (LinkedQueue.ofAhead 0 1) rfl (Queue.ofAhead 0 1) rfl
  exact ⟨two.mpr rfl, fun agree => absurd (one.mp agree) (by decide)⟩

/-- Distance 1, one message and one wait of head 0: a `Queue` makes head 0 wait for the other head, a
`LinkedQueue` lets it go on. -/
theorem LinkedQueue.queue_told_apart :
    (LinkedQueue.object (some SEM_VALUE_MAX)).observe (LinkedQueue.ofDistance 1)
        [.push 7, .notify 0, .waitItem 0, .waitAhead 0] =
      [some .done, some .done, some .done, some .done] ∧
    (Queue.object (some SEM_VALUE_MAX)).observe (Queue.ofDistance 1)
        [.push 7, .notify 0, .waitItem 0, .waitAhead 0] =
      [some .done, some .done, some .done, some .blocked] := by
  decide

end KvPaxos
