import Mathlib.Logic.Function.Basic
import KvPaxos.Lib.Pair

/-!
# The two-headed queue

`model::Queue`: two copies of the pushed sequence, one for each head, an item semaphore for
each head and a distance semaphore for each head, which the other head posts. The
operations are cut where another thread can run in between: `push` into two stores,
`wait` into its two `sem_wait`s, `pop` into the removal and the post for the other head.

A semaphore counts up to a `limit`; beyond it `sem_post` fails and changes nothing, and
the callers ignore its result. Without a limit it is an unbounded counter.
-/

namespace KvPaxos

/-- `model::Queue`; the heads are 0 and 1, and the other head of `h` is `h + 1`. -/
structure Queue (α : Type) where
  semaphores : Fin 2 → Nat := fun _ => 0
  aheadSems : Fin 2 → Nat
  queues : Fin 2 → List α := fun _ => []

/-- `SEM_VALUE_MAX`. -/
def SEM_VALUE_MAX : Nat := 2147483647

/-- `sem_init` with a `size_t`: it is converted to `unsigned int`, and above `SEM_VALUE_MAX` the call fails, which the
constructors ignore, and the semaphore has no value. -/
def semInit (value : Nat) : Option Nat :=
  if value % 2 ^ 32 ≤ SEM_VALUE_MAX then some (value % 2 ^ 32) else none

theorem semInit_eq_some {value word : Nat} : semInit value = some word ↔ word ≤ SEM_VALUE_MAX ∧ value % 2 ^ 32 = word := by
  unfold semInit
  constructor
  · intro taken
    obtain ⟨small, same⟩ := Option.ite_none_right_eq_some.mp taken
    cases same
    exact ⟨small, rfl⟩
  · rintro ⟨small, rfl⟩
    exact if_pos small

/-- `sem_post`. -/
def semPost (limit : Option Nat) (value : Nat) : Nat :=
  if limit = some value then value else value + 1

theorem semPost_le (limit : Option Nat) (value : Nat) : semPost limit value ≤ value + 1 := by
  unfold semPost
  split <;> omega

theorem semPost_of_ne {limit : Option Nat} {value : Nat} (h : limit ≠ some value) :
    semPost limit value = value + 1 := if_neg h

/-- A post never leaves the semaphore at 0. -/
theorem semPost_pos (value : Nat) : 0 < semPost (some SEM_VALUE_MAX) value := by
  unfold semPost
  split
  · rename_i full
    rw [← Option.some_inj.mp full]
    decide
  · exact Nat.succ_pos _

/-- A post raises the semaphore by 1 or not at all. -/
theorem exists_semPost (limit : Option Nat) (value : Nat) : ∃ d ≤ 1, semPost limit value = value + d := by
  unfold semPost
  split
  · exact ⟨0, Nat.zero_le _, rfl⟩
  · exact ⟨1, Nat.le_refl _, rfl⟩

namespace Queue

variable {α : Type}

/-- `Queue(ahead_0, ahead_1)` for distances that `sem_init` takes as they are, up to `SEM_VALUE_MAX`. -/
def ofAhead (ahead0 ahead1 : Nat) : Queue α where
  aheadSems := fun h => if h = 0 then ahead0 else ahead1

/-- `Queue(distance)`, for such distances. -/
def ofDistance (distance : Nat) : Queue α :=
  ofAhead (distance / 2) (distance / 2 + distance % 2)

/-- `Queue(ahead_0, ahead_1)` for any two `size_t`s: `sem_init(&ahead_sems[0], 0, ahead_0)` and
`sem_init(&ahead_sems[1], 0, ahead_1)`. There is no queue to speak of where one of them fails. -/
def construct (ahead0 ahead1 : Nat) : Option (Queue α) :=
  (semInit ahead0).bind fun value0 => (semInit ahead1).map fun value1 => ofAhead value0 value1

/-- `Queue(distance)` for any `size_t`. -/
def constructDistance (distance : Nat) : Option (Queue α) :=
  construct (distance / 2) (distance / 2 + distance % 2)

theorem construct_eq_some {ahead0 ahead1 : Nat} {q : Queue α} (h : construct ahead0 ahead1 = some q) :
    q = ofAhead (ahead0 % 2 ^ 32) (ahead1 % 2 ^ 32) := by
  obtain ⟨value0, taken0, h⟩ := Option.bind_eq_some_iff.mp h
  obtain ⟨value1, taken1, rfl⟩ := Option.map_eq_some_iff.mp h
  rw [(semInit_eq_some.mp taken0).2, (semInit_eq_some.mp taken1).2]

/-- `scheduling_queue_` as the schedulers' constructors build it; distance 0 is the old tracking. -/
def schedulerQueue (queueHeadDistance : Nat) : Queue α :=
  if queueHeadDistance = 0 then ofAhead SEM_VALUE_MAX 0 else ofDistance queueHeadDistance

/-- The half of `push` for head `h`. -/
def pushTo (q : Queue α) (h : Fin 2) (value : α) : Queue α :=
  { q with queues := Function.update q.queues h (q.queues h ++ [value]) }

/-- `notify<h>`. -/
def notify (q : Queue α) (limit : Option Nat) (h : Fin 2) : Queue α :=
  { q with semaphores := Function.update q.semaphores h (semPost limit (q.semaphores h)) }

/-- `sem_wait(&semaphores[h])`, the first half of `wait<h>`. -/
def waitItem (q : Queue α) (h : Fin 2) : Option (Queue α) :=
  if 0 < q.semaphores h then
    some { q with semaphores := Function.update q.semaphores h (q.semaphores h - 1) }
  else none

/-- `sem_wait(&ahead_sems[h])`, the second half of `wait<h>`. -/
def waitAhead (q : Queue α) (h : Fin 2) : Option (Queue α) :=
  if 0 < q.aheadSems h then
    some { q with aheadSems := Function.update q.aheadSems h (q.aheadSems h - 1) }
  else none

/-- `front()` and `pop()`, the first half of `pop<h>`; on an empty queue they have no meaning. -/
def popFront (q : Queue α) (h : Fin 2) : Option (α × Queue α) :=
  match q.queues h with
  | [] => none
  | value :: rest => some (value, { q with queues := Function.update q.queues h rest })

/-- `sem_post(&ahead_sems[h])`: the other head has popped, or `free<h>`. -/
def postAhead (q : Queue α) (limit : Option Nat) (h : Fin 2) : Queue α :=
  { q with aheadSems := Function.update q.aheadSems h (semPost limit (q.aheadSems h)) }

theorem waitItem_eq_some {q q' : Queue α} {h : Fin 2} : q.waitItem h = some q' ↔ 0 < q.semaphores h ∧
    { q with semaphores := Function.update q.semaphores h (q.semaphores h - 1) } = q' := by
  unfold waitItem
  split <;> simp [*]

theorem waitAhead_eq_some {q q' : Queue α} {h : Fin 2} : q.waitAhead h = some q' ↔ 0 < q.aheadSems h ∧
    { q with aheadSems := Function.update q.aheadSems h (q.aheadSems h - 1) } = q' := by
  unfold waitAhead
  split <;> simp [*]

theorem popFront_eq_some {q q' : Queue α} {h : Fin 2} {value : α} : q.popFront h = some (value, q') ↔
    ∃ rest, q.queues h = value :: rest ∧ { q with queues := Function.update q.queues h rest } = q' := by
  unfold popFront
  split
  · rename_i eq
    simp [eq]
  · rename_i v rest eq
    simp only [Option.some.injEq, Prod.mk.injEq, eq, List.cons.injEq]
    constructor
    · rintro ⟨rfl, rfl⟩
      exact ⟨rest, ⟨rfl, rfl⟩, rfl⟩
    · rintro ⟨rest', ⟨rfl, rfl⟩, rfl⟩
      exact ⟨rfl, rfl⟩

end Queue

end KvPaxos
