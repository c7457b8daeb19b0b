import KvPaxos.Lib.Heap
import KvPaxos.Queue.Queue

/-!
# The two-headed linked list

`model::LinkedQueue`: one chain of nodes behind a sentinel, a pointer for each head and one to the
oldest node that is not deleted. A head that comes second to a node, and finds `passed`, deletes
the nodes before it. The statements of `push` and `pop` are functions of their own; one that
follows an uninitialised pointer or reads a deleted node gives `none`.

`Chain` says what the heap holds: the nodes from `free_head` on, linked in the order in which they
were made, each with its value and its flag.
-/

namespace KvPaxos

open Lib

/-- `model::Node`; `none` stands for a field that is not initialised. -/
structure Node (α : Type) where
  value : Option α
  passed : Option Bool
  next : Option Nat

/-- `model::LinkedQueue`, with the wiring of the two distance semaphores as it has it. -/
structure LinkedQueue (α : Type) where
  heap : Heap (Node α)
  tail : Nat
  heads : Fin 2 → Nat
  freeHead : Nat
  semaphores : Fin 2 → Nat := fun _ => 0
  aheadSems : Fin 2 → Nat

namespace LinkedQueue

variable {α : Type}

/-- `LinkedQueue(ahead_0, ahead_1)`: `sem_init(&ahead_sems[0], 0, ahead_1)` and
`sem_init(&ahead_sems[1], 0, ahead_0)`, for distances that `sem_init` takes as they are. -/
def ofAhead (ahead0 ahead1 : Nat) : LinkedQueue α where
  heap := Heap.empty.new ⟨none, none, none⟩
  tail := 0
  heads := fun _ => 0
  freeHead := 0
  aheadSems := fun h => if h = 0 then ahead1 else ahead0

/-- `LinkedQueue(distance)`, for such distances. -/
def ofDistance (distance : Nat) : LinkedQueue α :=
  ofAhead (distance / 2) (distance / 2 + distance % 2)

/-- `LinkedQueue(ahead_0, ahead_1)` for any two `size_t`s, with the conversions and failures of `sem_init`. -/
def construct (ahead0 ahead1 : Nat) : Option (LinkedQueue α) :=
  (semInit ahead1).bind fun value1 => (semInit ahead0).map fun value0 => ofAhead value0 value1

/-- `LinkedQueue(distance)` for any `size_t`. -/
def constructDistance (distance : Nat) : Option (LinkedQueue α) :=
  construct (distance / 2) (distance / 2 + distance % 2)

theorem construct_eq_some {ahead0 ahead1 : Nat} {q : LinkedQueue α} (h : construct ahead0 ahead1 = some q) :
    q = ofAhead (ahead0 % 2 ^ 32) (ahead1 % 2 ^ 32) := by
  obtain ⟨value1, taken1, h⟩ := Option.bind_eq_some_iff.mp h
  obtain ⟨value0, taken0, rfl⟩ := Option.map_eq_some_iff.mp h
  rw [(semInit_eq_some.mp taken0).2, (semInit_eq_some.mp taken1).2]

/-! ### The statements -/

/-- `new Node<T>(value)`; the pointer is `q.heap.next`. -/
def allocate (q : LinkedQueue α) (value : α) : LinkedQueue α :=
  { q with heap := q.heap.new ⟨some value, some false, none⟩ }

/-- `tail->next = new_node`. -/
def link (q : LinkedQueue α) (node : Nat) : Option (LinkedQueue α) :=
  (q.heap.cells q.tail).map fun last => { q with heap := q.heap.write q.tail { last with next := some node } }

/-- `tail = new_node`. -/
def advance (q : LinkedQueue α) (node : Nat) : LinkedQueue α := { q with tail := node }

/-- `notify<h>`. -/
def notify (q : LinkedQueue α) (limit : Option Nat) (h : Fin 2) : LinkedQueue α :=
  { q with semaphores := Function.update q.semaphores h (semPost limit (q.semaphores h)) }

/-- `sem_wait(&semaphores[h])`, the first half of `wait<h>`. -/
def waitItem (q : LinkedQueue α) (h : Fin 2) : Option (LinkedQueue α) :=
  if 0 < q.semaphores h then
    some { q with semaphores := Function.update q.semaphores h (q.semaphores h - 1) }
  else none

/-- `sem_wait(&ahead_sems[h])`, the second half of `wait<h>`. -/
def waitAhead (q : LinkedQueue α) (h : Fin 2) : Option (LinkedQueue α) :=
  if 0 < q.aheadSems h then
    some { q with aheadSems := Function.update q.aheadSems h (q.aheadSems h - 1) }
  else none

/-- `heads[h]->next`. -/
def readNext (q : LinkedQueue α) (h : Fin 2) : Option Nat := (q.heap.cells (q.heads h)).bind Node.next

/-- `head->value`. -/
def readValue (q : LinkedQueue α) (head : Nat) : Option α := (q.heap.cells head).bind Node.value

/-- `heads[h] = head`. -/
def moveHead (q : LinkedQueue α) (h : Fin 2) (head : Nat) : LinkedQueue α :=
  { q with heads := Function.update q.heads h head }

/-- `head->passed.load()`. -/
def loadPassed (q : LinkedQueue α) (head : Nat) : Option Bool := (q.heap.cells head).bind Node.passed

/-- `head->passed.store(true)`. -/
def storePassed (q : LinkedQueue α) (head : Nat) : Option (LinkedQueue α) :=
  (q.heap.cells head).map fun node => { q with heap := q.heap.write head { node with passed := some true } }

/-- `free_head->next`. -/
def readFree (q : LinkedQueue α) : Option Nat := (q.heap.cells q.freeHead).bind Node.next

/-- `delete free_head` and `free_head = next`. -/
def deleteFree (q : LinkedQueue α) (next : Nat) : Option (LinkedQueue α) :=
  (q.heap.cells q.freeHead).map fun _ => { q with heap := q.heap.delete q.freeHead, freeHead := next }

/-- `sem_post(&ahead_sems[h])`: the other head has popped, or `free<h>`. -/
def postAhead (q : LinkedQueue α) (limit : Option Nat) (h : Fin 2) : LinkedQueue α :=
  { q with aheadSems := Function.update q.aheadSems h (semPost limit (q.aheadSems h)) }

/-! ### The operations, with nothing in between -/

/-- `push(value)`. -/
def push (q : LinkedQueue α) (value : α) : Option (LinkedQueue α) :=
  ((q.allocate value).link q.heap.next).map fun linked => linked.advance q.heap.next

/-- The loop `while (free_head != head)`, for at most `fuel` turns. -/
def freeTo : Nat → LinkedQueue α → Nat → Option (LinkedQueue α)
  | 0, q, head => if q.freeHead = head then some q else none
  | fuel + 1, q, head =>
    if q.freeHead = head then some q
    else q.readFree.bind fun next => (q.deleteFree next).bind fun q => freeTo fuel q head

/-- `pop<h>`. A turn of the loop deletes a node, so there are fewer turns than nodes made. -/
def pop (q : LinkedQueue α) (limit : Option Nat) (h : Fin 2) : Option (α × LinkedQueue α) := do
  let head ← q.readNext h
  let value ← q.readValue head
  let moved := q.moveHead h head
  let freed ← if (← moved.loadPassed head) then freeTo moved.heap.next moved head else moved.storePassed head
  some (value, freed.postAhead limit (h + 1))

/-! ### The chain -/

section Chain

/-- Node `i` of a chain: node 0 is the sentinel, node `i` has the `i`th value, and the first `linked`
nodes are linked to the next. -/
def nodeAt (values : List α) (linked : Nat) (passed : Nat → Bool) (i : Nat) : Node α where
  value := if i = 0 then none else values[i - 1]?
  passed := if i = 0 then none else some (passed i)
  next := if i < linked then some (i + 1) else none

/-- The flag is set on the nodes a head has come to the end of; `done` says how far each is. -/
def passedBy (done : Fin 2 → Nat) (i : Nat) : Bool := decide (i ≤ done 0 ∨ i ≤ done 1)

theorem passedBy_iff {done : Fin 2 → Nat} {i : Nat} : passedBy done i = true ↔ ∃ h, i ≤ done h := by
  rw [passedBy, decide_eq_true_iff]
  constructor
  · rintro (le | le)
    · exact ⟨0, le⟩
    · exact ⟨1, le⟩
  · rintro ⟨h, le⟩
    rcases eq_or_other 0 h with rfl | rfl
    · exact Or.inl le
    · exact Or.inr le

theorem passedBy_eq_false {done : Fin 2 → Nat} {i : Nat} (beyond : ∀ h, done h < i) : passedBy done i = false := by
  rw [Bool.eq_false_iff, Ne, passedBy_iff]
  rintro ⟨h, le⟩
  exact absurd (beyond h) (Nat.not_lt.mpr le)

/-- A head that reaches its next node sets the flag there, or finds it set. -/
theorem passedBy_update (done : Fin 2 → Nat) (h : Fin 2) :
    passedBy (Function.update done h (done h + 1)) = Function.update (passedBy done) (done h + 1) true := by
  funext i
  rw [Bool.eq_iff_iff, passedBy_iff, Function.update_apply]
  by_cases here : i = done h + 1
  · rw [if_pos here]
    exact iff_of_true ⟨h, by rw [Function.update_self]; exact Nat.le_of_eq here⟩ rfl
  · rw [if_neg here, passedBy_iff]
    refine exists_congr fun h' => ?_
    by_cases same : h' = h
    · subst same
      rw [Function.update_self]
      omega
    · rw [Function.update_of_ne same]

/-- The heap holds the nodes of the chain from `freeHead` on. -/
structure Chain (values : List α) (linked : Nat) (passed : Nat → Bool) (freeHead : Nat) (heap : Heap (Node α)) :
    Prop where
  next : heap.next = values.length + 1
  cells : ∀ i, heap.cells i =
    if freeHead ≤ i ∧ i ≤ values.length then some (nodeAt values linked passed i) else none

namespace Chain

variable {values : List α} {linked freeHead i : Nat} {passed : Nat → Bool} {heap : Heap (Node α)}

theorem live (h : Chain values linked passed freeHead heap) (low : freeHead ≤ i) (high : i ≤ values.length) :
    heap.cells i = some (nodeAt values linked passed i) := by
  rw [h.cells, if_pos ⟨low, high⟩]

theorem live_iff (h : Chain values linked passed freeHead heap) :
    heap.Live i ↔ freeHead ≤ i ∧ i ≤ values.length := by
  unfold Heap.Live
  rw [h.cells]
  split <;> simp [*]

/-- The new queue: the sentinel alone. -/
theorem empty : Chain ([] : List α) 0 passed 0 (Heap.empty.new ⟨none, none, none⟩) := by
  refine ⟨rfl, fun i => ?_⟩
  by_cases zero : i = 0
  · subst zero
    rfl
  · rw [if_neg (by rintro ⟨-, le⟩; exact zero (Nat.le_zero.mp le))]
    exact Function.update_of_ne zero _ _

/-- `new Node<T>(value)`. -/
theorem allocate (h : Chain values linked passed freeHead heap) (value : α) (order : linked ≤ values.length)
    (free : freeHead ≤ values.length) (unpassed : passed (values.length + 1) = false) :
    Chain (values ++ [value]) linked passed freeHead (heap.new ⟨some value, some false, none⟩) := by
  have length : (values ++ [value]).length = values.length + 1 := by simp
  refine ⟨by rw [length, ← h.next]; rfl, fun i => ?_⟩
  show Function.update heap.cells heap.next _ i = _
  rw [Function.update_apply, h.next, length]
  by_cases new : i = values.length + 1
  · subst new
    have unlinked : ¬ values.length + 1 < linked := by omega
    rw [if_pos rfl, if_pos ⟨by omega, Nat.le_refl _⟩, nodeAt, if_neg (Nat.succ_ne_zero _),
      if_neg (Nat.succ_ne_zero _), if_neg unlinked, unpassed]
    simp
  · rw [if_neg new, h.cells]
    by_cases here : freeHead ≤ i ∧ i ≤ values.length
    · rw [if_pos here, if_pos ⟨here.1, by omega⟩]
      unfold nodeAt
      by_cases zero : i = 0
      · simp [zero]
      · rw [List.getElem?_append_left (by omega)]
    · rw [if_neg here, if_neg (by omega)]

/-- `tail->next = new_node`, where the nodes before the last are linked. -/
theorem link (h : Chain values linked passed freeHead heap) (low : freeHead ≤ linked) (high : linked < values.length) :
    Chain values (linked + 1) passed freeHead
      (heap.write linked { nodeAt values linked passed linked with next := some (linked + 1) }) := by
  refine ⟨h.next, fun i => ?_⟩
  show Function.update heap.cells linked _ i = _
  rw [Function.update_apply, h.live low (Nat.le_of_lt high)]
  by_cases here : i = linked
  · subst here
    rw [if_pos rfl, if_pos ⟨low, Nat.le_of_lt high⟩, nodeAt, nodeAt, if_pos (Nat.lt_succ_self i)]
    rfl
  · rw [if_neg here, h.cells]
    refine if_congr Iff.rfl ?_ rfl
    unfold nodeAt
    have same : i < linked ↔ i < linked + 1 := by omega
    simp only [same]

/-- `head->passed.store(true)`. -/
theorem store (h : Chain values linked passed freeHead heap) (pos : i ≠ 0) (low : freeHead ≤ i)
    (high : i ≤ values.length) : Chain values linked (Function.update passed i true) freeHead
      (heap.write i { nodeAt values linked passed i with passed := some true }) := by
  refine ⟨h.next, fun j => ?_⟩
  show Function.update heap.cells i _ j = _
  rw [Function.update_apply, h.live low high]
  by_cases here : j = i
  · subst here
    rw [if_pos rfl, if_pos ⟨low, high⟩, nodeAt, nodeAt, Function.update_self, if_neg pos, if_neg pos, if_neg pos]
    rfl
  · rw [if_neg here, h.cells]
    refine if_congr Iff.rfl ?_ rfl
    unfold nodeAt
    rw [Function.update_of_ne here]

/-- `delete free_head`. -/
theorem delete (h : Chain values linked passed freeHead heap) :
    Chain values linked passed (freeHead + 1) (heap.delete freeHead) := by
  refine ⟨h.next, fun i => ?_⟩
  show Function.update heap.cells freeHead none i = _
  rw [Function.update_apply]
  by_cases here : i = freeHead
  · rw [if_pos here, if_neg (by omega)]
  · rw [if_neg here, h.cells]
    exact if_congr (by omega) rfl rfl

/-! What the statements do on a chain. -/

variable {q : LinkedQueue α} {h : Fin 2}

theorem readNext (chain : Chain values linked passed q.freeHead q.heap) (free : q.freeHead ≤ q.heads h)
    (inside : q.heads h < linked) (short : linked ≤ values.length) : q.readNext h = some (q.heads h + 1) := by
  rw [LinkedQueue.readNext, chain.live free (by omega), Option.bind_some]
  exact if_pos inside

theorem readValue (chain : Chain values linked passed q.freeHead q.heap) (free : q.freeHead ≤ i + 1)
    (inside : i < values.length) : q.readValue (i + 1) = some values[i] := by
  rw [LinkedQueue.readValue, chain.live free inside, Option.bind_some]
  exact List.getElem?_eq_getElem inside

theorem loadPassed (chain : Chain values linked passed q.freeHead q.heap) (free : q.freeHead ≤ i + 1)
    (inside : i < values.length) : q.loadPassed (i + 1) = some (passed (i + 1)) := by
  rw [LinkedQueue.loadPassed, chain.live free inside]
  rfl

theorem storePassed (chain : Chain values linked passed q.freeHead q.heap) (free : q.freeHead ≤ i + 1)
    (inside : i < values.length) : ∃ heap, q.storePassed (i + 1) = some { q with heap := heap } ∧
      Chain values linked (Function.update passed (i + 1) true) q.freeHead heap := by
  refine ⟨_, ?_, chain.store (Nat.succ_ne_zero i) free inside⟩
  rw [LinkedQueue.storePassed, chain.live free inside, Option.map_some]

theorem linkTail (chain : Chain values linked passed q.freeHead q.heap) (tail : q.tail = linked)
    (free : q.freeHead ≤ linked) (last : linked < values.length) :
    ∃ heap, q.link (linked + 1) = some { q with heap := heap } ∧
      Chain values (linked + 1) passed q.freeHead heap := by
  refine ⟨_, ?_, chain.link free last⟩
  rw [LinkedQueue.link, tail, chain.live free (Nat.le_of_lt last), Option.map_some]

theorem readFree (chain : Chain values linked passed q.freeHead q.heap) (inside : q.freeHead < linked)
    (short : linked ≤ values.length) : q.readFree = some (q.freeHead + 1) := by
  rw [LinkedQueue.readFree, chain.live (Nat.le_refl _) (by omega), Option.bind_some]
  exact if_pos inside

theorem deleteFree (chain : Chain values linked passed q.freeHead q.heap) (inside : q.freeHead ≤ values.length) :
    ∃ heap, q.deleteFree (q.freeHead + 1) = some { q with heap := heap, freeHead := q.freeHead + 1 } ∧
      Chain values linked passed (q.freeHead + 1) heap := by
  refine ⟨_, ?_, chain.delete⟩
  rw [LinkedQueue.deleteFree, chain.live (Nat.le_refl _) inside, Option.map_some]

/-- The free loop ends at its node, and deletes exactly the nodes before it. -/
theorem freeTo {head : Nat} (order : head ≤ linked) (short : linked ≤ values.length) :
    ∀ {fuel : Nat} {q : LinkedQueue α}, Chain values linked passed q.freeHead q.heap → q.freeHead ≤ head →
      head - q.freeHead ≤ fuel →
      ∃ heap, q.freeTo fuel head = some { q with heap := heap, freeHead := head } ∧
        Chain values linked passed head heap := by
  intro fuel
  induction fuel with
  | zero =>
    intro q chain le enough
    obtain rfl : q.freeHead = head := by omega
    exact ⟨q.heap, if_pos rfl, chain⟩
  | succ fuel ih =>
    intro q chain le enough
    by_cases done : q.freeHead = head
    · subst done
      exact ⟨q.heap, if_pos rfl, chain⟩
    · have before : q.freeHead < linked := by omega
      obtain ⟨heap, deleted, shorter⟩ := chain.deleteFree (by omega)
      obtain ⟨heap', run, rest⟩ := ih (q := { q with heap := heap, freeHead := q.freeHead + 1 }) shorter
        (by show q.freeHead + 1 ≤ head; omega) (by show head - (q.freeHead + 1) ≤ fuel; omega)
      refine ⟨heap', ?_, rest⟩
      rw [LinkedQueue.freeTo, if_neg done, chain.readFree before short, Option.bind_some, deleted, Option.bind_some,
        run]

end Chain

end Chain

end LinkedQueue

end KvPaxos
