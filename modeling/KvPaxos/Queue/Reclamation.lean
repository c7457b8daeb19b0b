import KvPaxos.Lib.System
import KvPaxos.Queue.LinkedQueue

/-!
# The nodes of the linked list under two heads

One producer and two consumers on a `LinkedQueue`, interleaved at every access to a node. `passed`
is read and set in two steps, so both heads may find it false at one node, and then neither deletes.

How far a head is `done` is the last node whose flag it has dealt with. A head inside the free loop
stands on a node the other one is done with, so the other head is further on: it cannot be in the
loop too, and no node it still reads is deleted.
-/

namespace KvPaxos

open Lib LinkedQueue

namespace Reclamation

/-- Where the consumer of a head is. -/
inductive Place (α : Type) where
  /-- `sem_wait(&semaphores[h])`. -/
  | waitingItem
  /-- `sem_wait(&ahead_sems[h])`. -/
  | waitingAhead
  /-- `head = heads[h]->next`. -/
  | readingNext
  /-- `curr_value = head->value`. -/
  | copying (head : Nat)
  /-- `heads[h] = head`. -/
  | moving (head : Nat) (value : α)
  /-- `head->passed.load()`. -/
  | loading (head : Nat) (value : α)
  /-- `head->passed.store(true)`. -/
  | storing (head : Nat) (value : α)
  /-- `free_head != head`, and `next = free_head->next`. -/
  | freeing (head : Nat) (value : α)
  /-- `delete free_head`, and `free_head = next`. -/
  | deleting (head : Nat) (value : α) (next : Nat)
  /-- `sem_post(&ahead_sems[h + 1])`; `found` says what `passed` was. -/
  | releasing (head : Nat) (value : α) (found : Bool)
  deriving DecidableEq

/-- Where the producer is in `push`. -/
inductive Producer where
  | idle
  /-- `tail->next = new_node`. -/
  | linking (node : Nat)
  /-- `tail = new_node`. -/
  | advancing (node : Nat)
  deriving DecidableEq

/-- `pushed`, `completed`, `notified` and `deleted` are ghosts. -/
structure State (α : Type) where
  queue : LinkedQueue α
  producer : Producer := .idle
  places : Fin 2 → Place α := fun _ => .waitingItem
  pushed : List α := []
  completed : Nat := 0
  notified : Fin 2 → Nat := fun _ => 0
  deleted : List Nat := []

/-- The producer starts a `push`, its next statement, a `notify<h>`, or the next statement of a consumer. -/
inductive Label (α : Type) where
  | push (value : α)
  | produce
  | notify (h : Fin 2)
  | consume (h : Fin 2)

variable {α : Type}

/-- The next statement of `push`: the link of the new node behind the tail, and the tail moved to it. The node was
allocated by the label `push`. -/
def produce (s : State α) : Option (State α) :=
  match s.producer with
  | .idle => none
  | .linking node => (s.queue.link node).map fun q => { s with queue := q, producer := .advancing node }
  | .advancing node =>
    some { s with queue := s.queue.advance node, producer := .idle, completed := s.completed + 1 }

/-- The consumer of `h` comes to `place`. -/
def State.goTo (s : State α) (h : Fin 2) (place : Place α) : State α :=
  { s with places := Function.update s.places h place }

/-- The next statement of the consumer of `h`, at the grain of single reads and writes: the two waits, `head->next`,
its value, the head moved, `passed` loaded, then either the free loop, a node a turn, or the store of `passed`, and
the post for the other head. `none` stands for a wait that blocks, and for a statement that reads or writes a node
which is deleted or a field which is not set. -/
def consume (s : State α) (h : Fin 2) : Option (State α) :=
  match s.places h with
  | .waitingItem => (s.queue.waitItem h).map fun q => { s with queue := q }.goTo h .waitingAhead
  | .waitingAhead => (s.queue.waitAhead h).map fun q => { s with queue := q }.goTo h .readingNext
  | .readingNext => (s.queue.readNext h).map fun head => s.goTo h (.copying head)
  | .copying head => (s.queue.readValue head).map fun value => s.goTo h (.moving head value)
  | .moving head value => some ({ s with queue := s.queue.moveHead h head }.goTo h (.loading head value))
  | .loading head value => (s.queue.loadPassed head).map fun passed =>
      s.goTo h (if passed then .freeing head value else .storing head value)
  | .storing head value => (s.queue.storePassed head).map fun q =>
      { s with queue := q }.goTo h (.releasing head value false)
  | .freeing head value =>
    if s.queue.freeHead = head then some (s.goTo h (.releasing head value true))
    else s.queue.readFree.map fun next => s.goTo h (.deleting head value next)
  | .deleting head value next => (s.queue.deleteFree next).map fun q =>
      { s with queue := q, deleted := s.deleted ++ [s.queue.freeHead] }.goTo h (.freeing head value)
  | .releasing _ _ _ =>
    some ({ s with queue := s.queue.postAhead (some SEM_VALUE_MAX) (h + 1) }.goTo h .waitingItem)

/-- One statement of one of the threads. The notifies are the caller's own: a head is notified at most once for each
`push` that has returned. -/
def step (s : State α) : Label α → Option (State α)
  | .push value =>
    match s.producer with
    | .idle => some { s with
        queue := s.queue.allocate value
        producer := .linking s.queue.heap.next
        pushed := s.pushed ++ [value] }
    | _ => none
  | .produce => produce s
  | .notify h =>
    if s.notified h < s.completed then
      some { s with
        queue := s.queue.notify (some SEM_VALUE_MAX) h
        notified := Function.update s.notified h (s.notified h + 1) }
    else none
  | .consume h => consume s h

/-- The threads around a new queue. -/
def system (queue : LinkedQueue α) : System (State α) (Label α) := ⟨{ queue := queue }, step⟩

/-! ### The invariant -/

/-- 1 from the first `sem_wait` of `wait` until the head is moved. -/
def Place.holdsItem : Place α → Nat
  | .waitingAhead | .readingNext | .copying _ | .moving _ _ => 1
  | _ => 0

/-- 1 while the head stands on a node whose flag it has not dealt with. -/
def Place.behind : Place α → Nat
  | .loading _ _ | .storing _ _ | .freeing _ _ | .deleting _ _ _ => 1
  | _ => 0

/-- In `while (free_head != head)`. -/
def Place.inFreeLoop : Place α → Bool
  | .freeing _ _ | .deleting _ _ _ => true
  | _ => false

/-- In one of the two `sem_wait`s. -/
def Place.waits : Place α → Bool
  | .waitingItem | .waitingAhead => true
  | _ => false

/-- The last node whose flag the head has dealt with. -/
def State.done (s : State α) (h : Fin 2) : Nat := s.queue.heads h - (s.places h).behind

/-- How many nodes are linked to the next. -/
def State.linked (s : State α) : Nat :=
  match s.producer with
  | .advancing _ => s.completed + 1
  | _ => s.completed

/-- What the producer knows: the new node is the last one. -/
def Producer.Ok (made completed : Nat) : Producer → Prop
  | .idle => completed = made
  | .linking node | .advancing node => node = made ∧ completed + 1 = made

/-- What a consumer knows, with its head on `head`, the other head done with `other`, and `free` the
oldest node. -/
def Place.Ok (current other free : Nat) : Place α → Prop
  | .copying head | .moving head _ => head = current + 1
  | .loading head _ | .storing head _ => head = current ∧ 0 < current
  | .freeing head _ => head = current ∧ 0 < current ∧ head ≤ other
  | .deleting head _ next => head = current ∧ 0 < current ∧ head ≤ other ∧ free ≠ head ∧ next = free + 1
  | .releasing head _ found => head = current ∧ (found = true → head ≤ free)
  | _ => True

/-- The joint invariant. -/
structure Inv (s : State α) : Prop where
  chain : Chain s.pushed s.linked (passedBy s.done) s.queue.freeHead s.queue.heap
  tail : s.queue.tail = s.completed
  producer : s.producer.Ok s.pushed.length s.completed
  free : ∀ h, s.queue.freeHead ≤ s.queue.heads h
  items : ∀ h, s.queue.semaphores h + (s.places h).holdsItem + s.queue.heads h ≤ s.notified h
  notified : ∀ h, s.notified h ≤ s.completed
  places : ∀ h, (s.places h).Ok (s.queue.heads h) (s.done (h + 1)) s.queue.freeHead
  deleted : s.deleted = List.range s.queue.freeHead

/-- What a consumer knows stays true while the other head goes on, and while nobody else deletes. -/
theorem Place.Ok.mono {place : Place α} {current other other' free free' : Nat} (ok : place.Ok current other free)
    (forward : other ≤ other') (less : free ≤ free') (alone : place.inFreeLoop = true → free' = free) :
    place.Ok current other' free' := by
  cases place with
  | freeing head value => exact ⟨ok.1, ok.2.1, Nat.le_trans ok.2.2 forward⟩
  | deleting head value next =>
    rw [alone rfl]
    exact ⟨ok.1, ok.2.1, Nat.le_trans ok.2.2.1 forward, ok.2.2.2⟩
  | releasing head value found => exact ⟨ok.1, fun found => Nat.le_trans (ok.2 found) less⟩
  | _ => exact ok

theorem Place.Ok.inFreeLoop {place : Place α} {current other free : Nat} (ok : place.Ok current other free)
    (loop : place.inFreeLoop = true) : current ≤ other ∧ 0 < current ∧ place.behind = 1 := by
  cases place with
  | freeing head value => exact ⟨ok.1 ▸ ok.2.2, ok.2.1, rfl⟩
  | deleting head value next => exact ⟨ok.1 ▸ ok.2.2.1, ok.2.1, rfl⟩
  | _ => cases loop

namespace Inv

variable {s s' : State α} {h : Fin 2}

theorem init (ahead0 ahead1 : Nat) : Inv (system (LinkedQueue.ofAhead ahead0 ahead1 : LinkedQueue α)).init where
  chain := Chain.empty
  tail := rfl
  producer := rfl
  free _ := Nat.le_refl 0
  items _ := Nat.le_refl 0
  notified _ := Nat.le_refl 0
  places _ := trivial
  deleted := rfl

/-- No more nodes are linked than made. -/
theorem linked_le (inv : Inv s) : s.completed ≤ s.linked ∧ s.linked ≤ s.pushed.length := by
  have producer := inv.producer
  unfold State.linked
  unfold Producer.Ok at producer
  split at producer <;> simp_all <;> omega

/-- A head in the free loop stands on a node the other head is done with. -/
theorem le_done (inv : Inv s) (loop : (s.places h).inFreeLoop = true) :
    s.queue.heads h ≤ s.done (h + 1) ∧ s.done h < s.queue.heads h := by
  obtain ⟨le, pos, behind⟩ := (inv.places h).inFreeLoop loop
  refine ⟨le, ?_⟩
  unfold State.done
  omega

/-- **The two heads are never in the free loop at the same time.** -/
theorem not_both (inv : Inv s) (h : Fin 2) (loop : (s.places h).inFreeLoop = true) :
    (s.places (h + 1)).inFreeLoop = false := by
  by_contra other
  rw [Bool.not_eq_false] at other
  have here := inv.le_done loop
  have there := inv.le_done other
  rw [other_other] at there
  omega

/-- What a statement of the consumer of `h` owes the invariant: it comes to `place` with its head on `head`. -/
theorem consumed (inv : Inv s) (queue : LinkedQueue α) {place : Place α} (head : Nat) (deleted : List Nat)
    (tail : queue.tail = s.queue.tail) (heads : queue.heads = Function.update s.queue.heads h head)
    (items : ∀ h', queue.semaphores h' + (Function.update s.places h place h').holdsItem +
      Function.update s.queue.heads h head h' ≤ s.notified h')
    (forward : s.done h ≤ head - place.behind)
    (chain : Chain s.pushed s.linked (passedBy (Function.update s.done h (head - place.behind))) queue.freeHead
      queue.heap)
    (less : s.queue.freeHead ≤ queue.freeHead)
    (alone : (s.places (h + 1)).inFreeLoop = true → queue.freeHead = s.queue.freeHead)
    (free : ∀ h', queue.freeHead ≤ Function.update s.queue.heads h head h')
    (ok : place.Ok head (s.done (h + 1)) queue.freeHead) (gone : deleted = List.range queue.freeHead) :
    Inv ({ s with queue := queue, deleted := deleted }.goTo h place) := by
  have done : ({ s with queue := queue, deleted := deleted }.goTo h place).done =
      Function.update s.done h (head - place.behind) := by
    funext h'
    show queue.heads h' - (Function.update s.places h place h').behind = _
    rw [heads, Function.update_apply, Function.update_apply, Function.update_apply]
    split
    · rfl
    · rfl
  refine ⟨?_, ?_, inv.producer, ?_, ?_, inv.notified, ?_, gone⟩
  · rw [done]
    exact chain
  · exact tail.trans inv.tail
  · show ∀ h', queue.freeHead ≤ queue.heads h'
    rw [heads]
    exact free
  · show ∀ h', queue.semaphores h' + (Function.update s.places h place h').holdsItem + queue.heads h' ≤ s.notified h'
    rw [heads]
    exact items
  · intro h'
    show (Function.update s.places h place h').Ok (queue.heads h') _ queue.freeHead
    rw [done, heads]
    rcases eq_or_other h h' with rfl | rfl
    · rw [Function.update_self, Function.update_self, Function.update_of_ne (other_ne h')]
      exact ok
    · rw [Function.update_of_ne (other_ne h), Function.update_of_ne (other_ne h), other_other, Function.update_self]
      have known := inv.places (h + 1)
      rw [other_other] at known
      exact known.mono forward less alone

/-- A statement that neither takes an item nor moves the head. -/
theorem items_same (inv : Inv s) {place : Place α} (items : place.holdsItem = (s.places h).holdsItem) (h' : Fin 2) :
    s.queue.semaphores h' + (Function.update s.places h place h').holdsItem +
      Function.update s.queue.heads h (s.queue.heads h) h' ≤ s.notified h' := by
  rw [Function.update_eq_self]
  have before := inv.items h'
  rcases eq_or_other h h' with rfl | rfl
  · rw [Function.update_self, items]
    exact before
  · rw [Function.update_of_ne (other_ne h)]
    exact before

/-- The same for a statement that leaves the nodes, the heads and the item semaphores as they are. -/
theorem moved (inv : Inv s) {place : Place α} (items : place.holdsItem = (s.places h).holdsItem)
    (behind : place.behind = (s.places h).behind)
    (ok : place.Ok (s.queue.heads h) (s.done (h + 1)) s.queue.freeHead) : Inv (s.goTo h place) := by
  have same : s.queue.heads h - place.behind = s.done h := by rw [behind, State.done]
  refine inv.consumed s.queue _ s.deleted rfl (Function.update_eq_self h _).symm (inv.items_same items)
    (Nat.le_of_eq same.symm) ?_ (Nat.le_refl _) (fun _ => rfl) ?_ ok inv.deleted
  · rw [same, Function.update_eq_self]
    exact inv.chain
  · rw [Function.update_eq_self]
    exact inv.free

/-! The statements of a consumer, one by one. -/

section Statements

variable {head next : Nat} {value : α} {found : Bool}

/-- A post of an item is used up. -/
theorem waitItem (inv : Inv s) (here : s.places h = .waitingItem) (step : consume s h = some s') : Inv s' := by
  simp only [consume, here] at step
  obtain ⟨q, take, rfl⟩ := Option.map_eq_some_iff.mp step
  unfold LinkedQueue.waitItem at take
  split at take
  · rename_i posted
    cases take
    have same : s.queue.heads h - (Place.waitingAhead : Place α).behind = s.done h := by
      rw [State.done, here]
      rfl
    refine inv.consumed _ _ s.deleted rfl (Function.update_eq_self h _).symm (fun h' => ?_)
      (Nat.le_of_eq same.symm) ?_ (Nat.le_refl _) (fun _ => rfl) ?_ trivial inv.deleted
    · rw [Function.update_eq_self]
      have before := inv.items h'
      show Function.update s.queue.semaphores h _ h' + _ + _ ≤ _
      rcases eq_or_other h h' with rfl | rfl
      · rw [here] at before
        rw [Function.update_self, Function.update_self]
        simp only [Place.holdsItem] at before ⊢
        omega
      · rw [Function.update_of_ne (other_ne h), Function.update_of_ne (other_ne h)]
        exact before
    · rw [same, Function.update_eq_self]
      exact inv.chain
    · rw [Function.update_eq_self]
      exact inv.free
  · cases take

theorem posted (inv : Inv s) (aheadSems : Fin 2 → Nat) :
    Inv { s with queue := { s.queue with aheadSems := aheadSems } } :=
  ⟨inv.chain, inv.tail, inv.producer, inv.free, inv.items, inv.notified, inv.places, inv.deleted⟩

theorem waitAhead (inv : Inv s) (here : s.places h = .waitingAhead) (step : consume s h = some s') : Inv s' := by
  simp only [consume, here] at step
  obtain ⟨q, take, rfl⟩ := Option.map_eq_some_iff.mp step
  unfold LinkedQueue.waitAhead at take
  split at take
  · cases take
    refine (inv.posted _).moved ?_ ?_ trivial
    · show _ = (s.places h).holdsItem
      rw [here]
      rfl
    · show _ = (s.places h).behind
      rw [here]
      rfl
  · cases take

/-- A head that holds an item has a node behind it. -/
theorem item (inv : Inv s) (holds : (s.places h).holdsItem = 1) : s.queue.heads h < s.linked := by
  have items := inv.items h
  have notified := inv.notified h
  have linked := inv.linked_le
  omega

theorem readNext (inv : Inv s) (here : s.places h = .readingNext) : ∃ s', consume s h = some s' ∧ Inv s' := by
  have next := inv.chain.readNext (inv.free h) (inv.item (by rw [here]; rfl)) inv.linked_le.2
  refine ⟨s.goTo h (.copying (s.queue.heads h + 1)), ?_, ?_⟩
  · rw [consume, here]
    simp only [next, Option.map_some]
  · exact inv.moved (by rw [here]; rfl) (by rw [here]; rfl) rfl

theorem copy (inv : Inv s) (here : s.places h = .copying head) : ∃ s', consume s h = some s' ∧ Inv s' := by
  have ok := inv.places h
  rw [here] at ok
  obtain rfl : head = s.queue.heads h + 1 := ok
  have inside : s.queue.heads h < s.pushed.length :=
    Nat.lt_of_lt_of_le (inv.item (by rw [here]; rfl)) inv.linked_le.2
  have value := inv.chain.readValue (Nat.le_succ_of_le (inv.free h)) inside
  refine ⟨s.goTo h (.moving (s.queue.heads h + 1) s.pushed[s.queue.heads h]), ?_, ?_⟩
  · rw [consume, here]
    simp only [value, Option.map_some]
  · exact inv.moved (by rw [here]; rfl) (by rw [here]; rfl) rfl

/-- The head moves, and is behind by the node it comes to. -/
theorem move (inv : Inv s) (here : s.places h = .moving head value) : ∃ s', consume s h = some s' ∧ Inv s' := by
  have ok := inv.places h
  rw [here] at ok
  obtain rfl : head = s.queue.heads h + 1 := ok
  refine ⟨_, by rw [consume, here], ?_⟩
  have same : s.queue.heads h + 1 - (Place.loading (s.queue.heads h + 1) value).behind = s.done h := by
    rw [State.done, here]
    rfl
  refine inv.consumed _ _ s.deleted rfl rfl (fun h' => ?_) (Nat.le_of_eq same.symm) ?_ (Nat.le_refl _)
    (fun _ => rfl) (fun h' => ?_) ⟨rfl, Nat.succ_pos _⟩ inv.deleted
  · have before := inv.items h'
    show s.queue.semaphores h' + _ + _ ≤ _
    rcases eq_or_other h h' with rfl | rfl
    · rw [here] at before
      rw [Function.update_self, Function.update_self]
      simp only [Place.holdsItem] at before ⊢
      omega
    · rw [Function.update_of_ne (other_ne h), Function.update_of_ne (other_ne h)]
      exact before
  · rw [same, Function.update_eq_self]
    exact inv.chain
  · show s.queue.freeHead ≤ _
    rw [Function.update_apply]
    split
    · exact Nat.le_succ_of_le (inv.free h)
    · exact inv.free h'

/-- The node a head stands on, behind or not, has been pushed. -/
theorem stands (inv : Inv s) (pos : 0 < s.queue.heads h) :
    ∃ i, s.queue.heads h = i + 1 ∧ s.queue.freeHead ≤ i + 1 ∧ i < s.pushed.length := by
  have items := inv.items h
  have notified := inv.notified h
  have linked := inv.linked_le
  have free := inv.free h
  exact ⟨s.queue.heads h - 1, by omega, by omega, by omega⟩

/-- A flag that is set was set by the other head. -/
theorem load (inv : Inv s) (here : s.places h = .loading head value) : ∃ s', consume s h = some s' ∧ Inv s' := by
  have ok := inv.places h
  rw [here] at ok
  obtain ⟨rfl, pos⟩ := ok
  obtain ⟨i, current, free, inside⟩ := inv.stands pos
  have flag := inv.chain.loadPassed free inside
  rw [← current] at flag
  refine ⟨_, by rw [consume, here]; simp only [flag, Option.map_some]; rfl, ?_⟩
  cases passed : passedBy s.done (s.queue.heads h) with
  | true =>
    have behind : s.done h < s.queue.heads h := by
      rw [State.done, here]
      exact Nat.sub_lt pos Nat.one_pos
    have other : s.queue.heads h ≤ s.done (h + 1) := by
      obtain ⟨h', le⟩ := passedBy_iff.mp passed
      rcases eq_or_other h h' with rfl | rfl
      · exact absurd le (Nat.not_le_of_lt behind)
      · exact le
    exact inv.moved (by rw [here]; rfl) (by rw [here]; rfl) ⟨rfl, pos, other⟩
  | false => exact inv.moved (by rw [here]; rfl) (by rw [here]; rfl) ⟨rfl, pos⟩

/-- The head is done with its node; the other one may have set the flag in between. -/
theorem store (inv : Inv s) (here : s.places h = .storing head value) : ∃ s', consume s h = some s' ∧ Inv s' := by
  have ok := inv.places h
  rw [here] at ok
  obtain ⟨rfl, pos⟩ := ok
  obtain ⟨i, current, free, inside⟩ := inv.stands pos
  obtain ⟨heap, stored, chain⟩ := inv.chain.storePassed free inside
  have done : s.done h = i := by
    rw [State.done, here, current]
    rfl
  have after := passedBy_update s.done h
  rw [done] at after
  rw [← current] at stored
  refine ⟨_, by rw [consume, here]; simp only [stored, Option.map_some]; rfl, ?_⟩
  refine inv.consumed _ (s.queue.heads h) s.deleted rfl (Function.update_eq_self h _).symm
    (inv.items_same (by rw [here]; rfl)) ?_ ?_ (Nat.le_refl _) (fun _ => rfl) ?_ ⟨rfl, fun found => (by cases found)⟩
    inv.deleted
  · show s.done h ≤ s.queue.heads h
    omega
  · show Chain _ _ (passedBy (Function.update s.done h (s.queue.heads h))) _ _
    rw [current, after]
    exact chain
  · rw [Function.update_eq_self]
    exact inv.free

/-- The loop goes on while there is a node before the head's, and that node is linked. -/
theorem freeTurn (inv : Inv s) (here : s.places h = .freeing head value) : ∃ s', consume s h = some s' ∧ Inv s' := by
  have ok := inv.places h
  rw [here] at ok
  obtain ⟨rfl, pos, other⟩ := ok
  by_cases last : s.queue.freeHead = s.queue.heads h
  · refine ⟨_, by rw [consume, here]; simp only [last, if_true]; rfl, ?_⟩
    have done : s.done h + 1 = s.queue.heads h := by
      rw [State.done, here]
      exact Nat.sub_add_cancel pos
    have same : passedBy (Function.update s.done h (s.queue.heads h)) = passedBy s.done := by
      rw [← done, passedBy_update, Function.update_eq_self_iff, eq_comm, passedBy_iff, done]
      exact ⟨h + 1, other⟩
    refine inv.consumed _ (s.queue.heads h) s.deleted rfl (Function.update_eq_self h _).symm
      (inv.items_same (by rw [here]; rfl)) ?_ ?_ (Nat.le_refl _) (fun _ => rfl) ?_ ⟨rfl, fun _ => Nat.le_of_eq last.symm⟩
      inv.deleted
    · show s.done h ≤ s.queue.heads h
      omega
    · show Chain _ _ (passedBy (Function.update s.done h (s.queue.heads h))) _ _
      rw [same]
      exact inv.chain
    · rw [Function.update_eq_self]
      exact inv.free
  · have items := inv.items h
    have notified := inv.notified h
    have linked := inv.linked_le
    have free := inv.free h
    have next := inv.chain.readFree (by omega) linked.2
    refine ⟨_, by rw [consume, here]; simp only [if_neg last, next, Option.map_some]; rfl, ?_⟩
    exact inv.moved (by rw [here]; rfl) (by rw [here]; rfl) ⟨rfl, pos, other, last, rfl⟩

/-- The oldest node goes; both heads stand further on. -/
theorem delete (inv : Inv s) (here : s.places h = .deleting head value next) :
    ∃ s', consume s h = some s' ∧ Inv s' := by
  have ok := inv.places h
  rw [here] at ok
  obtain ⟨rfl, pos, other, before, rfl⟩ := ok
  have free := inv.free h
  obtain ⟨i, current, -, inside⟩ := inv.stands pos
  obtain ⟨heap, deleted, chain⟩ := inv.chain.deleteFree (by omega)
  refine ⟨_, by rw [consume, here]; simp only [deleted, Option.map_some]; rfl, ?_⟩
  have same : s.queue.heads h - (Place.freeing (s.queue.heads h) value).behind = s.done h := by
    rw [State.done, here]
    rfl
  refine inv.consumed _ (s.queue.heads h) _ rfl (Function.update_eq_self h _).symm
    (inv.items_same (by rw [here]; rfl)) (Nat.le_of_eq same.symm) ?_ (Nat.le_succ _) (fun loop => ?_) ?_
    ⟨rfl, pos, other⟩ ?_
  · rw [same, Function.update_eq_self]
    exact chain
  · have alone := inv.not_both h (by rw [here]; rfl)
    rw [loop] at alone
    cases alone
  · rw [Function.update_eq_self]
    intro h'
    show s.queue.freeHead + 1 ≤ s.queue.heads h'
    have further : s.done (h + 1) ≤ s.queue.heads (h + 1) := Nat.sub_le _ _
    rcases eq_or_other h h' with rfl | rfl
    · omega
    · omega
  · show s.deleted ++ [s.queue.freeHead] = List.range (s.queue.freeHead + 1)
    rw [inv.deleted, List.range_succ]

theorem release (inv : Inv s) (here : s.places h = .releasing head value found) :
    ∃ s', consume s h = some s' ∧ Inv s' := by
  refine ⟨{ s with queue := s.queue.postAhead (some SEM_VALUE_MAX) (h + 1) }.goTo h .waitingItem, ?_, ?_⟩
  · rw [consume, here]
  refine (inv.posted _).moved ?_ ?_ trivial
  · show _ = (s.places h).holdsItem
    rw [here]
    rfl
  · show _ = (s.places h).behind
    rw [here]
    rfl

end Statements

/-- **Only the two waits can block**: every other statement finds its node live and its fields set. -/
theorem consume_runs (inv : Inv s) (runs : (s.places h).waits = false) : ∃ s', consume s h = some s' ∧ Inv s' := by
  cases here : s.places h with
  | waitingItem | waitingAhead =>
    rw [here] at runs
    cases runs
  | readingNext => exact inv.readNext here
  | copying head => exact inv.copy here
  | moving head value => exact inv.move here
  | loading head value => exact inv.load here
  | storing head value => exact inv.store here
  | freeing head value => exact inv.freeTurn here
  | deleting head value next => exact inv.delete here
  | releasing head value found => exact inv.release here

theorem consume (inv : Inv s) (step : Reclamation.consume s h = some s') : Inv s' := by
  cases waits : (s.places h).waits with
  | true =>
    cases here : s.places h with
    | waitingItem => exact inv.waitItem here step
    | waitingAhead => exact inv.waitAhead here step
    | _ =>
      rw [here] at waits
      cases waits
  | false =>
    obtain ⟨t, run, inv'⟩ := inv.consume_runs waits
    rw [run] at step
    cases step
    exact inv'

/-- `push` begins with a node of its own, behind the last one. -/
theorem push (inv : Inv s) (idle : s.producer = .idle) (value : α) :
    Inv { s with
      queue := s.queue.allocate value, producer := .linking s.queue.heap.next, pushed := s.pushed ++ [value] } := by
  have length : (s.pushed ++ [value]).length = s.pushed.length + 1 := by simp
  have ok := inv.producer
  rw [idle] at ok
  have complete : s.completed = s.pushed.length := ok
  have linked : s.linked = s.completed := by rw [State.linked, idle]
  have reach (h : Fin 2) : s.queue.heads h ≤ s.completed := by
    have items := inv.items h
    have notified := inv.notified h
    omega
  have free := inv.free 0
  have made := reach 0
  have chain := inv.chain
  rw [linked] at chain
  refine ⟨chain.allocate value (Nat.le_of_eq complete) (by omega) (passedBy_eq_false fun h => ?_), inv.tail, ?_, inv.free,
    inv.items, inv.notified, inv.places, inv.deleted⟩
  · have behind : s.done h ≤ s.queue.heads h := Nat.sub_le _ _
    have further := reach h
    omega
  · exact ⟨by rw [inv.chain.next, length], by rw [length, complete]⟩

/-- The producer's statements find the last node live. -/
theorem produce_runs (inv : Inv s) (busy : s.producer ≠ .idle) : ∃ s', produce s = some s' ∧ Inv s' := by
  have free : s.queue.freeHead ≤ s.completed := by
    have free := inv.free 0
    have items := inv.items 0
    have notified := inv.notified 0
    omega
  have ok := inv.producer
  cases here : s.producer with
  | idle => exact absurd here busy
  | linking node =>
    rw [here] at ok
    obtain ⟨rfl, last⟩ := ok
    have chain := inv.chain
    have linked : s.linked = s.completed := by rw [State.linked, here]
    rw [linked] at chain
    obtain ⟨heap, link, chain'⟩ := chain.linkTail inv.tail free (by omega)
    rw [last] at link
    refine ⟨_, by rw [produce, here]; simp only [link, Option.map_some]; rfl, ?_⟩
    exact ⟨chain', inv.tail, ⟨rfl, last⟩, inv.free, inv.items, inv.notified, inv.places, inv.deleted⟩
  | advancing node =>
    rw [here] at ok
    obtain ⟨rfl, last⟩ := ok
    have linked : s.linked = s.completed + 1 := by rw [State.linked, here]
    have chain := inv.chain
    rw [linked] at chain
    refine ⟨_, by rw [produce, here], ?_⟩
    exact ⟨chain, last.symm, last, inv.free, inv.items, fun h => Nat.le_succ_of_le (inv.notified h), inv.places,
      inv.deleted⟩

theorem notify (inv : Inv s) (room : s.notified h < s.completed) :
    Inv { s with
      queue := s.queue.notify (some SEM_VALUE_MAX) h
      notified := Function.update s.notified h (s.notified h + 1) } := by
  refine ⟨inv.chain, inv.tail, inv.producer, inv.free, fun h' => ?_, fun h' => ?_, inv.places, inv.deleted⟩
  · have before := inv.items h'
    have post := semPost_le (some SEM_VALUE_MAX) (s.queue.semaphores h)
    show Function.update s.queue.semaphores h _ h' + (s.places h').holdsItem + s.queue.heads h' ≤
      Function.update s.notified h _ h'
    rcases eq_or_other h h' with rfl | rfl
    · rw [Function.update_self, Function.update_self]
      omega
    · rw [Function.update_of_ne (other_ne h), Function.update_of_ne (other_ne h)]
      exact before
  · show Function.update s.notified h _ h' ≤ s.completed
    rw [Function.update_apply]
    split
    · exact room
    · exact inv.notified h'

/-- The invariant is kept by every statement: by those of the producer and the notifies at the far end of the chain,
and by a consumer's, place by place. -/
theorem step (inv : Inv s) {l : Label α} (step : Reclamation.step s l = some s') : Inv s' := by
  cases l with
  | push value =>
    simp only [Reclamation.step] at step
    split at step
    · rename_i idle
      cases step
      exact inv.push idle value
    · cases step
  | produce =>
    have busy : s.producer ≠ .idle := by
      intro idle
      simp [Reclamation.step, Reclamation.produce, idle] at step
    obtain ⟨t, run, inv'⟩ := inv.produce_runs busy
    obtain rfl : t = s' := Option.some_inj.mp (run.symm.trans step)
    exact inv'
  | notify h =>
    simp only [Reclamation.step] at step
    split at step
    · rename_i room
      cases step
      exact inv.notify room
    · cases step
  | consume h => exact inv.consume step

theorem of_reachable {ahead0 ahead1 : Nat}
    (reachable : (system (LinkedQueue.ofAhead ahead0 ahead1 : LinkedQueue α)).Reachable s) : Inv s :=
  System.Reachable.invariant reachable (Inv.init ahead0 ahead1) fun _ _ _ inv step => inv.step step

end Inv

/-- **No node is used after it is deleted, and none is deleted twice.** For every number of pushes and
every interleaving: each node is deleted at most once, and exactly the nodes made and not deleted are
live; outside the two waits of a consumer every statement of every thread can run, so it finds its
node live and its fields set; the two heads, the tail and `free_head` are live; the heads are never
in the free loop together; and a head that found `passed` set has every node before its own deleted
by the end of its `pop`. -/
theorem reclamation {ahead0 ahead1 : Nat} {s : State α}
    (reachable : (system (LinkedQueue.ofAhead ahead0 ahead1 : LinkedQueue α)).Reachable s) :
    s.deleted.Nodup ∧ (∀ p, p ∈ s.deleted ↔ p < s.queue.heap.next ∧ ¬ s.queue.heap.Live p) ∧
    (∀ h, (s.places h).waits = false → (consume s h).isSome = true) ∧
    (s.producer ≠ .idle → (produce s).isSome = true) ∧
    (∀ h, s.queue.heap.Live (s.queue.heads h)) ∧ s.queue.heap.Live s.queue.tail ∧
    s.queue.heap.Live s.queue.freeHead ∧
    ¬ ((s.places 0).inFreeLoop = true ∧ (s.places 1).inFreeLoop = true) ∧
    ∀ h head value, s.places h = .releasing head value true → ∀ p < head, p ∈ s.deleted := by
  have inv := Inv.of_reachable reachable
  have linked := inv.linked_le
  have reach (h : Fin 2) : s.queue.heads h ≤ s.completed := by
    have items := inv.items h
    have notified := inv.notified h
    omega
  have free := inv.free 0
  have made := reach 0
  refine ⟨?_, fun p => ?_, fun h runs => ?_, fun busy => ?_, fun h => ?_, ?_, ?_, ?_, fun h head value place p lt => ?_⟩
  · rw [inv.deleted]
    exact List.nodup_range
  · rw [inv.deleted, List.mem_range, inv.chain.live_iff, inv.chain.next]
    omega
  · obtain ⟨s', run, -⟩ := inv.consume_runs runs
    rw [run]
    rfl
  · obtain ⟨s', run, -⟩ := inv.produce_runs busy
    rw [run]
    rfl
  · exact inv.chain.live_iff.mpr ⟨inv.free h, Nat.le_trans (reach h) (by omega)⟩
  · rw [inv.tail]
    exact inv.chain.live_iff.mpr ⟨by omega, by omega⟩
  · exact inv.chain.live_iff.mpr ⟨Nat.le_refl _, by omega⟩
  · rintro ⟨loop0, loop1⟩
    have alone := inv.not_both 0 loop0
    rw [show (0 : Fin 2) + 1 = 1 from rfl, loop1] at alone
    cases alone
  · have ok := inv.places h
    rw [place] at ok
    rw [inv.deleted, List.mem_range]
    exact Nat.lt_of_lt_of_le lt (ok.2 rfl)

/-- One message that head 0 pops first: head 1 finds its node passed and deletes the sentinel. -/
theorem reclamation_sentinel : ∃ s, (system (LinkedQueue.ofAhead 1 1 : LinkedQueue Nat)).Reachable s ∧
    s.places 1 = .releasing 1 7 true ∧ 0 ∈ s.deleted ∧ s.queue.heap.Live (s.queue.heads 0) := by
  obtain ⟨s, reachable, place⟩ := System.exists_reachable
    (M := system (LinkedQueue.ofAhead 1 1 : LinkedQueue Nat)) (P := fun s => s.places 1 = .releasing 1 7 true)
    ([.push 7, .produce, .produce, .notify 0, .notify 1] ++ List.replicate 8 (.consume 0) ++
      List.replicate 9 (.consume 1)) (by decide)
  have facts := reclamation reachable
  exact ⟨s, reachable, place, facts.2.2.2.2.2.2.2.2 1 1 7 place 0 Nat.one_pos, facts.2.2.2.2.1 0⟩

end Reclamation

end KvPaxos
