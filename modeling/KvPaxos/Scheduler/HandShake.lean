import KvPaxos.Scheduler.StopTheWorldSteps

/-!
# The hand-shake of a stop-the-world repartition

Two invariants carry the hand-shake. `Phases` says how far the two threads are in one
round, between the raised note and the second barrier: they meet at each barrier, so they
are never more than one barrier apart and the note is up exactly until it is answered.
`Tokens` balances the semaphores of head 1, which carry messages and requests for a
snapshot alike: as many tokens as messages and raised notes together are taken as
messages are popped and notes answered.

Together they say which of the two a token was taken for. A graph thread that finds no
note has a message, since every note raised before has been answered; one that finds a
note but is behind the dispatched requests has a message, since it is behind.
-/

namespace KvPaxos

open Lib UnorderedMap FlowControl

namespace StopTheWorld

variable {n : Nat} {cfg : Config n} {s s' : State n} {l : Label}

/-! ### Rounds -/

/-- The generation a thread waits for the end of. -/
def Scheduling.parked : Scheduling n → Option Nat
  | .waiting1 g | .waiting2 _ g => some g
  | _ => none

def GraphThread.parked : GraphThread → Option Nat
  | .waiting1 g | .waiting2 g => some g
  | _ => none

/-- 0 outside a round, 1 before the first barrier opens, 2 before the second one does. -/
def Scheduling.round (generation : Nat) : Scheduling n → Nat
  | .freeingItem | .freeingAhead | .arriving1 => 1
  | .waiting1 g => if g = generation then 1 else 2
  | .copying | .arriving2 _ => 2
  | .waiting2 _ g => if g = generation then 2 else 0
  | _ => 0

def GraphThread.round (generation : Nat) : GraphThread → Nat
  | .arriving1 => 1
  | .waiting1 g => if g = generation then 1 else 2
  | .arriving2 => 2
  | .waiting2 g => if g = generation then 2 else 0
  | _ => 0

/-- The graph thread has heard the note and will answer it or put it off. -/
def GraphThread.Heard (g : GraphThread) : Prop := g = .comparing ∨ g = .answering

/-- The rounds of the two threads and the note. -/
def Agree (scheduling graph : Nat) (note : Bool) : Prop :=
  scheduling = 0 ∧ graph = 0 ∧ note = false ∨ scheduling = 1 ∧ graph = 0 ∧ note = true ∨
    scheduling = 1 ∧ graph = 1 ∧ note = false ∨ scheduling = 2 ∧ graph = 2 ∧ note = false

/-- How far the two threads are, as the barrier and the note say. -/
structure Phases (a : Scheduling n) (g : GraphThread) (note : Bool) (b : RepartitionBarrier) : Prop where
  rounds : Agree (a.round b.generation) (g.round b.generation) note
  waiting : b.waiting = true ↔ a.parked = some b.generation ∨ g.parked = some b.generation
  apart : ¬(a.parked = some b.generation ∧ g.parked = some b.generation)
  past : ∀ i, a.parked = some i → i ≤ b.generation
  pastGraph : ∀ i, g.parked = some i → i ≤ b.generation
  heard : g.Heard → note = true

theorem Scheduling.round_parked {a : Scheduling n} {i : Nat} (h : a.parked = some i) :
    a.round i = 1 ∧ a.round (i + 1) = 2 ∨ a.round i = 2 ∧ a.round (i + 1) = 0 := by
  cases a with
  | waiting1 g =>
    cases h
    exact Or.inl ⟨if_pos rfl, if_neg (by omega)⟩
  | waiting2 _ g =>
    cases h
    exact Or.inr ⟨if_pos rfl, if_neg (by omega)⟩
  | _ => cases h

theorem GraphThread.round_parked {g : GraphThread} {i : Nat} (h : g.parked = some i) :
    g.round i = 1 ∧ g.round (i + 1) = 2 ∨ g.round i = 2 ∧ g.round (i + 1) = 0 := by
  cases g with
  | waiting1 g =>
    cases h
    exact Or.inl ⟨if_pos rfl, if_neg (by omega)⟩
  | waiting2 g =>
    cases h
    exact Or.inr ⟨if_pos rfl, if_neg (by omega)⟩
  | _ => cases h

namespace Phases

variable {a a' : Scheduling n} {g g' : GraphThread} {note : Bool} {b : RepartitionBarrier}

/-- The scheduling thread moves on within a round. -/
theorem scheduling (h : Phases a g note b) (round : a'.round b.generation = a.round b.generation)
    (parked : a'.parked = none) (free : a.parked ≠ some b.generation) : Phases a' g note b where
  rounds := round ▸ h.rounds
  waiting := by
    rw [h.waiting, parked]
    simp [free]
  apart := by
    rw [parked]
    exact fun both => nomatch both.1
  past i eq := by
    rw [parked] at eq
    cases eq
  pastGraph := h.pastGraph
  heard := h.heard

/-- The graph thread moves on within a round. -/
theorem graph (h : Phases a g note b) (round : g'.round b.generation = g.round b.generation)
    (parked : g'.parked = none) (free : g.parked ≠ some b.generation) (heard : g'.Heard → note = true) :
    Phases a g' note b where
  rounds := round ▸ h.rounds
  waiting := by
    rw [h.waiting, parked]
    simp [free]
  apart := by
    rw [parked]
    exact fun both => nomatch both.2
  past := h.past
  pastGraph i eq := by
    rw [parked] at eq
    cases eq
  heard := heard

/-- The scheduling thread is first at a barrier. -/
theorem park (h : Phases a g note b) (first : b.waiting = false) (parked : a'.parked = some b.generation)
    (round : a'.round b.generation = a.round b.generation) : Phases a' g note { b with waiting := true } := by
  have alone : g.parked ≠ some b.generation := by
    intro eq
    rw [h.waiting.mpr (Or.inr eq)] at first
    cases first
  refine ⟨round ▸ h.rounds, iff_of_true rfl (Or.inl parked), fun both => alone both.2, fun i eq => ?_, h.pastGraph,
    h.heard⟩
  rw [parked] at eq
  cases eq
  exact Nat.le_refl _

/-- The graph thread is first at a barrier. -/
theorem graphPark (h : Phases a g note b) (first : b.waiting = false) (parked : g'.parked = some b.generation)
    (round : g'.round b.generation = g.round b.generation) (heard : ¬g'.Heard) :
    Phases a g' note { b with waiting := true } := by
  have alone : a.parked ≠ some b.generation := by
    intro eq
    rw [h.waiting.mpr (Or.inl eq)] at first
    cases first
  refine ⟨round ▸ h.rounds, iff_of_true rfl (Or.inr parked), fun both => alone both.1, h.past, fun i eq => ?_,
    fun h => absurd h heard⟩
  rw [parked] at eq
  cases eq
  exact Nat.le_refl _

/-- The scheduling thread opens a barrier at which the graph thread waits. -/
theorem opened (h : Phases a g note b) (second : b.waiting = true) (free : a.parked = none)
    (parked : a'.parked = none)
    (round : ∀ i, a.round i = 1 ∧ a'.round i = 2 ∨ a.round i = 2 ∧ a'.round i = 0) :
    Phases a' g note { waiting := false, generation := b.generation + 1 } := by
  have there : g.parked = some b.generation := by
    rcases h.waiting.mp second with eq | eq
    · rw [free] at eq
      cases eq
    · exact eq
  have rounds := h.rounds
  have passed := GraphThread.round_parked there
  have here := round b.generation
  have next := round (b.generation + 1)
  have same : a.round (b.generation + 1) = a.round b.generation := by
    cases a <;> first | rfl | cases free
  refine ⟨?_, iff_of_false nofun ?_, ?_, fun i eq => ?_, fun i eq => ?_, h.heard⟩
  · show Agree (a'.round (b.generation + 1)) (g.round (b.generation + 1)) note
    rcases rounds with ⟨zero, -, -⟩ | ⟨-, zero, -⟩ | ⟨one, one', quiet⟩ | ⟨two, two', quiet⟩
    · omega
    · omega
    · exact Or.inr (Or.inr (Or.inr ⟨by omega, by omega, quiet⟩))
    · exact Or.inl ⟨by omega, by omega, quiet⟩
  · rw [parked, there]
    simp
  · rw [parked]
    exact fun both => nomatch both.1
  · rw [parked] at eq
    cases eq
  · have := h.pastGraph i eq
    dsimp only
    omega

/-- The graph thread opens a barrier at which the scheduling thread waits. -/
theorem graphOpened (h : Phases a g note b) (second : b.waiting = true) (free : g.parked = none)
    (parked : g'.parked = none) (heard : ¬g'.Heard)
    (round : ∀ i, g.round i = 1 ∧ g'.round i = 2 ∨ g.round i = 2 ∧ g'.round i = 0) :
    Phases a g' note { waiting := false, generation := b.generation + 1 } := by
  have there : a.parked = some b.generation := by
    rcases h.waiting.mp second with eq | eq
    · exact eq
    · rw [free] at eq
      cases eq
  have rounds := h.rounds
  have passed := Scheduling.round_parked there
  have here := round b.generation
  have next := round (b.generation + 1)
  have same : g.round (b.generation + 1) = g.round b.generation := by
    cases g <;> first | rfl | cases free
  refine ⟨?_, iff_of_false nofun ?_, ?_, fun i eq => ?_, fun i eq => ?_, fun h => absurd h heard⟩
  · show Agree (a.round (b.generation + 1)) (g'.round (b.generation + 1)) note
    rcases rounds with ⟨-, zero, -⟩ | ⟨-, zero, -⟩ | ⟨one, one', quiet⟩ | ⟨two, two', quiet⟩
    · omega
    · omega
    · exact Or.inr (Or.inr (Or.inr ⟨by omega, by omega, quiet⟩))
    · exact Or.inl ⟨by omega, by omega, quiet⟩
  · rw [parked, there]
    simp
  · rw [parked]
    exact fun both => nomatch both.2
  · have := h.past i eq
    dsimp only
    omega
  · rw [parked] at eq
    cases eq

end Phases

/-- The phases of a state. -/
abbrev State.Phases (s : State n) : Prop :=
  StopTheWorld.Phases s.scheduling s.graphThread s.note s.barrier

/-- The outside of a round. -/
theorem Phases.quiet {s : State n} (h : s.Phases) (round : s.scheduling.round s.barrier.generation = 0) :
    s.note = false := by
  have rounds := h.rounds
  unfold Agree at rounds
  rcases rounds with h | h | h | h
  · exact h.2.2
  all_goals omega

/-- **Each step keeps the phases.** -/
theorem phases_move (h : s.Phases) (move : Move cfg s l s') : s'.Phases := by
  unfold State.Phases at h ⊢
  cases move with
  | submit | push | notify0 | notify1 => exact h
  | item0 place | ahead0 place | pop0 place | release0 place | finish place | dispatch place | count place
  | start place | freeItem place | freeAhead place | copy place | cut place | install place =>
    -- outside the barrier and outside the note
    rw [place] at h
    exact h.scheduling rfl rfl nofun
  | raise place =>
    rw [place] at h
    refine ⟨?_, h.waiting, h.apart, nofun, h.pastGraph, fun _ => rfl⟩
    rcases h.rounds with ⟨-, zero, -⟩ | ⟨one, -⟩ | ⟨one, -⟩ | ⟨two, -⟩
    · exact Or.inr (Or.inl ⟨rfl, zero, rfl⟩)
    · cases one
    · cases one
    · cases two
  | park1 place first | park2 place first =>
    rw [place] at h
    exact h.park first rfl (if_pos rfl)
  | open1 place second =>
    rw [place] at h
    exact h.opened second rfl rfl fun i => Or.inl ⟨rfl, rfl⟩
  | resume1 place passed | resume2 place passed =>
    rw [place] at h
    exact h.scheduling (if_neg passed).symm rfl fun eq => passed (Option.some_inj.mp eq)
  | open2 place second =>
    rw [place] at h
    exact h.opened second rfl rfl fun i => Or.inr ⟨rfl, rfl⟩
  | item1 place | ahead1 place | pass place | refuse place | pop1 place | release1 place | update place
  | tally place =>
    rw [place] at h
    exact h.graph rfl rfl nofun nofun
  | hear place note =>
    rw [place] at h
    exact h.graph rfl rfl nofun fun _ => note
  | agree place =>
    rw [place] at h
    exact h.graph rfl rfl nofun fun _ => h.heard (Or.inl rfl)
  | answer place =>
    rw [place] at h
    have up := h.heard (Or.inr rfl)
    refine ⟨?_, h.waiting, h.apart, h.past, nofun, nofun⟩
    rcases h.rounds with ⟨-, -, down⟩ | ⟨one, -, -⟩ | ⟨-, one, -⟩ | ⟨-, two, -⟩
    · rw [up] at down
      cases down
    · exact Or.inr (Or.inr (Or.inl ⟨one, rfl, rfl⟩))
    · cases one
    · cases two
  | graphPark1 place first | graphPark2 place first =>
    rw [place] at h
    exact h.graphPark first rfl (if_pos rfl) nofun
  | graphOpen1 place second =>
    rw [place] at h
    exact h.graphOpened second rfl rfl nofun fun i => Or.inl ⟨rfl, rfl⟩
  | graphResume1 place passed | graphResume2 place passed =>
    rw [place] at h
    exact h.graph (if_neg passed).symm rfl (fun eq => passed (Option.some_inj.mp eq)) nofun
  | graphOpen2 place second =>
    rw [place] at h
    exact h.graphOpened second rfl rfl nofun fun i => Or.inr ⟨rfl, rfl⟩

theorem phases_init : (init cfg).Phases := by
  refine ⟨Or.inl ⟨rfl, rfl, rfl⟩, iff_of_false nofun ?_, nofun, nofun, nofun, nofun⟩
  rintro (h | h) <;> cases h

/-! ### Tokens -/

/-- What a thread holds of the tokens it takes, and owes of those it gives: an item and a distance
token of `wait` until the message is removed or the note answered, the post for the other head, the
message it has not counted, and the posts of `free<1>` for a note that is raised. -/
structure Held where
  item : Nat := 0
  ahead : Nat := 0
  owes : Nat := 0
  uncounted : Nat := 0
  unfreedItem : Nat := 0
  unfreedAhead : Nat := 0

def Scheduling.held : Scheduling n → Held
  | .waitingAhead => { item := 1 }
  | .popping => { item := 1, ahead := 1 }
  | .releasing _ => { owes := 1, uncounted := 1 }
  | .dispatching _ | .counting | .ended _ => { uncounted := 1 }
  | .freeingItem => { unfreedItem := 1, unfreedAhead := 1 }
  | .freeingAhead => { unfreedAhead := 1 }
  | _ => {}

def GraphThread.held : GraphThread → Held
  | .waitingAhead => { item := 1 }
  | .checking | .comparing | .answering | .popping => { item := 1, ahead := 1 }
  | .releasing _ => { owes := 1, uncounted := 1 }
  | .updating _ | .counting => { uncounted := 1 }
  | _ => {}

/-- The balances of head 0's items and of both semaphores of head 1, for the distance `A`. -/
structure Tokens (A : Nat) (s : State n) : Prop where
  item0 : s.queue.semaphores 0 + s.scheduling.held.item + (s.popped 0).length + s.producer.unposted 0 =
    s.pushed.length
  item1 : s.queue.semaphores 1 + s.graphThread.held.item + (s.popped 1).length + s.answered +
    s.producer.unposted 1 + s.scheduling.held.unfreedItem = s.pushed.length + s.raised
  ahead1 : s.queue.aheadSems 1 + s.graphThread.held.ahead + (s.popped 1).length + s.answered +
    s.scheduling.held.owes + s.scheduling.held.unfreedAhead = A + (s.popped 0).length + s.raised
  notes : s.raised = s.answered + s.note.toNat
  dispatched : s.nDispatchedRequests + s.scheduling.held.uncounted = (s.popped 0).length
  processed : s.nProcessedRequests + s.graphThread.held.uncounted = (s.popped 1).length

/-- A step that leaves what the balances count. -/
theorem Tokens.same {A : Nat} (h : Tokens A s) (queue : s'.queue = s.queue) (producer : s'.producer = s.producer)
    (pushed : s'.pushed = s.pushed) (popped : s'.popped = s.popped) (note : s'.note = s.note)
    (raised : s'.raised = s.raised) (answered : s'.answered = s.answered)
    (nDispatched : s'.nDispatchedRequests = s.nDispatchedRequests)
    (nProcessed : s'.nProcessedRequests = s.nProcessedRequests)
    (scheduling : s'.scheduling.held = s.scheduling.held) (graph : s'.graphThread.held = s.graphThread.held) :
    Tokens A s' where
  item0 := by
    rw [queue, scheduling, popped, producer, pushed]
    exact h.item0
  item1 := by
    rw [queue, graph, popped, answered, producer, scheduling, pushed, raised]
    exact h.item1
  ahead1 := by
    rw [queue, graph, popped, answered, scheduling, raised]
    exact h.ahead1
  notes := by
    rw [raised, answered, note]
    exact h.notes
  dispatched := by
    rw [nDispatched, scheduling, popped]
    exact h.dispatched
  processed := by
    rw [nProcessed, graph, popped]
    exact h.processed

/-- **Each step keeps the balances.** -/
theorem tokens_move {A : Nat} (phases : s.Phases) (h : Tokens A s) (move : Move cfg s l s') : Tokens A s' := by
  have post : ∀ v, semPost none v = v + 1 := fun v => if_neg nofun
  obtain ⟨item0, item1, ahead1, notes, dispatched, processed⟩ := id h
  cases move with
  | submit message place =>
    simp only [place, Producer.unposted] at item0 item1
    constructor <;> simp [Queue.pushTo, Producer.unposted] <;> omega
  | push place =>
    simp only [place, Producer.unposted] at item0 item1
    constructor <;> simp [Queue.pushTo, Producer.unposted] <;> omega
  | notify0 place =>
    simp only [place, Producer.unposted] at item0 item1
    constructor <;> simp [Queue.notify, post, Producer.unposted] <;> omega
  | notify1 place =>
    simp only [place, Producer.unposted] at item0 item1
    constructor <;> simp [Queue.notify, post, Producer.unposted] <;> omega
  | item0 place taken =>
    obtain ⟨pos, rfl⟩ := Queue.waitItem_eq_some.mp taken
    simp only [place, Scheduling.held] at item0 item1 ahead1 dispatched
    constructor <;> simp [Scheduling.held] <;> omega
  | ahead0 place taken =>
    obtain ⟨pos, rfl⟩ := Queue.waitAhead_eq_some.mp taken
    simp only [place, Scheduling.held] at item0 item1 ahead1 dispatched
    constructor <;> simp [Scheduling.held] <;> omega
  | pop0 place front =>
    obtain ⟨rest, queued, rfl⟩ := Queue.popFront_eq_some.mp front
    simp only [place, Scheduling.held] at item0 item1 ahead1 dispatched
    constructor <;> simp [Scheduling.held] <;> omega
  | release0 place =>
    simp only [place, Scheduling.held] at item0 item1 ahead1 dispatched
    constructor <;> simp [Queue.postAhead, post, Scheduling.held] <;> omega
  | count place =>
    simp only [place, Scheduling.held] at item0 item1 ahead1 dispatched
    constructor <;> simp [Scheduling.held] <;> omega
  | start place =>
    simp only [place, Scheduling.held] at item0 item1 ahead1 dispatched
    constructor <;> simp [Scheduling.held] <;> omega
  | raise place =>
    have quiet : s.note = false := phases.quiet (by rw [place]; rfl)
    rw [quiet, Bool.toNat_false] at notes
    simp only [place, Scheduling.held] at item0 item1 ahead1 dispatched
    constructor <;> simp [Scheduling.held] <;> omega
  | freeItem place =>
    simp only [place, Scheduling.held] at item0 item1 ahead1 dispatched
    constructor <;> simp [Queue.notify, post, Scheduling.held] <;> omega
  | freeAhead place =>
    simp only [place, Scheduling.held] at item0 item1 ahead1 dispatched
    constructor <;> simp [Queue.postAhead, post, Scheduling.held] <;> omega
  | item1 place taken =>
    obtain ⟨pos, rfl⟩ := Queue.waitItem_eq_some.mp taken
    simp only [place, GraphThread.held] at item1 ahead1 processed
    constructor <;> simp [GraphThread.held] <;> omega
  | ahead1 place taken =>
    obtain ⟨pos, rfl⟩ := Queue.waitAhead_eq_some.mp taken
    simp only [place, GraphThread.held] at item1 ahead1 processed
    constructor <;> simp [GraphThread.held] <;> omega
  | answer place =>
    have up : s.note = true := phases.heard (Or.inr place)
    rw [up, Bool.toNat_true] at notes
    simp only [place, GraphThread.held] at item1 ahead1 processed
    constructor <;> simp [GraphThread.held] <;> omega
  | pop1 place front =>
    obtain ⟨rest, queued, rfl⟩ := Queue.popFront_eq_some.mp front
    simp only [place, GraphThread.held] at item1 ahead1 processed
    constructor <;> simp [GraphThread.held] <;> omega
  | release1 place =>
    simp only [place, GraphThread.held] at item1 ahead1 processed
    constructor <;> simp [Queue.postAhead, post, GraphThread.held] <;> omega
  | tally place =>
    simp only [place, GraphThread.held] at item1 ahead1 processed
    constructor <;> simp [GraphThread.held] <;> omega
  | finish place | dispatch place | park1 place | open1 place | resume1 place | copy place | park2 place | open2 place
  | resume2 place | cut place | install place =>
    refine h.same rfl rfl rfl rfl rfl rfl rfl rfl rfl ?_ rfl
    rw [place]
    rfl
  | pass place | hear place | agree place | refuse place | graphPark1 place | graphOpen1 place | graphResume1 place
  | graphPark2 place | graphOpen2 place | graphResume2 place | update place =>
    refine h.same rfl rfl rfl rfl rfl rfl rfl rfl rfl rfl ?_
    rw [place]
    rfl

/-! ### Messages -/

theorem unposted_le (p : Producer ClientMessage) : p.unposted 1 ≤ p.unposted 0 + 1 := by
  cases p <;> simp [Producer.unposted]

/-- A graph thread about to remove a message has one to remove, and is not too far ahead. -/
structure Covered (A : Nat) (s : State n) : Prop where
  item : s.graphThread = .popping → (s.popped 1).length + s.producer.unposted 1 < s.pushed.length
  reach : s.graphThread = .popping → (s.popped 1).length < (s.popped 0).length + A
  distance : (s.popped 1).length ≤ (s.popped 0).length + A

/-- Without a note every note has been answered, so the tokens taken are for messages. -/
theorem Tokens.pass {A : Nat} (h : Tokens A s) (place : s.graphThread = .checking) (note : s.note = false) :
    (s.popped 1).length + s.producer.unposted 1 < s.pushed.length ∧ (s.popped 1).length < (s.popped 0).length + A := by
  obtain ⟨item0, item1, ahead1, notes, dispatched, processed⟩ := h
  simp only [place, GraphThread.held] at item1 ahead1
  rw [note, Bool.toNat_false] at notes
  omega

/-- Behind the dispatched requests there is a message to remove. -/
theorem Tokens.refuse {A : Nat} (h : Tokens A s) (place : s.graphThread = .comparing)
    (behind : s.nProcessedRequests + 1 < s.nDispatchedRequests) :
    (s.popped 1).length + s.producer.unposted 1 < s.pushed.length ∧ (s.popped 1).length < (s.popped 0).length + A := by
  obtain ⟨item0, item1, ahead1, notes, dispatched, processed⟩ := h
  have later := unposted_le s.producer
  simp only [place, GraphThread.held] at processed
  omega

/-- The graph thread comes to `pop<1>` with a post of the producer in hand, since those of `free<1>` are spent on
notes; so it finds a message there, within the distance. -/
theorem covered_move {A : Nat} (tokens : Tokens A s) (h : Covered A s) (move : Move cfg s l s') : Covered A s' := by
  obtain ⟨item, reach, distance⟩ := h
  cases move with
  | submit message place =>
    refine ⟨fun popping => ?_, reach, distance⟩
    have := item popping
    simp [Producer.unposted, place] at this ⊢
    omega
  | push place | notify0 place | notify1 place =>
    refine ⟨fun popping => ?_, reach, distance⟩
    have := item popping
    simp [Producer.unposted, place] at this ⊢
    omega
  | pop0 place front =>
    refine ⟨item, fun popping => ?_, ?_⟩
    · have := reach popping
      simp
      omega
    · simp
      omega
  | pass place note => exact ⟨fun _ => (tokens.pass place note).1, fun _ => (tokens.pass place note).2, distance⟩
  | refuse place behind =>
    exact ⟨fun _ => (tokens.refuse place behind).1, fun _ => (tokens.refuse place behind).2, distance⟩
  | pop1 place front =>
    have := reach place
    refine ⟨fun eq => (by cases eq), fun eq => (by cases eq), ?_⟩
    simp
    omega
  | item1 | ahead1 | hear | agree | answer | graphPark1 | graphOpen1 | graphResume1 | graphPark2 | graphOpen2 |
      graphResume2 | release1 | update | tally =>
    exact ⟨fun eq => (by cases eq), fun eq => (by cases eq), distance⟩
  | _ => exact ⟨item, reach, distance⟩

/-- The message a thread has removed and not yet dispatched or processed. -/
def Scheduling.inHand : Scheduling n → List ClientMessage
  | .releasing message | .dispatching message | .ended message => [message]
  | _ => []

def GraphThread.inHand : GraphThread → List ClientMessage
  | .releasing request | .updating request => [request]
  | _ => []

/-- What was pushed, by where it is now: dispatched or processed, in hand, queued, or on its way to
the second queue. -/
structure Contents (s : State n) : Prop where
  popped0 : s.popped 0 = s.dispatched ++ s.scheduling.inHand
  popped1 : s.popped 1 = s.processed ++ s.graphThread.inHand
  head0 : s.pushed = s.popped 0 ++ s.queue.queues 0
  head1 : s.pushed = s.popped 1 ++ s.queue.queues 1 ++ s.producer.unsent 1

/-- What a head has popped, what it has in hand and what is still in its queue make up what has been pushed. -/
theorem contents_move (h : Contents s) (move : Move cfg s l s') : Contents s' := by
  obtain ⟨popped0, popped1, head0, head1⟩ := h
  cases move with
  | submit message place =>
    rw [place] at head1
    refine ⟨popped0, popped1, ?_, ?_⟩
    · simp [head0, Queue.pushTo]
    · simp [head1, Queue.pushTo, Producer.unsent]
  | push place =>
    rw [place] at head1
    refine ⟨popped0, popped1, ?_, ?_⟩
    · simp [head0, Queue.pushTo]
    · simpa [Queue.pushTo, Producer.unsent] using head1
  | notify0 place | notify1 place =>
    rw [place] at head1
    exact ⟨popped0, popped1, head0, head1⟩
  | item0 place taken =>
    obtain ⟨pos, rfl⟩ := Queue.waitItem_eq_some.mp taken
    rw [place] at popped0
    exact ⟨popped0, popped1, head0, head1⟩
  | ahead0 place taken =>
    obtain ⟨pos, rfl⟩ := Queue.waitAhead_eq_some.mp taken
    rw [place] at popped0
    exact ⟨popped0, popped1, head0, head1⟩
  | pop0 place front =>
    obtain ⟨rest, queued, rfl⟩ := Queue.popFront_eq_some.mp front
    rw [place] at popped0
    refine ⟨?_, ?_, ?_, ?_⟩
    · simp [popped0, Scheduling.inHand]
    · simpa using popped1
    · simp [head0, queued]
    · simpa using head1
  | dispatch place =>
    rw [place] at popped0
    refine ⟨?_, popped1, head0, head1⟩
    simpa [Scheduling.inHand] using popped0
  | release0 place | finish place | count place | start place | raise place | freeItem place | freeAhead place
  | park1 place | open1 place | resume1 place | copy place | park2 place | open2 place | resume2 place
  | cut place | install place =>
    rw [place] at popped0
    exact ⟨popped0, popped1, head0, head1⟩
  | item1 place taken =>
    obtain ⟨pos, rfl⟩ := Queue.waitItem_eq_some.mp taken
    rw [place] at popped1
    exact ⟨popped0, popped1, head0, head1⟩
  | ahead1 place taken =>
    obtain ⟨pos, rfl⟩ := Queue.waitAhead_eq_some.mp taken
    rw [place] at popped1
    exact ⟨popped0, popped1, head0, head1⟩
  | pop1 place front =>
    obtain ⟨rest, queued, rfl⟩ := Queue.popFront_eq_some.mp front
    rw [place] at popped1
    refine ⟨?_, ?_, ?_, ?_⟩
    · simpa using popped0
    · simp [popped1, GraphThread.inHand]
    · simpa using head0
    · simpa [queued] using head1
  | update place =>
    rw [place] at popped1
    refine ⟨popped0, ?_, head0, head1⟩
    simpa [GraphThread.inHand] using popped1
  | pass place | hear place | agree place | refuse place | answer place | graphPark1 place | graphOpen1 place
  | graphResume1 place | graphPark2 place | graphOpen2 place | graphResume2 place | release1 place | tally place =>
    rw [place] at popped1
    exact ⟨popped0, popped1, head0, head1⟩

/-- The joint invariant. -/
structure Joint (A : Nat) (s : State n) : Prop where
  phases : s.Phases
  tokens : Tokens A s
  covered : Covered A s
  contents : Contents s

theorem joint_move {A : Nat} (h : Joint A s) (move : Move cfg s l s') : Joint A s' where
  phases := phases_move h.phases move
  tokens := tokens_move h.phases h.tokens move
  covered := covered_move h.tokens h.covered move
  contents := contents_move h.contents move

/-- The distance of head 1. -/
def Config.ahead1 (cfg : Config n) : Nat :=
  (Queue.schedulerQueue (α := ClientMessage) cfg.queueHeadDistance).aheadSems 1

theorem schedulerQueue_empty {α : Type} (queueHeadDistance : Nat) (h : Fin 2) :
    (Queue.schedulerQueue (α := α) queueHeadDistance).semaphores h = 0 ∧
      (Queue.schedulerQueue (α := α) queueHeadDistance).queues h = [] := by
  unfold Queue.schedulerQueue
  split <;> exact ⟨rfl, rfl⟩

theorem contents_init (cfg : Config n) : Contents (init cfg) := by
  have empty := schedulerQueue_empty (α := ClientMessage) cfg.queueHeadDistance
  refine ⟨rfl, rfl, (empty 0).2.symm, ?_⟩
  show [] = [] ++ _ ++ []
  rw [List.append_nil]
  exact (empty 1).2.symm

theorem reachable_joint (reachable : (system cfg).Reachable s) : Joint cfg.ahead1 s := by
  have empty := schedulerQueue_empty (α := ClientMessage) cfg.queueHeadDistance
  apply reachable_invariant reachable
  · exact {
      phases := phases_init
      tokens := ⟨(empty 0).1, (empty 1).1, Nat.add_zero _, rfl, rfl, rfl⟩
      covered := ⟨nofun, nofun, Nat.zero_le _⟩
      contents := contents_init cfg }
  · exact fun s l s' held move => joint_move held move

/-! ### The hand-shake -/

/-- The graph thread can take no token in `wait<1>()`. -/
def GraphBlocked (s : State n) : Prop :=
  s.graphThread = .waitingItem ∧ s.queue.semaphores 1 = 0 ∨
    s.graphThread = .waitingAhead ∧ s.queue.aheadSems 1 = 0

/-- The scheduling thread is at `pthread_barrier_wait` and cannot leave it. -/
def AtBarrier (s : State n) : Prop := s.scheduling.parked = some s.barrier.generation

/-- The graph thread is between the two barriers. -/
inductive BetweenBarriers (s : State n) : Prop
  | leaving (g : Nat) (place : s.graphThread = .waiting1 g) (opened : g ≠ s.barrier.generation)
  | arriving (place : s.graphThread = .arriving2)
  | waiting (place : s.graphThread = .waiting2 s.barrier.generation)

/-- What the hand-shake promises, for the distance `A` of head 1. The messages submitted are those
processed, the one in hand and those on their way, in order. -/
structure HandShake (A : Nat) (s : State n) : Prop where
  nonempty : s.graphThread = .popping → s.queue.queues 1 ≠ []
  inOrder : s.pushed = s.processed ++ s.graphThread.inHand ++ s.queue.queues 1 ++ s.producer.unsent 1
  counted : s.nProcessedRequests ≤ s.processed.length
  distance : (s.popped 1).length ≤ (s.popped 0).length + A
  parked : s.scheduling = .copying → BetweenBarriers s
  answered : s.raised = s.answered + s.note.toNat
  answeredInRound : s.scheduling.round s.barrier.generation ≠ 1 → s.raised = s.answered
  noDeadlock : s.producer = .idle → AtBarrier s → ¬GraphBlocked s

/-- While the scheduling thread copies, it has passed the first barrier and not come to the second, and so has the
graph thread. -/
theorem Phases.between {s : State n} (h : s.Phases) (copying : s.scheduling = .copying) : BetweenBarriers s := by
  have rounds := h.rounds
  rw [copying] at rounds
  have two : s.graphThread.round s.barrier.generation = 2 := by
    rcases rounds with ⟨zero, -⟩ | ⟨one, -⟩ | ⟨one, -⟩ | ⟨-, two, -⟩
    · cases zero
    · cases one
    · cases one
    · exact two
  cases place : s.graphThread with
  | waiting1 g =>
    rw [place, GraphThread.round] at two
    exact .leaving g place fun eq => by rw [if_pos eq] at two; cases two
  | arriving2 => exact .arriving place
  | waiting2 g =>
    rw [place, GraphThread.round] at two
    split at two
    · rename_i eq
      exact .waiting (eq ▸ place)
    · cases two
  | _ =>
    rw [place] at two
    cases two

/-- A scheduling thread at the barrier has posted for its note, so a graph thread in `wait<1>` has a
token to take. -/
theorem Joint.noDeadlock {A : Nat} (h : Joint A s) (idle : s.producer = .idle) (waits : AtBarrier s) :
    ¬GraphBlocked s := by
  intro blocked
  obtain ⟨item0, item1, ahead1, notes, -, -⟩ := h.tokens
  have distance := h.covered.distance
  have head1 := congrArg List.length h.contents.head1
  have outside : s.graphThread.round s.barrier.generation = 0 := by
    rcases blocked with ⟨place, -⟩ | ⟨place, -⟩ <;> rw [place] <;> rfl
  -- the graph thread has not answered, so the note is up
  have up : s.note = true := by
    have opening := Scheduling.round_parked waits
    rcases h.phases.rounds with ⟨zero, -, -⟩ | ⟨-, -, up⟩ | ⟨-, one, -⟩ | ⟨-, two, -⟩
    · omega
    · exact up
    · omega
    · omega
  have posted : s.scheduling.held = {} := by
    unfold AtBarrier at waits
    cases place : s.scheduling with
    | waiting1 | waiting2 => rfl
    | _ =>
      rw [place] at waits
      cases waits
  rw [up, Bool.toNat_true] at notes
  rw [posted, idle] at item1
  rw [posted] at ahead1
  simp only [Producer.unposted] at item1
  simp only [List.length_append] at head1
  rcases blocked with ⟨place, none⟩ | ⟨place, none⟩
  · simp only [place, GraphThread.held] at item1
    omega
  · simp only [place, GraphThread.held] at ahead1
    omega

/-- **The stop-the-world hand-shake**, whatever the head distance, the points at which a repartition starts and the
interleaving. It covers `schedule_and_answer` with its `free<1>` and its two waits at `repartition_barrier_`, and
`update_graph_loop` with its look at `note_`: while the graph is copied the graph thread stands between the barriers
and changes nothing, each note is answered once, the graph thread pops no empty queue and takes the messages in the
order in which they were pushed, and the two threads are never left waiting for each other. -/
theorem hand_shake (cfg : Config n) (s : State n) (reachable : (system cfg).Reachable s) :
    HandShake cfg.ahead1 s := by
  have joint := reachable_joint reachable
  refine ⟨fun popping empty => ?_, ?_, ?_, joint.covered.distance, joint.phases.between, joint.tokens.notes,
    fun round => ?_, joint.noDeadlock⟩
  · have more := joint.covered.item popping
    have length := congrArg List.length joint.contents.head1
    have behind := s.producer.unsent_le 1
    rw [empty, List.append_nil, List.length_append] at length
    omega
  · rw [← joint.contents.popped1]
    exact joint.contents.head1
  · have counted := joint.tokens.processed
    have popped := congrArg List.length joint.contents.popped1
    have inHand : s.graphThread.inHand.length ≤ s.graphThread.held.uncounted := by
      cases s.graphThread <;> simp [GraphThread.inHand, GraphThread.held]
    rw [List.length_append] at popped
    omega
  · have quiet : s.note = false := by
      rcases joint.phases.rounds with ⟨-, -, quiet⟩ | ⟨one, -⟩ | ⟨one, -⟩ | ⟨-, -, quiet⟩
      · exact quiet
      · exact absurd one round
      · exact absurd one round
      · exact quiet
    have notes := joint.tokens.notes
    rw [quiet, Bool.toNat_false] at notes
    exact notes

/-- Two populated keys, a repartition after every request, and a graph thread that may lag behind. -/
def laggingConfig : Config 2 where
  positive := Nat.two_pos
  TL := 0
  queueHeadDistance := 2
  interval := .operations 1 Nat.one_pos
  populated := [0, 1]

/-- One request for a new key is dispatched before the graph thread moves; it answers the note with
the token of the request, which it has not processed, up to the copy of the graph. -/
def laggingRun : List Label :=
  [.submit { type := .WRITE, key := 5 }, .produce, .produce, .produce] ++
    List.replicate 5 (.schedule false) ++ List.replicate 5 (.schedule true) ++ List.replicate 6 .graph ++
      [.schedule false]

theorem hand_shake_lagging : ∃ s, (system laggingConfig).Reachable s ∧ (s.raised = 1 ∧ s.answered = 1) ∧
    HandShake laggingConfig.ahead1 s := by
  obtain ⟨s, reachable, answered⟩ := System.exists_reachable (M := system laggingConfig)
    (P := fun s => s.raised = 1 ∧ s.answered = 1) laggingRun (by decide)
  exact ⟨s, reachable, answered, hand_shake laggingConfig s reachable⟩

end StopTheWorld

end KvPaxos
