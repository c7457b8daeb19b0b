import KvPaxos.Scheduler.FreeHandShake
import KvPaxos.Scheduler.RoundRobin
import KvPaxos.Scheduler.StopTheWorldProcess

/-!
# The process of the asynchronous schedulers

`FreeScheduler` and the schedulers that inherit from it with their workers, as the frontend of a
`Process`. `dispatch` writes through `data_to_partition_`, which other threads must leave alone: the map
behind it lives, and the partitioning thread never deletes it. Between the two assignments of
`change_partition_scheme` and the end of `sync_all_partitions` the new map is installed and not yet
announced to the partitions; nothing is dispatched there.
-/

namespace KvPaxos

open Lib UnorderedMap FlowControl

namespace FreeScheduler

variable {n : Nat} {method : CutMethod} {cfg : Config n} {s s' : State n} {l : Label}

/-- The message the scheduling thread has still to dispatch. -/
def Scheduling.hand : Scheduling → List ClientMessage
  | .releasing message | .dispatching message => [message]
  | _ => []

def Scheduling.call : Scheduling → Call
  | .dispatching message => if message.type = .END then .stop message else .dispatch message
  | .syncing => .syncAll
  | _ => .quiet

def call (s : State n) : Label → Call
  | .schedule _ => s.scheduling.call
  | .submit _ | .produce | .graph _ | .partition | .cut _ => .aside

def backlog (s : State n) : List ClientMessage := s.scheduling.hand ++ s.queue.queues 0

/-- `*data_to_partition_`, where it lives, and `round_robin_counter_`. -/
def live (s : State n) : Option (Mapping n) :=
  (s.heap.cells s.dataToPartition).map fun map => ⟨map, s.roundRobinCounter⟩

/-- The map has been swapped in, and `sync_all_partitions` is to come. -/
def Scheduling.due : Scheduling → Bool
  | .restoring _ | .syncing => true
  | _ => false

/-! ### The frontend -/

/-- What the scheduling thread relies on: its map lives, and nobody is about to delete it. -/
structure Mapped (s : State n) : Prop where
  lives : s.heap.Live s.dataToPartition
  freeing : ∀ p, s.partitioner = .freeing p → p ≠ s.dataToPartition

theorem via_mapped (via : (methodSystem method cfg).Via (fun _ l => ∀ m ∈ l.submits, m.IsClient) s) : Mapped s := by
  by_cases roundRobin : method = .ROUND_ROBIN
  · subst roundRobin
    have anchored := Anchored.of_reachable via.reachable
    refine ⟨?_, fun p place => ?_⟩
    · rw [anchored.data]
      exact anchored.live
    · rw [anchored.data]
      exact anchored.freeing p place
  · rw [methodSystem_eq roundRobin] at via
    have pointers := via_pointers (via.mono fun _ l clients => by
      cases l with
      | submit message => exact (clients message rfl).range
      | _ => exact True.intro)
    refine ⟨pointers.live, fun p place => (pointers.spare p ?_).2⟩
    rw [State.spare, place]
    rfl

/-- The scheduler's threads with the producer. -/
def threads (method : CutMethod) (cfg : Config n) : Threads (State n) Label n where
  system := methodSystem method cfg
  submits := Label.submits
  call := call
  live := live
  due s := s.scheduling.due
  backlog := backlog
  start := cfg.toConfig.populatedMapping

theorem Mapped.exists_live (mapped : Mapped s) : ∃ map, s.heap.cells s.dataToPartition = some map ∧
    live s = some ⟨map, s.roundRobinCounter⟩ := by
  obtain ⟨map, here⟩ := Option.isSome_iff_exists.mp mapped.lives
  exact ⟨map, here, by rw [live, here]; rfl⟩

theorem Mapped.kept (mapped : Mapped s) (same : live s' = live s) (due : s'.scheduling.due = s.scheduling.due) :
    (threads method cfg).Kept s s' := by
  obtain ⟨map, -, here⟩ := mapped.exists_live
  exact ⟨_, _, here, same.trans here, rfl, fun settled => ⟨due.symm.trans settled, rfl⟩⟩

/-- Only the dispatch and the swap of the two pointers bear on the live map; every other statement is aside or quiet.
The partitioning thread writes to another map than the live one. -/
theorem Move.asks (h : Move cfg s l s') (mapped : Mapped s) (mapped' : Mapped s') :
    (threads method cfg).Asks s s' (call s l) := by
  cases h with
  | submit | push | notify0 | notify1 | tally | item1 | ahead1 | pop1 | release1 | observe | graphBusy | graphFree | graphSkip
  | graphStart | balanced | imbalanced | noRequest | seeRequest | lowerRequest | empty | sized | graphRaise | copy | assign
  | post | graphRestart | take | aim | store | raiseUpdate => exact .aside (mapped.kept rfl rfl)
  | free place =>
    refine .aside (mapped.kept ?_ rfl)
    show (Function.update s.heap.cells _ none s.dataToPartition).map _ = _
    rw [Function.update_of_ne (mapped.freeing _ place).symm]
    rfl
  | cut =>
    refine .aside (mapped.kept ?_ rfl)
    show (Function.update s.heap.cells s.heap.next _ s.dataToPartition).map _ = _
    rw [Function.update_of_ne (Nat.ne_of_lt mapped.lives.lt)]
    rfl
  | item0 place | ahead0 place | pop0 place | release0 place | findFree place | findBusy place | skip place | start place
  | ask place | raise place | noUpdate place | seeUpdate place | save place | reset place | restart place =>
    simp only [call, place, Scheduling.call]
    exact .quiet (mapped.kept rfl (by rw [place]; rfl))
  | count place | lowerUpdate place | settle place =>
    simp only [call, place, Scheduling.call]
    refine .quiet (mapped.kept rfl ?_)
    rw [place]
    cases cfg.variant <;> rfl
  | swap place =>
    simp only [call, place, Scheduling.call]
    obtain ⟨map, -, here⟩ := mapped.exists_live
    obtain ⟨map', -, after⟩ := mapped'.exists_live
    exact .quiet ⟨_, _, here, after, rfl, nofun⟩
  | restore place =>
    simp only [call, place, Scheduling.call]
    exact .quiet (mapped.kept rfl (by rw [place]; rfl))
  | finish place type =>
    simp only [call, place, Scheduling.call, if_pos type]
    exact .stop (mapped.kept rfl (by rw [place]; rfl)) type
  | @dispatch b message map mapping partitions place type read involved =>
    simp only [call, place, Scheduling.call, if_neg type]
    have settled : s.scheduling.due = false := by
      rw [place]
      rfl
    have here : live s = some ⟨map, s.roundRobinCounter⟩ := by
      rw [live, read]
      rfl
    refine .dispatch type settled here ?_ involved
    show (Function.update s.heap.cells s.dataToPartition _ s.dataToPartition).map _ = _
    rw [Function.update_self, read]
    rfl
  | sync place =>
    simp only [call, place, Scheduling.call]
    obtain ⟨map, -, here⟩ := mapped.exists_live
    exact .syncAll here here rfl

theorem methodStep_asks (h : methodStep method cfg s l = some s') (mapped : Mapped s) (mapped' : Mapped s') :
    (threads method cfg).Asks s s' (call s l) := by
  rcases methodStep_move h with ⟨move, -⟩ | ⟨-, place, ⟨b, rfl⟩, rfl⟩
  · exact move.asks mapped mapped'
  · simp only [call, place, Scheduling.call]
    exact .quiet (mapped.kept rfl (by rw [place]; rfl))

/-- What the scheduling thread takes comes off the front of what waits for it, and a submit adds to the end. -/
theorem Move.backlog (h : Move cfg s l s') : (call s l).taken ++ backlog s' = backlog s ++ l.submits.toList := by
  cases h with
  | submit message place =>
    show s.scheduling.hand ++ (s.queue.pushTo 0 message).queues 0 = (s.scheduling.hand ++ s.queue.queues 0) ++ [message]
    simp [Queue.pushTo]
  | push place =>
    show s.scheduling.hand ++ (s.queue.pushTo 1 _).queues 0 = (s.scheduling.hand ++ s.queue.queues 0) ++ []
    simp [Queue.pushTo]
  | pop0 place front =>
    obtain ⟨rest, queued, rfl⟩ := Queue.popFront_eq_some.mp front
    simp [call, FreeScheduler.backlog, place, Scheduling.call, Scheduling.hand, Call.taken, queued, Label.submits]
  | finish place type | dispatch place type =>
    simp [call, FreeScheduler.backlog, place, Scheduling.call, Scheduling.hand, Call.taken, type, Label.submits]
  | item0 place taken =>
    obtain ⟨-, rfl⟩ := Queue.waitItem_eq_some.mp taken
    simp [call, FreeScheduler.backlog, place, Scheduling.call, Scheduling.hand, Call.taken, Label.submits]
  | ahead0 place taken =>
    obtain ⟨-, rfl⟩ := Queue.waitAhead_eq_some.mp taken
    simp [call, FreeScheduler.backlog, place, Scheduling.call, Scheduling.hand, Call.taken, Label.submits]
  | count place | lowerUpdate place | settle place =>
    cases hv : cfg.variant <;>
      simp [call, FreeScheduler.backlog, place, Scheduling.call, Scheduling.hand, Call.taken, Label.submits,
        Variant.counted, Variant.updated, Variant.settled]
  | release0 place | findFree place | findBusy place | skip place | start place | ask place | raise place | noUpdate place
  | seeUpdate place | save place | swap place | restore place | sync place | reset place | restart place =>
    simp [call, FreeScheduler.backlog, place, Scheduling.call, Scheduling.hand, Call.taken, Label.submits, Queue.postAhead]
  | item1 place taken =>
    obtain ⟨-, rfl⟩ := Queue.waitItem_eq_some.mp taken
    simp [call, FreeScheduler.backlog, Call.taken, Label.submits]
  | ahead1 place taken =>
    obtain ⟨-, rfl⟩ := Queue.waitAhead_eq_some.mp taken
    simp [call, FreeScheduler.backlog, Call.taken, Label.submits]
  | pop1 place front =>
    obtain ⟨rest, queued, rfl⟩ := Queue.popFront_eq_some.mp front
    simp [call, FreeScheduler.backlog, Call.taken, Label.submits]
  | _ => simp [call, FreeScheduler.backlog, Call.taken, Label.submits, Queue.notify, Queue.postAhead]

theorem methodStep_backlog (h : methodStep method cfg s l = some s') :
    (call s l).taken ++ backlog s' = backlog s ++ l.submits.toList := by
  rcases methodStep_move h with ⟨move, -⟩ | ⟨-, place, ⟨b, rfl⟩, rfl⟩
  · exact move.backlog
  · simp [call, backlog, place, Scheduling.call, Scheduling.hand, Call.taken, Label.submits]

/-- They are a frontend. -/
def frontend (method : CutMethod) (cfg : Config n) : Frontend (State n) Label n where
  toThreads := threads method cfg
  live_init := by
    show live (methodInit method cfg) = _
    unfold methodInit
    split <;> rfl
  backlog_init := by
    show backlog (methodInit method cfg) = []
    have empty := (StopTheWorld.schedulerQueue_empty (α := ClientMessage) cfg.queueHeadDistance 0).2
    unfold methodInit
    split <;> exact empty
  backlog_step s l s' _ _ step := methodStep_backlog step
  asks s l s' via clients step := methodStep_asks step (via_mapped via) (via_mapped (via.step clients step))

/-! ### The threads come to rest -/

/-- The statements up to the next `wait<0>()`. -/
def Scheduling.left : Scheduling → Nat
  | .waitingItem | .ended => 0
  | .restarting | .raisingRepartitioning => 1
  | .loweringRepartitioning | .raisingRepartition => 2
  | .resetting | .testingInterval => 3
  | .loweringUpdate => 4
  | .syncing => 5
  | .restoring _ => 6
  | .swapping _ => 7
  | .saving => 8
  | .loadingUpdate => 9
  | .loadingRepartitioning => 10
  | .counting => 11
  | .dispatching _ => 12
  | .releasing _ => 13
  | .popping => 14
  | .waitingAhead => 15

/-- The statements up to the next `wait<1>()`, where those of the partitioning thread that a `sem_post` allows
count too. `AsyncImbScheduler` claims its round before it measures the graph. -/
def GraphThread.left (v : Variant) : GraphThread → Nat
  | .waitingItem => 0
  | .tallying => 1
  | .restarting => 2
  | .posting => 9
  | .assigning _ => 10
  | .copying => 11
  | .raisingRepartitioning => if v = .asyncImb then 14 else 12
  | .sizing => 13
  | .loweringRepartition => 14
  | .testingImbalance | .loadingRepartition => 15
  | .testingInterval => 16
  | .loadingRepartitioning => 17
  | .updating _ => 18
  | .releasing _ => 19
  | .popping => 20
  | .waitingAhead => 21

def Partitioner.left : Partitioner → Nat
  | .waiting => 0
  | .raisingUpdate => 1
  | .storing _ => 2
  | .partitioning => 3
  | .freeing _ => 4
  | .deleting => 5

/-- The rest of a submit, with what its two posts allow. -/
def producerLeft : Producer ClientMessage → Nat
  | .idle => 0
  | .notifying1 => 23
  | .notifying0 => 40
  | .pushing _ => 41

/-- All statements the posts so far allow. -/
def work (cfg : Config n) (s : State n) : Nat :=
  producerLeft s.producer + 16 * s.queue.semaphores 0 + 22 * s.queue.semaphores 1 + 6 * s.repartSemaphore +
    s.scheduling.left + s.graphThread.left cfg.variant + s.partitioner.left

section Variants

variable (v : Variant)

theorem left_counted : v.counted.left < Scheduling.counting.left := by cases v <;> decide

theorem left_updated : v.updated.left < Scheduling.loweringUpdate.left := by cases v <;> decide

theorem left_settled : v.settled.left < Scheduling.loweringRepartitioning.left := by cases v <;> decide

theorem left_head : v.head.left v < GraphThread.left v .testingInterval := by cases v <;> decide

theorem left_busy : v.head.left v < GraphThread.left v .loadingRepartitioning := by cases v <;> decide

theorem left_observed : v.observed.left v < 18 := by cases v <;> decide

theorem left_unclaimed : v.unclaimed.left v < GraphThread.left v .loadingRepartitioning := by cases v <;> decide

theorem left_achieved : v.achieved.left v < GraphThread.left v .testingInterval := by cases v <;> decide

theorem left_sized : v.sized.left v < GraphThread.left v .sizing := by cases v <;> decide

theorem left_empty : v.done.left v < GraphThread.left v .sizing := by cases v <;> decide

theorem left_done : v.done.left v + 6 < GraphThread.left v .posting := by cases v <;> decide

theorem left_raised : v.raised.left v < GraphThread.left v .raisingRepartitioning := by cases v <;> decide

theorem left_raising : GraphThread.left v .raisingRepartitioning < GraphThread.left v .testingImbalance := by
  cases v <;> decide

end Variants

/-- **Every statement but a submit uses some of them up.** -/
theorem work_move (h : Move cfg s l s') (none : l.submits = none) : work cfg s' < work cfg s := by
  have post : ∀ v, semPost Option.none v = v + 1 := fun v => if_neg nofun
  cases h with
  | submit => cases none
  | push place | notify0 place | notify1 place =>
    simp [work, place, producerLeft, Queue.pushTo, Queue.notify, post] <;>
      omega
  | item0 place taken =>
    obtain ⟨pos, rfl⟩ := Queue.waitItem_eq_some.mp taken
    simp [work, place, Scheduling.left]
    omega
  | ahead0 place taken =>
    obtain ⟨pos, rfl⟩ := Queue.waitAhead_eq_some.mp taken
    simp [work, place, Scheduling.left]
  | pop0 place front =>
    obtain ⟨rest, queued, rfl⟩ := Queue.popFront_eq_some.mp front
    simp [work, place, Scheduling.left]
  | count place | lowerUpdate place | settle place =>
    have counted : cfg.variant.counted.left < Scheduling.counting.left := left_counted _
    have updated : cfg.variant.updated.left < Scheduling.loweringUpdate.left := left_updated _
    have settled : cfg.variant.settled.left < Scheduling.loweringRepartitioning.left := left_settled _
    simp only [work, place]
    omega
  | release0 place | finish place | dispatch place | findFree place | findBusy place | skip place | start place | ask place
  | raise place | noUpdate place | seeUpdate place | save place | swap place | restore place | sync place | reset place
  | restart place =>
    simp [work, place, Scheduling.left, Queue.postAhead]
  | item1 place taken =>
    obtain ⟨pos, rfl⟩ := Queue.waitItem_eq_some.mp taken
    simp [work, place, GraphThread.left]
    omega
  | ahead1 place taken =>
    obtain ⟨pos, rfl⟩ := Queue.waitAhead_eq_some.mp taken
    simp [work, place, GraphThread.left]
  | pop1 place front =>
    obtain ⟨rest, queued, rfl⟩ := Queue.popFront_eq_some.mp front
    simp [work, place, GraphThread.left]
  | observe place =>
    have observed := left_observed cfg.variant
    have updating : ∀ m, GraphThread.left cfg.variant (.updating m) = 18 := fun _ => rfl
    simp only [work, place, updating]
    omega
  | graphBusy place | graphFree place | graphSkip place | graphStart place | empty place | sized place | post place
  | graphRaise place | imbalanced place =>
    have head := left_head cfg.variant
    have busy := left_busy cfg.variant
    have unclaimed := left_unclaimed cfg.variant
    have achieved := left_achieved cfg.variant
    have sized := left_sized cfg.variant
    have empty := left_empty cfg.variant
    have done := left_done cfg.variant
    have raised := left_raised cfg.variant
    have raising := left_raising cfg.variant
    simp only [work, place]
    omega
  | release1 place | tally place | balanced place | noRequest place | seeRequest place | lowerRequest place | copy place
  | assign place | graphRestart place =>
    simp [work, place, GraphThread.left, Queue.postAhead]
  | take place posted =>
    simp only [work, place, Partitioner.left]
    omega
  | aim place | free place | cut place | store place | raiseUpdate place => simp [work, place, Partitioner.left]

theorem methodStep_work (h : methodStep method cfg s l = some s') (none : l.submits = none) : work cfg s' < work cfg s := by
  rcases methodStep_move h with ⟨move, -⟩ | ⟨-, place, -, rfl⟩
  · exact work_move move none
  · simp [work, place, Scheduling.left]

/-! ### The threads do not block each other -/

/-- The tokens of `wait` a thread holds until the message is removed, and the post it owes the other head. -/
structure Held where
  item : Nat := 0
  ahead : Nat := 0
  owes : Nat := 0

def Scheduling.held : Scheduling → Held
  | .waitingAhead => { item := 1 }
  | .popping => { item := 1, ahead := 1 }
  | .releasing _ => { owes := 1 }
  | _ => {}

def GraphThread.held : GraphThread → Held
  | .waitingAhead => { item := 1 }
  | .popping => { item := 1, ahead := 1 }
  | .releasing _ => { owes := 1 }
  | _ => {}

/-- The balances of the four semaphores, for the distances `A`. -/
structure Balanced (A : Fin 2 → Nat) (s : State n) : Prop where
  item0 : s.queue.semaphores 0 + s.scheduling.held.item + s.producer.unposted 0 = (s.queue.queues 0).length
  item1 : s.queue.semaphores 1 + s.graphThread.held.item + s.producer.unposted 1 =
    (s.queue.queues 1).length + (s.producer.unsent 1).length
  ahead0 : s.queue.aheadSems 0 + s.scheduling.held.ahead + s.graphThread.held.owes +
    (s.queue.queues 1).length + (s.producer.unsent 1).length = A 0 + (s.queue.queues 0).length
  ahead1 : s.queue.aheadSems 1 + s.graphThread.held.ahead + s.scheduling.held.owes +
    (s.queue.queues 0).length = A 1 + (s.queue.queues 1).length + (s.producer.unsent 1).length

/-- A step that leaves what the balances count. -/
theorem Balanced.same {A : Fin 2 → Nat} (h : Balanced A s) (queue : s'.queue = s.queue) (producer : s'.producer = s.producer)
    (scheduling : s'.scheduling.held = s.scheduling.held) (graph : s'.graphThread.held = s.graphThread.held) :
    Balanced A s' := by
  obtain ⟨item0, item1, ahead0, ahead1⟩ := h
  constructor <;> rw [queue, producer] <;> first | rw [scheduling, graph] | rw [scheduling] | rw [graph]
  all_goals assumption

theorem held_variants (v : Variant) : v.counted.held = {} ∧ v.updated.held = {} ∧ v.settled.held = {} ∧ v.head.held = {} ∧
    v.observed.held = {} ∧ v.unclaimed.held = {} ∧ v.achieved.held = {} ∧ v.sized.held = {} ∧ v.raised.held = {} ∧
    v.done.held = {} := by
  cases v <;> exact ⟨rfl, rfl, rfl, rfl, rfl, rfl, rfl, rfl, rfl, rfl⟩

/-- **Each step keeps the balances.** -/
theorem balanced_move {A : Fin 2 → Nat} (h : Balanced A s) (move : Move cfg s l s') : Balanced A s' := by
  have post : ∀ v, semPost none v = v + 1 := fun v => if_neg nofun
  obtain ⟨counted, updated, settled, head, observed, unclaimed, achieved, sized, raised, done⟩ := held_variants cfg.variant
  obtain ⟨item0, item1, ahead0, ahead1⟩ := id h
  cases move with
  | submit message place | push place | notify0 place | notify1 place =>
    simp [place, Producer.unposted, Producer.unsent] at item0 item1 ahead0 ahead1
    constructor <;> simp [Queue.pushTo, Queue.notify, post, Producer.unposted, Producer.unsent] <;> omega
  | item0 place taken =>
    obtain ⟨pos, rfl⟩ := Queue.waitItem_eq_some.mp taken
    simp only [place, Scheduling.held] at item0 ahead0 ahead1
    constructor <;> simp [Scheduling.held] <;> omega
  | ahead0 place taken =>
    obtain ⟨pos, rfl⟩ := Queue.waitAhead_eq_some.mp taken
    simp only [place, Scheduling.held] at item0 ahead0 ahead1
    constructor <;> simp [Scheduling.held] <;> omega
  | pop0 place front =>
    obtain ⟨rest, queued, rfl⟩ := Queue.popFront_eq_some.mp front
    simp only [place, queued, List.length_cons, Scheduling.held]
      at item0 ahead0 ahead1
    constructor <;> simp [Scheduling.held] <;> omega
  | release0 place =>
    simp only [place, Scheduling.held] at item0 ahead0 ahead1
    constructor <;>
      simp [Queue.postAhead, post, Scheduling.held] <;> omega
  | item1 place taken =>
    obtain ⟨pos, rfl⟩ := Queue.waitItem_eq_some.mp taken
    simp only [place, GraphThread.held] at item1 ahead0 ahead1
    constructor <;> simp [GraphThread.held] <;> omega
  | ahead1 place taken =>
    obtain ⟨pos, rfl⟩ := Queue.waitAhead_eq_some.mp taken
    simp only [place, GraphThread.held] at item1 ahead0 ahead1
    constructor <;> simp [GraphThread.held] <;> omega
  | pop1 place front =>
    obtain ⟨rest, queued, rfl⟩ := Queue.popFront_eq_some.mp front
    simp only [place, queued, List.length_cons, GraphThread.held]
      at item1 ahead0 ahead1
    constructor <;> simp [GraphThread.held] <;> omega
  | release1 place =>
    simp only [place, GraphThread.held] at item1 ahead0 ahead1
    constructor <;>
      simp [Queue.postAhead, post, GraphThread.held] <;> omega
  | count place | lowerUpdate place | settle place | finish place | dispatch place | findFree place | findBusy place
  | skip place | start place | ask place | raise place | noUpdate place | seeUpdate place | save place | swap place
  | restore place | sync place | reset place | restart place =>
    refine h.same rfl rfl ?_ rfl
    rw [place]
    first | exact counted | exact updated | exact settled | rfl
  | observe place | graphBusy place | graphFree place | graphSkip place | graphStart place | empty place | sized place
  | post place | graphRaise place | imbalanced place | tally place | balanced place | noRequest place | seeRequest place
  | lowerRequest place | copy place | assign place | graphRestart place =>
    refine h.same rfl rfl rfl ?_
    rw [place]
    first | exact head | exact observed | exact unclaimed | exact achieved | exact sized | exact raised | exact done | rfl
  | take | aim | free | cut | store | raiseUpdate => exact h.same rfl rfl rfl rfl

/-- The messages on their way come from clients, and the graph has been made by such. -/
structure Fed (cfg : Config n) (s : State n) : Prop where
  pushing : ∀ m, s.producer = .pushing m → m.IsClient
  queued : ∀ h, ∀ m ∈ s.queue.queues h, m.IsClient
  hand : ∀ m ∈ s.scheduling.hand, m.IsClient
  inHand : ∀ m ∈ s.graphThread.inHand, m.IsClient
  counted : ∃ history, Workload.run cfg.TL history = some s.workload

theorem hand_variants (v : Variant) : v.counted.hand = [] ∧ v.updated.hand = [] ∧ v.settled.hand = [] := by
  cases v <;> decide

/-- A step that takes and gives no message. -/
theorem Fed.same (h : Fed cfg s) (producer : s'.producer = s.producer) (queues : s'.queue.queues = s.queue.queues)
    (hand : ∀ m ∈ s'.scheduling.hand, m ∈ s.scheduling.hand) (inHand : ∀ m ∈ s'.graphThread.inHand, m ∈ s.graphThread.inHand)
    (workload : s'.workload = s.workload) : Fed cfg s' where
  pushing m place := h.pushing m (producer ▸ place)
  queued i m mem := h.queued i m (queues ▸ mem)
  hand m mem := h.hand m (hand m mem)
  inHand m mem := h.inHand m (inHand m mem)
  counted := workload ▸ h.counted

/-- A message goes from the client through the two queues into the two hands and from the graph thread's into the
graph, and is the client's on the whole way. -/
theorem fed_move (h : Fed cfg s) (clients : ∀ m ∈ l.submits, m.IsClient) (move : Move cfg s l s') : Fed cfg s' := by
  obtain ⟨counted, updated, settled⟩ := hand_variants cfg.variant
  have none : ∀ {ms : List ClientMessage}, ms = [] → ∀ m ∈ ms, m ∈ s.scheduling.hand := by
    rintro ms rfl m mem
    cases mem
  have bare : ∀ {g : GraphThread}, g.bare = true → ∀ m ∈ g.inHand, m ∈ s.graphThread.inHand := by
    intro g bare m mem
    rw [inHand_of_bare bare] at mem
    cases mem
  cases move with
  | submit message place =>
    refine ⟨fun m eq => ?_, fun i m mem => ?_, h.hand, h.inHand, h.counted⟩
    · cases eq
      exact clients message rfl
    · rcases Queue.mem_pushTo mem with old | rfl
      · exact h.queued i m old
      · exact clients m rfl
  | @push message place =>
    refine ⟨nofun, fun i m mem => ?_, h.hand, h.inHand, h.counted⟩
    rcases Queue.mem_pushTo mem with old | rfl
    · exact h.queued i m old
    · exact h.pushing m place
  | notify0 | notify1 => exact ⟨nofun, h.queued, h.hand, h.inHand, h.counted⟩
  | item0 place taken =>
    obtain ⟨-, rfl⟩ := Queue.waitItem_eq_some.mp taken
    exact h.same rfl rfl (none rfl) (fun _ => id) rfl
  | ahead0 place taken =>
    obtain ⟨-, rfl⟩ := Queue.waitAhead_eq_some.mp taken
    exact h.same rfl rfl (none rfl) (fun _ => id) rfl
  | @pop0 b message q place front =>
    obtain ⟨popped, left⟩ := Queue.mem_popFront front
    refine ⟨h.pushing, fun i m mem => h.queued i m (left i m mem), fun m mem => ?_, h.inHand, h.counted⟩
    rw [List.mem_singleton.mp mem]
    exact h.queued 0 message popped
  | release0 place =>
    refine h.same rfl rfl (fun m mem => ?_) (fun _ => id) rfl
    rw [place]
    exact mem
  | count => exact h.same rfl rfl (none counted) (fun _ => id) rfl
  | lowerUpdate => exact h.same rfl rfl (none updated) (fun _ => id) rfl
  | settle => exact h.same rfl rfl (none settled) (fun _ => id) rfl
  | finish | dispatch | findFree | findBusy | skip | start | ask | raise | noUpdate | seeUpdate | save | swap | restore
  | sync | reset | restart => exact h.same rfl rfl (none rfl) (fun _ => id) rfl
  | item1 place taken =>
    obtain ⟨-, rfl⟩ := Queue.waitItem_eq_some.mp taken
    exact h.same rfl rfl (fun _ => id) (bare rfl) rfl
  | ahead1 place taken =>
    obtain ⟨-, rfl⟩ := Queue.waitAhead_eq_some.mp taken
    exact h.same rfl rfl (fun _ => id) (bare rfl) rfl
  | @pop1 b request q place front =>
    obtain ⟨popped, left⟩ := Queue.mem_popFront front
    refine ⟨h.pushing, fun i m mem => h.queued i m (left i m mem), h.hand, fun m mem => ?_, h.counted⟩
    cases mem
    exact h.queued 1 request popped
  | release1 place =>
    refine h.same rfl rfl (fun _ => id) (fun m mem => ?_) rfl
    rw [place]
    exact mem
  | @observe b request workload place observed =>
    refine ⟨h.pushing, h.queued, h.hand, fun m mem => absurd mem ?_, ?_⟩
    · rw [inHand_of_bare (bare_observed _)]
      exact nofun
    · obtain ⟨history, ran⟩ := h.counted
      refine ⟨history ++ [request], ?_⟩
      rw [Workload.run_snoc, ran]
      exact observed
  | graphBusy | graphSkip => exact h.same rfl rfl (fun _ => id) (bare (bare_head _)) rfl
  | graphFree => exact h.same rfl rfl (fun _ => id) (bare (bare_unclaimed _)) rfl
  | graphStart => exact h.same rfl rfl (fun _ => id) (bare (bare_achieved _)) rfl
  | empty | post => exact h.same rfl rfl (fun _ => id) (bare (bare_done _)) rfl
  | sized => exact h.same rfl rfl (fun _ => id) (bare (bare_sized _)) rfl
  | graphRaise => exact h.same rfl rfl (fun _ => id) (bare (bare_raised _)) rfl
  | copy | assign =>
    refine h.same rfl rfl (fun _ => id) (fun m mem => ?_) rfl
    cases mem
  | tally | balanced | imbalanced | noRequest | seeRequest | lowerRequest | graphRestart =>
    exact h.same rfl rfl (fun _ => id) (bare rfl) rfl
  | take | aim | free | cut | store | raiseUpdate => exact h.same rfl rfl (fun _ => id) (fun _ => id) rfl

/-- The distances of the two heads. -/
def Config.aheads (cfg : Config n) : Fin 2 → Nat :=
  (Queue.schedulerQueue (α := ClientMessage) cfg.queueHeadDistance).aheadSems

/-- What the threads need to go on. -/
structure Ready (cfg : Config n) (s : State n) : Prop where
  mapped : Mapped s
  balanced : Balanced cfg.aheads s
  fed : Fed cfg s

theorem via_ready (via : (methodSystem method cfg).Via (fun _ l => ∀ m ∈ l.submits, m.IsClient) s) : Ready cfg s := by
  have both : Balanced cfg.aheads s ∧ Fed cfg s := by
    refine via.invariant (P := fun s => Balanced cfg.aheads s ∧ Fed cfg s) ?_ ?_
    · obtain ⟨w, ran, same⟩ := methodInit_eq method cfg
      have empty := StopTheWorld.schedulerQueue_empty (α := ClientMessage) cfg.queueHeadDistance
      have place : cfg.variant.head.held = {} ∧ cfg.variant.head.inHand = none := by
        cases cfg.variant <;> exact ⟨rfl, rfl⟩
      show Balanced cfg.aheads (methodInit method cfg) ∧ Fed cfg (methodInit method cfg)
      rw [same]
      refine ⟨?_, nofun, fun i m mem => ?_, nofun, fun m mem => ?_, ⟨_, ran⟩⟩
      · constructor <;> simp [init, empty, place, Scheduling.held, Producer.unposted, Producer.unsent, Config.aheads]
      · rw [show (init cfg).queue.queues i = [] from (empty i).2] at mem
        cases mem
      · rw [show (init cfg).graphThread.inHand = none from place.2] at mem
        cases mem
    · rintro s l s' - ⟨balanced, fed⟩ clients step
      rcases methodStep_move step with ⟨move, -⟩ | ⟨-, place, -, rfl⟩
      · exact ⟨balanced_move balanced move, fed_move fed clients move⟩
      · refine ⟨balanced.same rfl rfl (by rw [place]; rfl) rfl, fed.same rfl rfl (fun m mem => ?_) (fun _ => id) rfl⟩
        cases mem
  exact ⟨via_mapped via, both.1, both.2⟩

theorem submit_enabled (message : ClientMessage) (idle : s.producer = .idle) :
    (methodStep method cfg s (.submit message)).isSome := by
  unfold methodStep
  split
  · rfl
  · simp only [step, idle, Option.isSome_some]

/-- A submit under way goes on. -/
theorem produce_enabled (busy : s.producer.busy = true) : (methodStep method cfg s .produce).isSome := by
  have enabled : (step cfg s .produce).isSome := by
    refine Producer.busy_cases (motive := fun producer => s.producer = producer → (step cfg s .produce).isSome) busy
      (fun value place => ?_) (fun place => ?_) (fun place => ?_) rfl <;>
        simp only [step, produce, place, Option.isSome_some]
  unfold methodStep
  split
  · rfl
  · exact enabled

/-- Some thread has a statement to make that is no submit. -/
def Goes (method : CutMethod) (cfg : Config n) (s : State n) : Prop :=
  ∃ l s', l.submits = none ∧ methodStep method cfg s l = some s'

theorem goes_of_step (none : l.submits = none) (enabled : (step cfg s l).isSome) : Goes method cfg s := by
  have same : (methodStep method cfg s l).isSome := by
    unfold methodStep
    split
    · rfl
    · exact enabled
  obtain ⟨s', step⟩ := Option.isSome_iff_exists.mp same
  exact ⟨l, s', none, step⟩

/-- The test of the interval has an outcome. -/
theorem exists_achieved (cfg : Config n) (s : State n) : ∃ choice, achieved cfg s choice = true := by
  cases interval : cfg.interval with
  | chosen => exact ⟨false, by cases hv : cfg.variant <;> simp [achieved, hv, interval, StopTheWorld.Interval.allows]⟩
  | operations k pos =>
    cases hv : cfg.variant with
    | asyncImb =>
      exact ⟨decide ((k : Int) ≤ (s.nProcessedRequests - s.operationStart) % 2 ^ 64),
        by simp only [achieved, hv, interval, decide_true]⟩
    | _ =>
      exact ⟨decide (s.nDispatchedRequests % k = 0), by simp [achieved, hv, interval, StopTheWorld.Interval.allows]⟩

theorem exists_asyncAchieved (cfg : Config n) (s : State n) : ∃ choice, asyncAchieved cfg s choice = true := by
  cases interval : cfg.interval with
  | chosen => exact ⟨false, by simp only [asyncAchieved, interval]⟩
  | operations k pos =>
    exact ⟨decide ((k : Int) ≤ s.nDispatchedRequests - s.operationStart), by simp only [asyncAchieved, interval, decide_true]⟩

/-- The graph thread can take no token in `wait<1>()`. -/
def GraphBlocked (s : State n) : Prop :=
  s.graphThread = .waitingItem ∧ s.queue.semaphores 1 = 0 ∨ s.graphThread = .waitingAhead ∧ s.queue.aheadSems 1 = 0

/-- The graph thread can go on unless it waits for a post. -/
theorem Ready.graph_goes (ready : Ready cfg s) : Goes method cfg s ∨ GraphBlocked s := by
  have go : ∀ b, (graph cfg s b).isSome → Goes method cfg s := fun b enabled => goes_of_step (l := .graph b) rfl enabled
  cases place : s.graphThread with
  | waitingItem =>
    by_cases empty : s.queue.semaphores 1 = 0
    · exact Or.inr (Or.inl ⟨place, empty⟩)
    · refine Or.inl (go false ?_)
      simp only [graph, place, Queue.waitItem, if_pos (Nat.pos_of_ne_zero empty), Option.isSome_map, Option.isSome_some]
  | waitingAhead =>
    by_cases empty : s.queue.aheadSems 1 = 0
    · exact Or.inr (Or.inr ⟨place, empty⟩)
    · refine Or.inl (go false ?_)
      simp only [graph, place, Queue.waitAhead, if_pos (Nat.pos_of_ne_zero empty), Option.isSome_map, Option.isSome_some]
  | popping =>
    refine Or.inl (go false ?_)
    have items := ready.balanced.item1
    have behind := s.producer.unsent_le 1
    have some : s.queue.queues 1 ≠ [] := by
      intro empty
      simp only [empty, place, GraphThread.held, List.length_nil] at items
      omega
    simp only [graph, place, Option.isSome_map, Queue.popFront_isSome some]
  | updating request =>
    refine Or.inl (go false ?_)
    obtain ⟨history, ran⟩ := ready.fed.counted
    have client : request.IsClient := ready.fed.inHand request (by rw [place]; rfl)
    obtain ⟨w, next, -⟩ := Workload.run_counts cfg.TL (history ++ [request]) fun m mem => by
      rcases List.mem_append.mp mem with old | new
      · exact Workload.run_countable ran m old
      · rw [List.mem_singleton.mp new]
        exact client.countable
    rw [Workload.run_snoc, ran, Option.bind_some] at next
    simp only [graph, place, next, Option.map_some, Option.isSome_some]
  | testingInterval =>
    obtain ⟨choice, outcome⟩ := exists_achieved cfg s
    refine Or.inl (go choice ?_)
    simp only [graph, place, if_pos outcome, Option.isSome_some]
  | copying =>
    refine Or.inl (go false ?_)
    obtain ⟨history, ran⟩ := ready.fed.counted
    obtain ⟨d, copied, -⟩ := multilevelCutData_built (Workload.run_wellFormed ran).row fun _ => .sorted _
    simp only [graph, place, copied, Option.map_some, Option.isSome_some]
  | tallying | releasing | loadingRepartitioning | testingImbalance | loadingRepartition | loweringRepartition | sizing
  | raisingRepartitioning | assigning | posting | restarting =>
    refine Or.inl (go false ?_)
    simp only [graph, place, Option.isSome_some]

/-- The same of the scheduling thread, until it ends. -/
theorem Ready.schedule_goes (ready : Ready cfg s) :
    Goes method cfg s ∨ (s.scheduling = .waitingItem ∧ s.queue.semaphores 0 = 0) ∨
      (s.scheduling = .waitingAhead ∧ s.queue.aheadSems 0 = 0) ∨ s.scheduling = .ended := by
  have go : ∀ b, (schedule cfg s b).isSome → Goes method cfg s := fun b enabled => goes_of_step (l := .schedule b) rfl enabled
  cases place : s.scheduling with
  | waitingItem =>
    by_cases empty : s.queue.semaphores 0 = 0
    · exact Or.inr (Or.inl ⟨rfl, empty⟩)
    · refine Or.inl (go false ?_)
      simp only [schedule, place, Queue.waitItem, if_pos (Nat.pos_of_ne_zero empty), Option.isSome_map, Option.isSome_some]
  | waitingAhead =>
    by_cases empty : s.queue.aheadSems 0 = 0
    · exact Or.inr (Or.inr (Or.inl ⟨rfl, empty⟩))
    · refine Or.inl (go false ?_)
      simp only [schedule, place, Queue.waitAhead, if_pos (Nat.pos_of_ne_zero empty), Option.isSome_map, Option.isSome_some]
  | popping =>
    refine Or.inl (go false ?_)
    have items := ready.balanced.item0
    have some : s.queue.queues 0 ≠ [] := by
      intro empty
      simp only [empty, place, Scheduling.held, List.length_nil] at items
      omega
    simp only [schedule, place, Option.isSome_map, Queue.popFront_isSome some]
  | dispatching message =>
    refine Or.inl (go false ?_)
    obtain ⟨map, here, -⟩ := ready.mapped.exists_live
    have client : message.IsClient := ready.fed.hand message (by rw [place]; exact List.mem_singleton_self message)
    obtain ⟨length, range, -⟩ := client.range
    simp only [schedule, place, here, Option.bind_some, Mapping.involvedPartitions, range]
    split <;> rfl
  | testingInterval =>
    obtain ⟨choice, outcome⟩ := exists_asyncAchieved cfg s
    refine Or.inl (go choice ?_)
    simp only [schedule, place, if_pos outcome, Option.isSome_some]
  | ended => exact Or.inr (Or.inr (Or.inr rfl))
  | releasing | counting | loadingRepartitioning | raisingRepartition | raisingRepartitioning | loadingUpdate | saving | swapping
  | restoring | syncing | loweringUpdate | resetting | loweringRepartitioning | restarting =>
    refine Or.inl (go false ?_)
    simp only [schedule, place, Option.isSome_some]

/-- While the scheduling thread waits for the graph thread to pop, the graph thread has something to pop. -/
theorem Ready.not_blocked (ready : Ready cfg s) (idle : s.producer = .idle) (place : s.scheduling = .waitingAhead)
    (empty : s.queue.aheadSems 0 = 0) : ¬GraphBlocked s := by
  obtain ⟨item0, item1, ahead0, ahead1⟩ := ready.balanced
  have positive : 0 < cfg.aheads 0 + cfg.aheads 1 := StopTheWorld.ahead_pos cfg.toConfig
  simp only [place, idle, Scheduling.held, Producer.unposted, Producer.unsent, List.length_nil] at item0 item1 ahead0 ahead1
  rintro (⟨graph, none⟩ | ⟨graph, none⟩) <;>
    simp only [graph, GraphThread.held] at item1 ahead0 ahead1 <;>
    omega

/-- **The threads go on** while a message is left. -/
theorem Ready.goes (ready : Ready cfg s) (more : backlog s ≠ []) (running : s.scheduling ≠ .ended) : Goes method cfg s := by
  cases idle : s.producer with
  | idle =>
    have scheduling : Goes method cfg s ∨ _ := ready.schedule_goes
    rcases scheduling with goes | ⟨place, empty⟩ | ⟨place, empty⟩ | ended
    · exact goes
    · refine absurd ?_ more
      have item0 := ready.balanced.item0
      simp only [place, idle, Scheduling.held, Producer.unposted] at item0
      have none : s.queue.queues 0 = [] := List.eq_nil_of_length_eq_zero (by omega)
      rw [backlog, place, none]
      rfl
    · exact ready.graph_goes.resolve_right (ready.not_blocked idle place empty)
    · exact absurd ended running
  | pushing message | notifying0 | notifying1 =>
    have enabled : (methodStep method cfg s .produce).isSome := produce_enabled (by rw [idle]; rfl)
    obtain ⟨s', step⟩ := Option.isSome_iff_exists.mp enabled
    exact ⟨.produce, s', rfl, step⟩

/-- 1 from a dispatch to the `sync_all_partitions` that may follow it. -/
def Scheduling.credit : Scheduling → Nat
  | .counting | .loadingRepartitioning | .testingInterval | .raisingRepartition | .raisingRepartitioning | .loadingUpdate
  | .saving | .swapping _ | .restoring _ | .syncing => 1
  | .waitingItem | .waitingAhead | .popping | .releasing _ | .dispatching _ | .loweringUpdate | .resetting
  | .loweringRepartitioning | .restarting | .ended => 0

/-- **At most one change of the map comes after each dispatch.** -/
theorem Move.credit (h : Move cfg s l s') :
    s'.scheduling.credit + (call s l).syncs ≤ s.scheduling.credit + (call s l).dispatches := by
  cases h with
  | count place | lowerUpdate place | settle place =>
    cases hv : cfg.variant <;>
      simp [call, place, Scheduling.call, Scheduling.credit, Call.syncs, Call.dispatches, Variant.counted, Variant.updated,
        Variant.settled]
  | finish place type | dispatch place type =>
    simp [call, place, Scheduling.call, Scheduling.credit, Call.syncs, Call.dispatches, type]
  | item0 place | ahead0 place | pop0 place | release0 place | findFree place | findBusy place | skip place | start place
  | ask place | raise place | noUpdate place | seeUpdate place | save place | swap place | restore place | sync place
  | reset place | restart place =>
    simp [call, place, Scheduling.call, Scheduling.credit, Call.syncs, Call.dispatches]
  | _ => simp [call, Call.syncs, Call.dispatches]

/-- What brings the threads to rest. -/
def draining (method : CutMethod) (cfg : Config n) : (frontend method cfg).Draining where
  work := work cfg
  work_step _ _ _ step none := methodStep_work step none
  ended s := s.scheduling = .ended
  ended_init := by
    show ¬(methodInit method cfg).scheduling = .ended
    unfold methodInit
    split <;> exact nofun
  ended_step s l s' step := by
    show _ → _ ∨ ∃ message, call s l = .stop message
    rcases methodStep_move step with ⟨move, -⟩ | ⟨-, -, -, rfl⟩
    · cases move with
      | @finish b message place type =>
        refine fun _ => Or.inr ⟨message, ?_⟩
        simp only [call, place, Scheduling.call, if_pos type]
      | count | lowerUpdate | settle => cases cfg.variant <;> exact nofun
      | item0 | ahead0 | pop0 | release0 | dispatch | findFree | findBusy | skip | start | ask | raise | noUpdate | seeUpdate
      | save | swap | restore | sync | reset | restart => exact nofun
      | _ => exact Or.inl
    · exact nofun
  goes _ via more running := (via_ready via).goes more running
  credit s := s.scheduling.credit
  credit_init := by
    show (methodInit method cfg).scheduling.credit = 0
    unfold methodInit
    split <;> rfl
  credit_step s l s' step := by
    show _ + (call s l).syncs ≤ _ + (call s l).dispatches
    rcases methodStep_move step with ⟨move, -⟩ | ⟨-, place, ⟨b, rfl⟩, rfl⟩
    · exact move.credit
    · simp [call, place, Scheduling.call, Scheduling.credit, Call.syncs, Call.dispatches]

/-! ### What the counters come to -/

/-- 1 while a dispatched message is not counted. -/
def Scheduling.uncounted : Scheduling → Nat
  | .counting => 1
  | _ => 0

theorem uncounted_variants (v : Variant) : v.counted.uncounted = 0 ∧ v.updated.uncounted = 0 ∧ v.settled.uncounted = 0 := by
  cases v <;> decide

/-- What is counted has been dispatched. -/
theorem Move.counted (h : Move cfg s l s') : s'.nDispatchedRequests + s'.scheduling.uncounted ≤
    s.nDispatchedRequests + s.scheduling.uncounted + (call s l).taken.length := by
  obtain ⟨counted, updated, settled⟩ := uncounted_variants cfg.variant
  cases h with
  | count place =>
    dsimp only
    rw [place, counted]
    exact Nat.le_add_right _ _
  | lowerUpdate place =>
    dsimp only
    rw [updated]
    omega
  | settle place =>
    dsimp only
    rw [settled]
    omega
  | finish place type | dispatch place type =>
    simp [call, place, type, Scheduling.call, Call.taken, Scheduling.uncounted]
  | item0 place | ahead0 place | pop0 place | release0 place | findFree place | findBusy place | skip place | start place
  | ask place | raise place | noUpdate place | seeUpdate place | save place | swap place | restore place | sync place
  | reset place | restart place => simp [place, Scheduling.uncounted]
  | _ => exact Nat.le_add_right _ _

/-- What waits at head 1 has been submitted. -/
theorem Move.queued (h : Move cfg s l s') : (s'.queue.queues 1).length + (s'.producer.unsent 1).length ≤
    (s.queue.queues 1).length + (s.producer.unsent 1).length + l.submits.toList.length := by
  cases h with
  | submit message place | push place | notify0 place | notify1 place =>
    simp [place, Label.submits, Queue.pushTo, Queue.notify, Producer.unsent]
  | item0 place taken | item1 place taken =>
    obtain ⟨-, rfl⟩ := Queue.waitItem_eq_some.mp taken
    exact Nat.le_add_right _ _
  | ahead0 place taken | ahead1 place taken =>
    obtain ⟨-, rfl⟩ := Queue.waitAhead_eq_some.mp taken
    exact Nat.le_add_right _ _
  | pop0 place front =>
    obtain ⟨rest, queued, rfl⟩ := Queue.popFront_eq_some.mp front
    exact Nat.le_add_right _ _
  | pop1 place front =>
    obtain ⟨rest, queued, rfl⟩ := Queue.popFront_eq_some.mp front
    simp only [Function.update_self, queued, List.length_cons]
    omega
  | _ => exact Nat.le_add_right _ _

/-- The replica with this scheduler: `Capacity` and the zlib wrapper of its partitions. -/
def process (method : CutMethod) (cfg : Config n) (capacity : Nat) (compresser : Compresser) :
    Process.Config (State n) Label n where
  frontend := frontend method cfg
  capacity := capacity
  compresser := compresser
  populated := cfg.populated

/-- **The asynchronous schedulers serve**: the four variants with their three threads, their partitions and a client
that submits at any time. A round in flight, whose map may be swapped in at any dispatch, is no more noticed than a
stop of the world. -/
theorem freeScheduler_serves (method : CutMethod) (cfg : Config n) (capacity : Nat) (compresser : Compresser)
    {s : Process.State (State n) n}
    (via : (Process.system (process method cfg capacity compresser)).Via (Process.FromClients (process method cfg capacity compresser)) s)
    (settled : Pool.Settled ((process method cfg capacity compresser).given s)) :
    Process.Serves (process method cfg capacity compresser) s :=
  (Process.via_linked via).serves settled

abbrev eagerProcess : Process.Config (State 2) Label 2 := process .METIS eagerConfig 0 ⟨id, some⟩

/-- The mixed workload has been submitted, and no other thread has moved. -/
theorem exists_submitted : ∃ s, (Process.system eagerProcess).Via (Process.FromClients eagerProcess) s ∧
    s.submitted = Process.mixedWorkload :=
  System.exists_via (P := fun s : Process.State (State 2) 2 => s.submitted = Process.mixedWorkload) _
    (Process.mixedWorkload.flatMap fun m => [.front (.submit m) [], .front .produce [], .front .produce [], .front .produce []])
    (by decide +kernel)

theorem eager_given {s : Process.State (State 2) 2} (submitted : s.submitted = Process.mixedWorkload) :
    Pool.Settled (eagerProcess.given s) ∧ Pool.Answerable (eagerProcess.given s) :=
  Process.mixed_given (c := eagerProcess.given s) (by rw [Process.Config.given, submitted]; decide) rfl

/-- The mixed workload, with its SCAN of a key of each partition, executed to its end. -/
theorem freeScheduler_serves_eager : ∃ t, (Process.system eagerProcess).Via (Process.FromClients eagerProcess) t ∧
    t.submitted = Process.mixedWorkload ∧ Process.Finished eagerProcess t ∧ Process.Serves eagerProcess t := by
  obtain ⟨s, via, submitted⟩ := exists_submitted
  have few : Process.Few s := by
    rw [Process.Few, submitted]
    decide
  obtain ⟨t, later, same, finished⟩ :=
    (Process.drains (draining .METIS eagerConfig) via few (eager_given submitted).2 (by rw [submitted]; decide)).exists_reached
  have via' := via.trans later fun _ _ quiet => quiet.fromClients
  exact ⟨t, via', same.trans submitted, finished, freeScheduler_serves .METIS eagerConfig 0 ⟨id, some⟩ via'
    (eager_given (same.trans submitted)).1⟩

end FreeScheduler

end KvPaxos
