import KvPaxos.Scheduler.FreeSchedulerSteps

/-!
# What the threads of the asynchronous schedulers know where they are

A thread tests a flag and acts on the outcome some steps later. `Tested` says for each place
what the tests on the way to it have found, and `places_move` that no step of the other
threads undoes it. `Requests` follows the requests to the graph: where the graph thread
asks for vertices it has just counted a request, and so there are some.
-/

namespace KvPaxos

open Lib UnorderedMap

/-- If the message is a SCAN, its length is readable and at least 1. -/
def ClientMessage.Sized (m : ClientMessage) : Prop :=
  ∃ r, m.range = some r ∧ 1 ≤ r

instance (m : ClientMessage) : Decidable m.Sized :=
  decidable_of_iff (∃ r ∈ m.range, 1 ≤ r) Iff.rfl

theorem ClientMessage.Sized.key_mem {m : ClientMessage} (h : m.Sized) : m.key ∈ m.keys := by
  obtain ⟨r, hr, pos⟩ := h
  rw [mem_keys hr]
  omega

namespace FreeScheduler

variable {n : Nat} {cfg : Config n} {s s' : State n} {l : Label}

/-- What is submitted is sized. -/
def Label.Sized : Label → Prop
  | .submit message => message.Sized
  | _ => True

instance : DecidablePred Label.Sized
  | .submit message => inferInstanceAs (Decidable message.Sized)
  | .produce | .schedule _ | .graph _ | .partition | .cut _ => .isTrue True.intro

/-- The graph is measured after the round has been claimed. -/
def Variant.sizesLast : Variant → Bool
  | .async | .asyncImb => true
  | _ => false

/-! ### Flags -/

/-- What the scheduling thread has found out still holds. -/
def Scheduling.Tested (v : Variant) (update repartitioning : Bool) : Scheduling → Prop
  | .saving | .swapping _ => update = true
  | .loadingRepartitioning | .raisingRepartitioning => v = .async
  | .testingInterval | .raisingRepartition => v = .async ∧ repartitioning = false
  | _ => True

/-- What the graph thread has found out still holds. -/
def GraphThread.Tested (v : Variant) (repartition repartitioning : Bool) : GraphThread → Prop
  | .loadingRepartitioning => v ≠ .async
  | .testingInterval | .testingImbalance | .raisingRepartitioning => v ≠ .async ∧ repartitioning = false
  | .sizing => v.sizesLast = false → repartitioning = false
  | .loadingRepartition => v = .async
  | .loweringRepartition => v = .async ∧ repartition = true
  | _ => True

section Tested

variable {v : Variant} {a : Scheduling} {g : GraphThread} {u r b b' : Bool}

theorem Scheduling.Tested.update (h : a.Tested v u b) : a.Tested v true b := by
  cases a <;> first | rfl | exact h

theorem Scheduling.Tested.repartitioning (h : a.Tested v u b) (other : v ≠ .async) : a.Tested v u b' := by
  cases a <;> first | exact h | exact absurd h.1 other

theorem GraphThread.Tested.repartition (h : g.Tested v r b) : g.Tested v true b := by
  cases g <;> first | exact h | exact ⟨h.1, rfl⟩

theorem GraphThread.Tested.free (h : g.Tested v r b) : g.Tested v r false := by
  cases g <;> first | exact h | exact ⟨h.1, rfl⟩ | exact fun _ => rfl

theorem GraphThread.Tested.repartitioning (h : g.Tested v r b) (async : v = .async) : g.Tested v r b' := by
  subst async
  cases g <;> first | exact h | exact absurd rfl h.1 | exact nofun

theorem tested_counted : v.counted.Tested v u b := by
  cases v <;> first | rfl | trivial

theorem tested_updated : v.updated.Tested v u b := by
  cases v <;> trivial

theorem tested_settled : v.settled.Tested v u b := by
  cases v <;> trivial

theorem tested_head : v.head.Tested v r b := by
  cases v <;> trivial

theorem tested_observed : v.observed.Tested v r b := by
  cases v <;> first | rfl | exact nofun

theorem tested_unclaimed (other : v ≠ .async) : v.unclaimed.Tested v r false := by
  cases v <;> first | exact fun _ => rfl | exact ⟨other, rfl⟩

theorem tested_achieved (other : v ≠ .async) : v.achieved.Tested v r false := by
  cases v <;> first | exact fun _ => rfl | exact ⟨other, rfl⟩

theorem tested_sized (free : v.sizesLast = false → b = false) : v.sized.Tested v r b := by
  cases v <;> first | trivial | exact ⟨nofun, free rfl⟩

theorem tested_raised : v.raised.Tested v r b := by
  cases v <;> first | trivial | exact nofun

theorem tested_done : v.done.Tested v r b := by
  cases v <;> trivial

end Tested

/-- Both threads' findings hold. -/
structure Places (cfg : Config n) (s : State n) : Prop where
  scheduling : s.scheduling.Tested cfg.variant s.update s.repartitioning
  graph : s.graphThread.Tested cfg.variant s.repartition s.repartitioning

/-- **Each step keeps what the threads have found out.** -/
theorem places_move (h : Places cfg s) (move : Move cfg s l s') : Places cfg s' := by
  obtain ⟨scheduling, graph⟩ := h
  cases move with
  | submit | push | notify0 | notify1 | take | aim | free | cut | store => exact ⟨scheduling, graph⟩
  | item0 | ahead0 | pop0 | release0 | finish | dispatch | findBusy | skip | noUpdate | swap | restore | sync | reset
  | restart => exact ⟨trivial, graph⟩
  | count => exact ⟨tested_counted, graph⟩
  | findFree place free =>
    rw [place] at scheduling
    exact ⟨⟨scheduling, free⟩, graph⟩
  | start place =>
    rw [place] at scheduling
    exact ⟨scheduling, graph⟩
  | ask place =>
    rw [place] at scheduling
    exact ⟨scheduling.1, graph.repartition⟩
  | raise place =>
    rw [place] at scheduling
    exact ⟨trivial, graph.repartitioning scheduling⟩
  | seeUpdate place up => exact ⟨up, graph⟩
  | save place =>
    rw [place] at scheduling
    exact ⟨scheduling, graph⟩
  | lowerUpdate place => exact ⟨tested_updated, graph⟩
  | settle place => exact ⟨tested_settled, graph.free⟩
  | tally | item1 | ahead1 | pop1 | release1 | balanced | noRequest | copy | assign | graphRestart =>
    exact ⟨scheduling, trivial⟩
  | observe => exact ⟨scheduling, tested_observed⟩
  | graphBusy | graphSkip => exact ⟨scheduling, tested_head⟩
  | graphFree place free =>
    rw [place] at graph
    refine ⟨scheduling, ?_⟩
    show GraphThread.Tested _ _ s.repartitioning _
    rw [free]
    exact tested_unclaimed graph
  | graphStart place =>
    rw [place] at graph
    refine ⟨scheduling, ?_⟩
    show GraphThread.Tested _ _ s.repartitioning _
    rw [graph.2]
    exact tested_achieved graph.1
  | imbalanced place =>
    rw [place] at graph
    exact ⟨scheduling, graph⟩
  | seeRequest place up =>
    rw [place] at graph
    exact ⟨scheduling, graph, up⟩
  | lowerRequest place =>
    rw [place] at graph
    refine ⟨scheduling, fun first => ?_⟩
    rw [graph.1] at first
    cases first
  | empty | post => exact ⟨scheduling, tested_done⟩
  | sized place =>
    rw [place] at graph
    exact ⟨scheduling, tested_sized graph⟩
  | graphRaise place =>
    rw [place] at graph
    exact ⟨scheduling.repartitioning graph.1, tested_raised⟩
  | raiseUpdate => exact ⟨scheduling.update, graph⟩

theorem via_places (via : (system cfg).Via (fun _ l => l.Sized) s) : Places cfg s := by
  apply via.invariant (P := Places cfg)
  · exact ⟨trivial, tested_head⟩
  · exact fun s l s' _ places _ step => places_move places (step_move step)

/-! ### Vertices -/

/-- The request the graph thread has taken off the queue and not counted. -/
def GraphThread.inHand : GraphThread → Option ClientMessage
  | .releasing request | .updating request => some request
  | _ => none

/-- The graph thread has counted a request in this round of its loop. -/
def GraphThread.sighted : GraphThread → Bool
  | .loadingRepartitioning | .testingInterval | .testingImbalance | .loadingRepartition
  | .loweringRepartition | .sizing | .raisingRepartitioning => true
  | _ => false

/-- The requests on their way to the graph are sized, and so the graph has vertices where the graph
thread asks for them. -/
structure Requests (cfg : Config n) (s : State n) : Prop where
  pushing : ∀ m, s.producer = .pushing m → m.Sized
  queued : ∀ m ∈ s.queue.queues 1, m.Sized
  inHand : ∀ m ∈ s.graphThread.inHand, m.Sized
  workload : Workload.run cfg.TL (cfg.populateRequests ++ s.processed) = some s.workload
  sighted : s.graphThread.sighted = true → 0 < s.workload.workloadGraph.nVertex

/-- A place that holds no data. -/
def GraphThread.bare : GraphThread → Bool
  | .releasing _ | .updating _ | .assigning _ => false
  | _ => true

theorem inHand_of_bare {g : GraphThread} (bare : g.bare = true) : g.inHand = none := by
  cases g <;> first | rfl | cases bare

theorem bare_head (v : Variant) : v.head.bare = true := by cases v <;> rfl

theorem bare_observed (v : Variant) : v.observed.bare = true := by cases v <;> rfl

theorem bare_unclaimed (v : Variant) : v.unclaimed.bare = true := by cases v <;> rfl

theorem bare_achieved (v : Variant) : v.achieved.bare = true := by cases v <;> rfl

theorem bare_sized (v : Variant) : v.sized.bare = true := by cases v <;> rfl

theorem bare_raised (v : Variant) : v.raised.bare = true := by cases v <;> rfl

theorem bare_done (v : Variant) : v.done.bare = true := by cases v <;> rfl

theorem sighted_done (v : Variant) : v.done.sighted = false := by cases v <;> rfl

/-- The graph has the key of the request it has counted last. -/
theorem Requests.vertices (h : Requests cfg s) {request : ClientMessage} {workload : Workload}
    (place : s.graphThread = .updating request) (observed : s.workload.observe cfg.TL request = some workload) :
    Workload.run cfg.TL (cfg.populateRequests ++ (s.processed ++ [request])) = some workload ∧
      0 < workload.workloadGraph.nVertex := by
  have run : Workload.run cfg.TL (cfg.populateRequests ++ (s.processed ++ [request])) = some workload := by
    rw [← List.append_assoc, Workload.run_snoc, h.workload]
    exact observed
  refine ⟨run, ?_⟩
  have sized : request.Sized := h.inHand request (by rw [place]; rfl)
  rw [← List.append_assoc] at run
  have vertex := Workload.run_last run sized.key_mem
  exact Finset.card_pos.mpr ⟨request.key, Finmap.mem_keys.mpr vertex⟩

/-- A step of the graph thread that takes no request. -/
theorem Requests.graph (h : Requests cfg s) (producer : s'.producer = s.producer)
    (queue : s'.queue.queues 1 = s.queue.queues 1) (workload : s'.workload = s.workload)
    (processed : s'.processed = s.processed) (none : s'.graphThread.inHand = none)
    (sighted : s'.graphThread.sighted = true → s.graphThread.sighted = true) : Requests cfg s' := by
  refine ⟨?_, ?_, ?_, ?_, ?_⟩
  · rw [producer]
    exact h.pushing
  · rw [queue]
    exact h.queued
  · intro m mem
    rw [none] at mem
    cases mem
  · rw [workload, processed]
    exact h.workload
  · rw [workload]
    exact fun now => h.sighted (sighted now)

/-- A message goes from the producer through the queue and the graph thread's hand into the graph, and keeps its type
on the way; the graph has a vertex when it has counted one. -/
theorem requests_move (h : Requests cfg s) (sized : l.Sized) (move : Move cfg s l s') : Requests cfg s' := by
  obtain ⟨pushing, queued, inHand, workload, sighted⟩ := id h
  cases move with
  | submit message place =>
    refine ⟨fun m eq => ?_, ?_, inHand, workload, sighted⟩
    · cases eq
      exact sized
    · simpa [Queue.pushTo] using queued
  | @push message place =>
    refine ⟨fun m eq => (by cases eq), fun m mem => ?_, inHand, workload, sighted⟩
    have mem : m ∈ s.queue.queues 1 ++ [message] := by simpa [Queue.pushTo] using mem
    rcases List.mem_append.mp mem with old | new
    · exact queued m old
    · rw [List.mem_singleton.mp new]
      exact pushing message place
  | notify0 | notify1 => exact ⟨fun m eq => (by cases eq), queued, inHand, workload, sighted⟩
  | item0 place taken =>
    obtain ⟨-, rfl⟩ := Queue.waitItem_eq_some.mp taken
    exact ⟨pushing, queued, inHand, workload, sighted⟩
  | ahead0 place taken =>
    obtain ⟨-, rfl⟩ := Queue.waitAhead_eq_some.mp taken
    exact ⟨pushing, queued, inHand, workload, sighted⟩
  | pop0 place front =>
    obtain ⟨rest, -, rfl⟩ := Queue.popFront_eq_some.mp front
    refine ⟨pushing, ?_, inHand, workload, sighted⟩
    simpa using queued
  | item1 place taken =>
    obtain ⟨-, rfl⟩ := Queue.waitItem_eq_some.mp taken
    exact h.graph rfl rfl rfl rfl rfl fun after => by cases after
  | ahead1 place taken =>
    obtain ⟨-, rfl⟩ := Queue.waitAhead_eq_some.mp taken
    exact h.graph rfl rfl rfl rfl rfl fun after => by cases after
  | pop1 place front =>
    obtain ⟨rest, eq, rfl⟩ := Queue.popFront_eq_some.mp front
    rw [eq] at queued
    refine ⟨pushing, fun m mem => ?_, fun m mem => ?_, workload, fun after => (by cases after)⟩
    · exact queued m (List.mem_cons_of_mem _ (by simpa using mem))
    · cases mem
      exact queued _ List.mem_cons_self
  | release1 place =>
    rw [place] at inHand
    exact ⟨pushing, queued, inHand, workload, fun after => (by cases after)⟩
  | observe place observed =>
    obtain ⟨run, vertices⟩ := h.vertices place observed
    refine ⟨pushing, queued, fun m mem => ?_, run, fun _ => vertices⟩
    rw [inHand_of_bare (bare_observed _)] at mem
    cases mem
  | tally | noRequest | balanced | copy | assign | graphRestart =>
    exact h.graph rfl rfl rfl rfl rfl fun after => by cases after
  | graphBusy place | graphSkip place =>
    refine h.graph rfl rfl rfl rfl (inHand_of_bare (bare_head _)) fun _ => ?_
    rw [place]
    rfl
  | graphFree place =>
    refine h.graph rfl rfl rfl rfl (inHand_of_bare (bare_unclaimed _)) fun _ => ?_
    rw [place]
    rfl
  | graphStart place =>
    refine h.graph rfl rfl rfl rfl (inHand_of_bare (bare_achieved _)) fun _ => ?_
    rw [place]
    rfl
  | imbalanced place | seeRequest place | lowerRequest place =>
    refine h.graph rfl rfl rfl rfl rfl fun _ => ?_
    rw [place]
    rfl
  | sized place =>
    refine h.graph rfl rfl rfl rfl (inHand_of_bare (bare_sized _)) fun _ => ?_
    rw [place]
    rfl
  | graphRaise place =>
    refine h.graph rfl rfl rfl rfl (inHand_of_bare (bare_raised _)) fun _ => ?_
    rw [place]
    rfl
  | empty place | post place =>
    refine h.graph rfl rfl rfl rfl (inHand_of_bare (bare_done _)) fun after => ?_
    rw [sighted_done] at after
    cases after
  | _ => exact ⟨pushing, queued, inHand, workload, sighted⟩

theorem via_requests (via : (system cfg).Via (fun _ l => l.Sized) s) : Requests cfg s := by
  apply via.invariant (P := Requests cfg)
  · obtain ⟨w, ran, -⟩ := Workload.run_counts cfg.TL cfg.populateRequests cfg.populate_countable
    refine ⟨nofun, ?_, ?_, ?_, ?_⟩
    · show ∀ m ∈ (Queue.schedulerQueue (α := ClientMessage) cfg.queueHeadDistance).queues 1, m.Sized
      unfold Queue.schedulerQueue
      split <;> exact nofun
    · show ∀ m ∈ cfg.variant.head.inHand, m.Sized
      rw [inHand_of_bare (bare_head _)]
      exact nofun
    · show Workload.run cfg.TL (cfg.populateRequests ++ []) = some ((Workload.run cfg.TL cfg.populateRequests).getD _)
      rw [List.append_nil, ran, Option.getD_some]
    · show cfg.variant.head.sighted = true → _
      cases cfg.variant <;> exact nofun
  · exact fun s l s' _ requests sized step => requests_move requests sized (step_move step)

/-! ### The messages for the graph thread -/

/-- What is on its way to the graph thread. -/
def upcoming (s : State n) : List ClientMessage :=
  s.graphThread.inHand.toList ++ s.queue.queues 1 ++ s.producer.unsent 1

/-- A step that sends the graph thread nothing. -/
theorem upcoming_same (processed : s'.processed = s.processed) (queue : s'.queue = s.queue) (producer : s'.producer = s.producer)
    (inHand : s'.graphThread.inHand = s.graphThread.inHand) : s'.processed ++ upcoming s' = s.processed ++ upcoming s ++ [] := by
  rw [upcoming, upcoming, processed, queue, producer, inHand, List.append_nil]

/-- What the graph thread has processed and what is on the way to it make up what has been submitted. -/
theorem Move.upcoming (h : Move cfg s l s') :
    s'.processed ++ upcoming s' = s.processed ++ upcoming s ++ l.submits.toList := by
  have nothing : ∀ {g : GraphThread}, g.inHand = none → s.graphThread.inHand = none → g.inHand = s.graphThread.inHand :=
    fun none none' => none.trans none'.symm
  cases h with
  | submit message place | push place | notify0 place | notify1 place =>
    simp [FreeScheduler.upcoming, place, FlowControl.Producer.unsent, Queue.pushTo, Queue.notify, Label.submits]
  | item0 place taken | item1 place taken =>
    obtain ⟨-, rfl⟩ := Queue.waitItem_eq_some.mp taken
    simp [FreeScheduler.upcoming, GraphThread.inHand, Label.submits, *]
  | ahead0 place taken | ahead1 place taken =>
    obtain ⟨-, rfl⟩ := Queue.waitAhead_eq_some.mp taken
    simp [FreeScheduler.upcoming, GraphThread.inHand, Label.submits, *]
  | pop0 place front | pop1 place front =>
    obtain ⟨rest, queued, rfl⟩ := Queue.popFront_eq_some.mp front
    simp [FreeScheduler.upcoming, GraphThread.inHand, Label.submits, *]
  | release0 place | release1 place =>
    simp [FreeScheduler.upcoming, GraphThread.inHand, Queue.postAhead, Label.submits, *]
  | @observe b request w place =>
    have inHand : s.graphThread.inHand = some request := by rw [place]; rfl
    simp [FreeScheduler.upcoming, inHand, inHand_of_bare (bare_observed _), Label.submits]
  | graphBusy place | graphSkip place => exact upcoming_same rfl rfl rfl (nothing (inHand_of_bare (bare_head _)) (by rw [place]; rfl))
  | graphFree place => exact upcoming_same rfl rfl rfl (nothing (inHand_of_bare (bare_unclaimed _)) (by rw [place]; rfl))
  | graphStart place => exact upcoming_same rfl rfl rfl (nothing (inHand_of_bare (bare_achieved _)) (by rw [place]; rfl))
  | empty place | post place => exact upcoming_same rfl rfl rfl (nothing (inHand_of_bare (bare_done _)) (by rw [place]; rfl))
  | sized place => exact upcoming_same rfl rfl rfl (nothing (inHand_of_bare (bare_sized _)) (by rw [place]; rfl))
  | graphRaise place => exact upcoming_same rfl rfl rfl (nothing (inHand_of_bare (bare_raised _)) (by rw [place]; rfl))
  | tally place | balanced place | imbalanced place | noRequest place | seeRequest place | lowerRequest place | copy place
  | assign place | graphRestart place => exact upcoming_same rfl rfl rfl (nothing rfl (by rw [place]; rfl))
  | _ => exact upcoming_same rfl rfl rfl rfl

end FreeScheduler

end KvPaxos
