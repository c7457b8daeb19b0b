import KvPaxos.Scheduler.StopTheWorld

/-!
# What a step of the stop-the-world scheduler can do

The step functions of `StopTheWorld` turned into their cases, once. `Move` is one step of
any of the three threads; every later proof about the hand-shake is by cases on it.
-/

namespace KvPaxos

open Lib UnorderedMap

namespace StopTheWorld

variable {n : Nat} {cfg : Config n} {s s' : State n}

/-- A step, by the place it leaves. -/
inductive Move (cfg : Config n) (s : State n) : Label → State n → Prop
  | submit (message : ClientMessage) (place : s.producer = .idle) :
      Move cfg s (.submit message) { s with
        queue := s.queue.pushTo 0 message
        producer := .pushing message
        pushed := s.pushed ++ [message] }
  | push {message : ClientMessage} (place : s.producer = .pushing message) :
      Move cfg s .produce { s with queue := s.queue.pushTo 1 message, producer := .notifying0 }
  | notify0 (place : s.producer = .notifying0) :
      Move cfg s .produce { s with queue := s.queue.notify none 0, producer := .notifying1 }
  | notify1 (place : s.producer = .notifying1) :
      Move cfg s .produce { s with queue := s.queue.notify none 1, producer := .idle }
  | item0 {b : Bool} {q : Queue ClientMessage} (place : s.scheduling = .waitingItem) (taken : s.queue.waitItem 0 = some q) :
      Move cfg s (.schedule b) { s with queue := q, scheduling := .waitingAhead }
  | ahead0 {b : Bool} {q : Queue ClientMessage} (place : s.scheduling = .waitingAhead) (taken : s.queue.waitAhead 0 = some q) :
      Move cfg s (.schedule b) { s with queue := q, scheduling := .popping }
  | pop0 {b : Bool} {message : ClientMessage} {q : Queue ClientMessage} (place : s.scheduling = .popping)
      (front : s.queue.popFront 0 = some (message, q)) :
      Move cfg s (.schedule b) { s with
        queue := q
        scheduling := .releasing message
        popped := Function.update s.popped 0 (s.popped 0 ++ [message]) }
  | release0 {b : Bool} {message : ClientMessage} (place : s.scheduling = .releasing message) :
      Move cfg s (.schedule b) { s with queue := s.queue.postAhead none 1, scheduling := .dispatching message }
  | finish {b : Bool} {message : ClientMessage} (place : s.scheduling = .dispatching message) (type : message.type = .END) :
      Move cfg s (.schedule b) { s with scheduling := .ended message }
  | dispatch {b : Bool} {message : ClientMessage} {mapping : Mapping n} {partitions : Finset (Fin n)}
      (place : s.scheduling = .dispatching message) (type : message.type ≠ .END)
      (involved : s.mapping.involvedPartitions message = some (mapping, partitions)) :
      Move cfg s (.schedule b) { s with mapping := mapping, scheduling := .counting, dispatched := s.dispatched ++ [message] }
  | count (place : s.scheduling = .counting) :
      Move cfg s (.schedule false) { s with nDispatchedRequests := s.nDispatchedRequests + 1, scheduling := .waitingItem }
  | start (place : s.scheduling = .counting) :
      Move cfg s (.schedule true) { s with nDispatchedRequests := s.nDispatchedRequests + 1, scheduling := .raising }
  | raise {b : Bool} (place : s.scheduling = .raising) :
      Move cfg s (.schedule b) { s with note := true, scheduling := .freeingItem, raised := s.raised + 1 }
  | freeItem {b : Bool} (place : s.scheduling = .freeingItem) :
      Move cfg s (.schedule b) { s with queue := s.queue.notify none 1, scheduling := .freeingAhead }
  | freeAhead {b : Bool} (place : s.scheduling = .freeingAhead) :
      Move cfg s (.schedule b) { s with queue := s.queue.postAhead none 1, scheduling := .arriving1 }
  | park1 {b : Bool} (place : s.scheduling = .arriving1) (first : s.barrier.waiting = false) :
      Move cfg s (.schedule b) { s with
        barrier := { s.barrier with waiting := true }
        scheduling := .waiting1 s.barrier.generation }
  | open1 {b : Bool} (place : s.scheduling = .arriving1) (second : s.barrier.waiting = true) :
      Move cfg s (.schedule b) { s with
        barrier := { waiting := false, generation := s.barrier.generation + 1 }
        scheduling := .copying }
  | resume1 {b : Bool} {g : Nat} (place : s.scheduling = .waiting1 g) (passed : g ≠ s.barrier.generation) :
      Move cfg s (.schedule b) { s with scheduling := .copying }
  | copy {b : Bool} {inputGraph : InputGraph} (place : s.scheduling = .copying)
      (copied : s.workload.workloadGraph.multilevelCutData (fun _ => .sorted _) = some inputGraph) :
      Move cfg s (.schedule b) { s with scheduling := .arriving2 inputGraph }
  | park2 {b : Bool} {inputGraph : InputGraph} (place : s.scheduling = .arriving2 inputGraph)
      (first : s.barrier.waiting = false) :
      Move cfg s (.schedule b) { s with
        barrier := { s.barrier with waiting := true }
        scheduling := .waiting2 inputGraph s.barrier.generation }
  | open2 {b : Bool} {inputGraph : InputGraph} (place : s.scheduling = .arriving2 inputGraph)
      (second : s.barrier.waiting = true) :
      Move cfg s (.schedule b) { s with
        barrier := { waiting := false, generation := s.barrier.generation + 1 }
        scheduling := .partitioning inputGraph }
  | resume2 {b : Bool} {inputGraph : InputGraph} {g : Nat} (place : s.scheduling = .waiting2 inputGraph g)
      (passed : g ≠ s.barrier.generation) :
      Move cfg s (.schedule b) { s with scheduling := .partitioning inputGraph }
  | cut {inputGraph : InputGraph} {scheme : List Int} {temp : UnorderedMap Int (Fin n)}
      (place : s.scheduling = .partitioning inputGraph)
      (length : scheme.length = inputGraph.verticeWeight.length) (inRange : ∀ p ∈ scheme, 0 ≤ p ∧ p < n)
      (built : KvPaxos.partitioning n inputGraph (.sorted _) scheme = some temp) :
      Move cfg s (.cut scheme) { s with scheduling := .installing temp }
  | install {b : Bool} {temp : UnorderedMap Int (Fin n)} (place : s.scheduling = .installing temp) :
      Move cfg s (.schedule b) { s with mapping := { s.mapping with dataToPartition := temp }, scheduling := .waitingItem }
  | item1 {q : Queue ClientMessage} (place : s.graphThread = .waitingItem) (taken : s.queue.waitItem 1 = some q) :
      Move cfg s .graph { s with queue := q, graphThread := .waitingAhead }
  | ahead1 {q : Queue ClientMessage} (place : s.graphThread = .waitingAhead) (taken : s.queue.waitAhead 1 = some q) :
      Move cfg s .graph { s with queue := q, graphThread := .checking }
  | pass (place : s.graphThread = .checking) (note : s.note = false) :
      Move cfg s .graph { s with graphThread := .popping }
  | hear (place : s.graphThread = .checking) (note : s.note = true) :
      Move cfg s .graph { s with graphThread := .comparing }
  | agree (place : s.graphThread = .comparing) (enough : s.nDispatchedRequests ≤ s.nProcessedRequests + 1) :
      Move cfg s .graph { s with graphThread := .answering, caughtUp := upToDate s }
  | refuse (place : s.graphThread = .comparing) (behind : s.nProcessedRequests + 1 < s.nDispatchedRequests) :
      Move cfg s .graph { s with graphThread := .popping }
  | answer (place : s.graphThread = .answering) :
      Move cfg s .graph { s with note := false, graphThread := .arriving1, answered := s.answered + 1 }
  | graphPark1 (place : s.graphThread = .arriving1) (first : s.barrier.waiting = false) :
      Move cfg s .graph { s with
        barrier := { s.barrier with waiting := true }
        graphThread := .waiting1 s.barrier.generation }
  | graphOpen1 (place : s.graphThread = .arriving1) (second : s.barrier.waiting = true) :
      Move cfg s .graph { s with
        barrier := { waiting := false, generation := s.barrier.generation + 1 }
        graphThread := .arriving2 }
  | graphResume1 {g : Nat} (place : s.graphThread = .waiting1 g) (passed : g ≠ s.barrier.generation) :
      Move cfg s .graph { s with graphThread := .arriving2 }
  | graphPark2 (place : s.graphThread = .arriving2) (first : s.barrier.waiting = false) :
      Move cfg s .graph { s with
        barrier := { s.barrier with waiting := true }
        graphThread := .waiting2 s.barrier.generation }
  | graphOpen2 (place : s.graphThread = .arriving2) (second : s.barrier.waiting = true) :
      Move cfg s .graph { s with
        barrier := { waiting := false, generation := s.barrier.generation + 1 }
        graphThread := .waitingItem }
  | graphResume2 {g : Nat} (place : s.graphThread = .waiting2 g) (passed : g ≠ s.barrier.generation) :
      Move cfg s .graph { s with graphThread := .waitingItem }
  | pop1 {request : ClientMessage} {q : Queue ClientMessage} (place : s.graphThread = .popping)
      (front : s.queue.popFront 1 = some (request, q)) :
      Move cfg s .graph { s with
        queue := q
        graphThread := .releasing request
        popped := Function.update s.popped 1 (s.popped 1 ++ [request]) }
  | release1 {request : ClientMessage} (place : s.graphThread = .releasing request) :
      Move cfg s .graph { s with queue := s.queue.postAhead none 0, graphThread := .updating request }
  | update {request : ClientMessage} {workload : Workload} (place : s.graphThread = .updating request)
      (observed : s.workload.observe cfg.TL request = some workload) :
      Move cfg s .graph { s with workload := workload, graphThread := .counting, processed := s.processed ++ [request] }
  | tally (place : s.graphThread = .counting) :
      Move cfg s .graph { s with nProcessedRequests := s.nProcessedRequests + 1, graphThread := .waitingItem }

theorem RepartitionBarrier.arrive_of_waiting {b : RepartitionBarrier} (h : b.waiting = true) :
    b.arrive = ({ waiting := false, generation := b.generation + 1 }, none) := if_pos h

theorem RepartitionBarrier.arrive_of_empty {b : RepartitionBarrier} (h : b.waiting = false) :
    b.arrive = ({ b with waiting := true }, some b.generation) := by
  rw [arrive, h]
  rfl

theorem produce_move (h : produce s = some s') : Move cfg s .produce s' := by
  unfold produce at h
  split at h <;> cases h
  · rename_i place
    exact Move.push place
  · rename_i place
    exact Move.notify0 place
  · rename_i place
    exact Move.notify1 place

/-- Each statement of the scheduling thread is one of the moves; at `dispatching` by the type of the message, and at a
barrier by whether the other thread stands there. -/
theorem schedule_move {start : Bool} (h : schedule cfg s start = some s') :
    Move cfg s (.schedule start) s' := by
  unfold schedule at h
  split at h
  · rename_i place
    obtain ⟨q, taken, rfl⟩ := Option.map_eq_some_iff.mp h
    exact Move.item0 place taken
  · rename_i place
    obtain ⟨q, taken, rfl⟩ := Option.map_eq_some_iff.mp h
    exact Move.ahead0 place taken
  · rename_i place
    obtain ⟨⟨message, q⟩, front, rfl⟩ := Option.map_eq_some_iff.mp h
    exact Move.pop0 place front
  · rename_i place
    cases h
    exact Move.release0 place
  · rename_i message place
    split at h
    · rename_i type
      cases h
      exact Move.finish place type
    · rename_i type
      obtain ⟨⟨mapping, partitions⟩, involved, rfl⟩ := Option.map_eq_some_iff.mp h
      exact Move.dispatch place type involved
  · rename_i place
    split at h
    · cases h
      cases start with
      | false => exact Move.count place
      | true => exact Move.start place
    · cases h
  · rename_i place
    cases h
    exact Move.raise place
  · rename_i place
    cases h
    exact Move.freeItem place
  · rename_i place
    cases h
    exact Move.freeAhead place
  · rename_i place
    cases waiting : s.barrier.waiting with
    | true =>
      rw [RepartitionBarrier.arrive_of_waiting waiting] at h
      cases h
      exact Move.open1 place waiting
    | false =>
      rw [RepartitionBarrier.arrive_of_empty waiting] at h
      cases h
      exact Move.park1 place waiting
  · rename_i g place
    split at h
    · cases h
    · rename_i passed
      cases h
      exact Move.resume1 place passed
  · rename_i place
    obtain ⟨inputGraph, copied, rfl⟩ := Option.map_eq_some_iff.mp h
    exact Move.copy place copied
  · rename_i inputGraph place
    cases waiting : s.barrier.waiting with
    | true =>
      rw [RepartitionBarrier.arrive_of_waiting waiting] at h
      cases h
      exact Move.open2 place waiting
    | false =>
      rw [RepartitionBarrier.arrive_of_empty waiting] at h
      cases h
      exact Move.park2 place waiting
  · rename_i inputGraph g place
    split at h
    · cases h
    · rename_i passed
      cases h
      exact Move.resume2 place passed
  · rename_i temp place
    cases h
    exact Move.install place
  · cases h
  · cases h

theorem cut_move {scheme : List Int} (h : cut s scheme = some s') : Move cfg s (.cut scheme) s' := by
  unfold StopTheWorld.cut at h
  split at h
  · rename_i inputGraph place
    split at h
    · rename_i valid
      obtain ⟨temp, built, rfl⟩ := Option.map_eq_some_iff.mp h
      exact Move.cut place valid.1 valid.2 built
    · cases h
  · cases h

/-- Each statement of the graph thread is one of the moves. -/
theorem graph_move (h : graph cfg s = some s') : Move cfg s .graph s' := by
  unfold graph at h
  split at h
  · rename_i place
    obtain ⟨q, taken, rfl⟩ := Option.map_eq_some_iff.mp h
    exact Move.item1 place taken
  · rename_i place
    obtain ⟨q, taken, rfl⟩ := Option.map_eq_some_iff.mp h
    exact Move.ahead1 place taken
  · rename_i place
    cases h
    by_cases note : s.note = true
    · rw [if_pos note]
      exact Move.hear place note
    · rw [if_neg note]
      exact Move.pass place (Bool.eq_false_iff.mpr note)
  · rename_i place
    split at h
    · rename_i enough
      cases h
      exact Move.agree place enough
    · rename_i behind
      cases h
      exact Move.refuse place (Nat.lt_of_not_le behind)
  · rename_i place
    cases h
    exact Move.answer place
  · rename_i place
    cases waiting : s.barrier.waiting with
    | true =>
      rw [RepartitionBarrier.arrive_of_waiting waiting] at h
      cases h
      exact Move.graphOpen1 place waiting
    | false =>
      rw [RepartitionBarrier.arrive_of_empty waiting] at h
      cases h
      exact Move.graphPark1 place waiting
  · rename_i g place
    split at h
    · cases h
    · rename_i passed
      cases h
      exact Move.graphResume1 place passed
  · rename_i place
    cases waiting : s.barrier.waiting with
    | true =>
      rw [RepartitionBarrier.arrive_of_waiting waiting] at h
      cases h
      exact Move.graphOpen2 place waiting
    | false =>
      rw [RepartitionBarrier.arrive_of_empty waiting] at h
      cases h
      exact Move.graphPark2 place waiting
  · rename_i g place
    split at h
    · cases h
    · rename_i passed
      cases h
      exact Move.graphResume2 place passed
  · rename_i place
    obtain ⟨⟨request, q⟩, front, rfl⟩ := Option.map_eq_some_iff.mp h
    exact Move.pop1 place front
  · rename_i place
    cases h
    exact Move.release1 place
  · rename_i place
    obtain ⟨workload, observed, rfl⟩ := Option.map_eq_some_iff.mp h
    exact Move.update place observed
  · rename_i place
    cases h
    exact Move.tally place

/-- **Every step is a move.** -/
theorem step_move {l : Label} (h : step cfg s l = some s') : Move cfg s l s' := by
  cases l with
  | submit message =>
    simp only [step] at h
    split at h
    · rename_i place
      cases h
      exact Move.submit message place
    · cases h
  | produce => exact produce_move h
  | schedule start => exact schedule_move h
  | cut scheme => exact cut_move h
  | graph => exact graph_move h

/-- **The invariant rule** by moves. -/
theorem reachable_invariant {P : State n → Prop} (reachable : (system cfg).Reachable s) (start : P (init cfg))
    (keep : ∀ s l s', P s → Move cfg s l s' → P s') : P s :=
  reachable.invariant start fun s l s' held step => keep s l s' held (step_move step)

end StopTheWorld

end KvPaxos
