import KvPaxos.Scheduler.FreeScheduler

/-!
# What a step of the asynchronous schedulers can do

The step functions of `FreeScheduler` turned into their cases, once. `Move` is one step of
any of the threads; the proofs about the hand-shake are by cases on it.
-/

namespace KvPaxos

open Lib UnorderedMap

namespace FreeScheduler

variable {n : Nat} {cfg : Config n} {s s' : State n}

/-- A step, by the place it leaves. -/
inductive Move (cfg : Config n) (s : State n) : Label → State n → Prop
  | submit (message : ClientMessage) (place : s.producer = .idle) :
      Move cfg s (.submit message) { s with queue := s.queue.pushTo 0 message, producer := .pushing message }
  | push {message : ClientMessage} (place : s.producer = .pushing message) :
      Move cfg s .produce { s with queue := s.queue.pushTo 1 message, producer := .notifying0 }
  | notify0 (place : s.producer = .notifying0) :
      Move cfg s .produce { s with queue := s.queue.notify none 0, producer := .notifying1 }
  | notify1 (place : s.producer = .notifying1) :
      Move cfg s .produce { s with queue := s.queue.notify none 1, producer := .idle }
  | item0 {b : Bool} {q : Queue ClientMessage} (place : s.scheduling = .waitingItem)
      (taken : s.queue.waitItem 0 = some q) :
      Move cfg s (.schedule b) { s with queue := q, scheduling := .waitingAhead }
  | ahead0 {b : Bool} {q : Queue ClientMessage} (place : s.scheduling = .waitingAhead)
      (taken : s.queue.waitAhead 0 = some q) :
      Move cfg s (.schedule b) { s with queue := q, scheduling := .popping }
  | pop0 {b : Bool} {message : ClientMessage} {q : Queue ClientMessage} (place : s.scheduling = .popping)
      (front : s.queue.popFront 0 = some (message, q)) :
      Move cfg s (.schedule b) { s with queue := q, scheduling := .releasing message }
  | release0 {b : Bool} {message : ClientMessage} (place : s.scheduling = .releasing message) :
      Move cfg s (.schedule b) { s with queue := s.queue.postAhead none 1, scheduling := .dispatching message }
  | finish {b : Bool} {message : ClientMessage} (place : s.scheduling = .dispatching message)
      (type : message.type = .END) :
      Move cfg s (.schedule b) { s with scheduling := .ended }
  | dispatch {b : Bool} {message : ClientMessage} {map : UnorderedMap Int (Fin n)} {mapping : Mapping n}
      {partitions : Finset (Fin n)} (place : s.scheduling = .dispatching message) (type : message.type ≠ .END)
      (read : s.heap.cells s.dataToPartition = some map)
      (involved : Mapping.involvedPartitions ⟨map, s.roundRobinCounter⟩ message = some (mapping, partitions)) :
      Move cfg s (.schedule b) { s with
        heap := s.heap.write s.dataToPartition mapping.dataToPartition
        roundRobinCounter := mapping.roundRobinCounter
        scheduling := .counting }
  | count {b : Bool} (place : s.scheduling = .counting) :
      Move cfg s (.schedule b) { s with
        nDispatchedRequests := s.nDispatchedRequests + 1
        scheduling := cfg.variant.counted }
  | findFree {b : Bool} (place : s.scheduling = .loadingRepartitioning) (free : s.repartitioning = false) :
      Move cfg s (.schedule b) { s with scheduling := .testingInterval }
  | findBusy {b : Bool} (place : s.scheduling = .loadingRepartitioning) (busy : s.repartitioning = true) :
      Move cfg s (.schedule b) { s with scheduling := .loadingUpdate }
  | skip (place : s.scheduling = .testingInterval) :
      Move cfg s (.schedule false) { s with scheduling := .waitingItem }
  | start (place : s.scheduling = .testingInterval) :
      Move cfg s (.schedule true) { s with scheduling := .raisingRepartition }
  | ask {b : Bool} (place : s.scheduling = .raisingRepartition) :
      Move cfg s (.schedule b) { s with repartition := true, scheduling := .raisingRepartitioning }
  | raise {b : Bool} (place : s.scheduling = .raisingRepartitioning) :
      Move cfg s (.schedule b) { s with repartitioning := true, scheduling := .waitingItem }
  | noUpdate {b : Bool} (place : s.scheduling = .loadingUpdate) (down : s.update = false) :
      Move cfg s (.schedule b) { s with scheduling := .waitingItem }
  | seeUpdate {b : Bool} (place : s.scheduling = .loadingUpdate) (up : s.update = true) :
      Move cfg s (.schedule b) { s with scheduling := .saving }
  | save {b : Bool} (place : s.scheduling = .saving) :
      Move cfg s (.schedule b) { s with scheduling := .swapping s.dataToPartition }
  | swap {b : Bool} {temp : Nat} (place : s.scheduling = .swapping temp) :
      Move cfg s (.schedule b) { s with
        dataToPartition := s.updatedDataToPartition
        scheduling := .restoring temp
        installed := s.installed ++ [s.updatedDataToPartition] }
  | restore {b : Bool} {temp : Nat} (place : s.scheduling = .restoring temp) :
      Move cfg s (.schedule b) { s with updatedDataToPartition := temp, scheduling := .syncing }
  | sync {b : Bool} (place : s.scheduling = .syncing) :
      Move cfg s (.schedule b) { s with scheduling := .loweringUpdate }
  | lowerUpdate {b : Bool} (place : s.scheduling = .loweringUpdate) :
      Move cfg s (.schedule b) { s with update := false, scheduling := cfg.variant.updated }
  | reset {b : Bool} (place : s.scheduling = .resetting) :
      Move cfg s (.schedule b) { s with
        operationStart := s.nDispatchedRequests
        scheduling := .loweringRepartitioning }
  | settle {b : Bool} (place : s.scheduling = .loweringRepartitioning) :
      Move cfg s (.schedule b) { s with repartitioning := false, scheduling := cfg.variant.settled }
  | restart {b : Bool} (place : s.scheduling = .restarting) :
      Move cfg s (.schedule b) { s with operationStart := s.nDispatchedRequests, scheduling := .waitingItem }
  | tally {b : Bool} (place : s.graphThread = .tallying) :
      Move cfg s (.graph b) { s with nProcessedRequests := s.nProcessedRequests + 1, graphThread := .waitingItem }
  | item1 {b : Bool} {q : Queue ClientMessage} (place : s.graphThread = .waitingItem)
      (taken : s.queue.waitItem 1 = some q) :
      Move cfg s (.graph b) { s with queue := q, graphThread := .waitingAhead }
  | ahead1 {b : Bool} {q : Queue ClientMessage} (place : s.graphThread = .waitingAhead)
      (taken : s.queue.waitAhead 1 = some q) :
      Move cfg s (.graph b) { s with queue := q, graphThread := .popping }
  | pop1 {b : Bool} {request : ClientMessage} {q : Queue ClientMessage} (place : s.graphThread = .popping)
      (front : s.queue.popFront 1 = some (request, q)) :
      Move cfg s (.graph b) { s with queue := q, graphThread := .releasing request }
  | release1 {b : Bool} {request : ClientMessage} (place : s.graphThread = .releasing request) :
      Move cfg s (.graph b) { s with queue := s.queue.postAhead none 0, graphThread := .updating request }
  | observe {b : Bool} {request : ClientMessage} {workload : Workload} (place : s.graphThread = .updating request)
      (observed : s.workload.observe cfg.TL request = some workload) :
      Move cfg s (.graph b) { s with
        workload := workload
        graphThread := cfg.variant.observed
        processed := s.processed ++ [request] }
  | graphBusy {b : Bool} (place : s.graphThread = .loadingRepartitioning) (busy : s.repartitioning = true) :
      Move cfg s (.graph b) { s with graphThread := cfg.variant.head }
  | graphFree {b : Bool} (place : s.graphThread = .loadingRepartitioning) (free : s.repartitioning = false) :
      Move cfg s (.graph b) { s with graphThread := cfg.variant.unclaimed }
  | graphSkip (place : s.graphThread = .testingInterval) :
      Move cfg s (.graph false) { s with graphThread := cfg.variant.head }
  | graphStart (place : s.graphThread = .testingInterval) :
      Move cfg s (.graph true) { s with graphThread := cfg.variant.achieved }
  | balanced (place : s.graphThread = .testingImbalance) :
      Move cfg s (.graph false) { s with graphThread := .restarting }
  | imbalanced (place : s.graphThread = .testingImbalance) :
      Move cfg s (.graph true) { s with graphThread := .raisingRepartitioning }
  | noRequest {b : Bool} (place : s.graphThread = .loadingRepartition) (down : s.repartition = false) :
      Move cfg s (.graph b) { s with graphThread := .waitingItem }
  | seeRequest {b : Bool} (place : s.graphThread = .loadingRepartition) (up : s.repartition = true) :
      Move cfg s (.graph b) { s with graphThread := .loweringRepartition }
  | lowerRequest {b : Bool} (place : s.graphThread = .loweringRepartition) :
      Move cfg s (.graph b) { s with repartition := false, graphThread := .sizing }
  | empty {b : Bool} (place : s.graphThread = .sizing) (none : s.workload.workloadGraph.nVertex = 0) :
      Move cfg s (.graph b) { s with graphThread := cfg.variant.done }
  | sized {b : Bool} (place : s.graphThread = .sizing) (some : 0 < s.workload.workloadGraph.nVertex) :
      Move cfg s (.graph b) { s with graphThread := cfg.variant.sized }
  | graphRaise {b : Bool} (place : s.graphThread = .raisingRepartitioning) :
      Move cfg s (.graph b) { s with repartitioning := true, graphThread := cfg.variant.raised }
  | copy {b : Bool} {inputGraph : InputGraph} (place : s.graphThread = .copying)
      (copied : s.workload.workloadGraph.multilevelCutData (fun _ => .sorted _) = some inputGraph) :
      Move cfg s (.graph b) { s with graphThread := .assigning inputGraph }
  | assign {b : Bool} {inputGraph : InputGraph} (place : s.graphThread = .assigning inputGraph) :
      Move cfg s (.graph b) { s with inputGraph := inputGraph, graphThread := .posting }
  | post {b : Bool} (place : s.graphThread = .posting) :
      Move cfg s (.graph b) { s with
        repartSemaphore := s.repartSemaphore + 1
        graphThread := cfg.variant.done
        ordered := s.ordered ++ [s.inputGraph] }
  | graphRestart {b : Bool} (place : s.graphThread = .restarting) :
      Move cfg s (.graph b) { s with operationStart := s.nProcessedRequests, graphThread := .tallying }
  | take (place : s.partitioner = .waiting) (posted : 0 < s.repartSemaphore) :
      Move cfg s .partition { s with repartSemaphore := s.repartSemaphore - 1, partitioner := .deleting }
  | aim (place : s.partitioner = .deleting) :
      Move cfg s .partition { s with partitioner := .freeing s.updatedDataToPartition }
  | free {pointer : Nat} (place : s.partitioner = .freeing pointer) :
      Move cfg s .partition { s with heap := s.heap.delete pointer, partitioner := .partitioning }
  | cut {scheme : List Int} {temp : UnorderedMap Int (Fin n)} (place : s.partitioner = .partitioning)
      (built : KvPaxos.partitioning n s.inputGraph (.sorted _) scheme = some temp) :
      Move cfg s (.cut scheme) { s with
        heap := s.heap.new temp
        partitioner := .storing s.heap.next
        produced := s.produced ++ [(s.inputGraph, s.heap.next)] }
  | store {temp : Nat} (place : s.partitioner = .storing temp) :
      Move cfg s .partition { s with updatedDataToPartition := temp, partitioner := .raisingUpdate }
  | raiseUpdate (place : s.partitioner = .raisingUpdate) :
      Move cfg s .partition { s with update := true, partitioner := .waiting }

theorem produce_move (h : produce s = some s') : Move cfg s .produce s' := by
  unfold produce at h
  split at h <;> cases h
  · apply Move.push
    assumption
  · apply Move.notify0
    assumption
  · apply Move.notify1
    assumption

/-- Each statement of the scheduling thread is one of the moves; at `dispatching` by the type of the message. -/
theorem schedule_move {choice : Bool} (h : schedule cfg s choice = some s') :
    Move cfg s (.schedule choice) s' := by
  unfold schedule at h
  cases place : s.scheduling <;> simp only [place] at h
  case waitingItem =>
    obtain ⟨q, taken, rfl⟩ := Option.map_eq_some_iff.mp h
    exact Move.item0 place taken
  case waitingAhead =>
    obtain ⟨q, taken, rfl⟩ := Option.map_eq_some_iff.mp h
    exact Move.ahead0 place taken
  case popping =>
    obtain ⟨⟨message, q⟩, front, rfl⟩ := Option.map_eq_some_iff.mp h
    exact Move.pop0 place front
  case releasing message =>
    cases h
    exact Move.release0 place
  case dispatching message =>
    split at h
    · rename_i type
      cases h
      exact Move.finish place type
    · rename_i type
      obtain ⟨map, read, found⟩ := Option.bind_eq_some_iff.mp h
      obtain ⟨⟨mapping, partitions⟩, involved, rfl⟩ := Option.map_eq_some_iff.mp found
      exact Move.dispatch place type read involved
  case counting =>
    cases h
    exact Move.count place
  case loadingRepartitioning =>
    cases h
    by_cases busy : s.repartitioning = true
    · rw [if_pos busy]
      exact Move.findBusy place busy
    · rw [if_neg busy]
      exact Move.findFree place (Bool.eq_false_iff.mpr busy)
  case testingInterval =>
    obtain ⟨-, ⟨⟩⟩ := Option.ite_none_right_eq_some.mp h
    cases choice with
    | false => exact Move.skip place
    | true => exact Move.start place
  case raisingRepartition =>
    cases h
    exact Move.ask place
  case raisingRepartitioning =>
    cases h
    exact Move.raise place
  case loadingUpdate =>
    cases h
    by_cases up : s.update = true
    · rw [if_pos up]
      exact Move.seeUpdate place up
    · rw [if_neg up]
      exact Move.noUpdate place (Bool.eq_false_iff.mpr up)
  case saving =>
    cases h
    exact Move.save place
  case swapping temp =>
    cases h
    exact Move.swap place
  case restoring temp =>
    cases h
    exact Move.restore place
  case syncing =>
    cases h
    exact Move.sync place
  case loweringUpdate =>
    cases h
    exact Move.lowerUpdate place
  case resetting =>
    cases h
    exact Move.reset place
  case loweringRepartitioning =>
    cases h
    exact Move.settle place
  case restarting =>
    cases h
    exact Move.restart place
  case ended => cases h

/-- Each statement of the graph thread is one of the moves. Where it goes after a message and after a test is the
variant's own. -/
theorem graph_move {choice : Bool} (h : graph cfg s choice = some s') : Move cfg s (.graph choice) s' := by
  unfold graph at h
  cases place : s.graphThread <;> simp only [place] at h
  case tallying =>
    cases h
    exact Move.tally place
  case waitingItem =>
    obtain ⟨q, taken, rfl⟩ := Option.map_eq_some_iff.mp h
    exact Move.item1 place taken
  case waitingAhead =>
    obtain ⟨q, taken, rfl⟩ := Option.map_eq_some_iff.mp h
    exact Move.ahead1 place taken
  case popping =>
    obtain ⟨⟨request, q⟩, front, rfl⟩ := Option.map_eq_some_iff.mp h
    exact Move.pop1 place front
  case releasing request =>
    cases h
    exact Move.release1 place
  case updating request =>
    obtain ⟨workload, observed, rfl⟩ := Option.map_eq_some_iff.mp h
    exact Move.observe place observed
  case loadingRepartitioning =>
    cases h
    by_cases busy : s.repartitioning = true
    · rw [if_pos busy]
      exact Move.graphBusy place busy
    · rw [if_neg busy]
      exact Move.graphFree place (Bool.eq_false_iff.mpr busy)
  case testingInterval =>
    obtain ⟨-, ⟨⟩⟩ := Option.ite_none_right_eq_some.mp h
    cases choice with
    | false => exact Move.graphSkip place
    | true => exact Move.graphStart place
  case testingImbalance =>
    cases h
    cases choice with
    | false => exact Move.balanced place
    | true => exact Move.imbalanced place
  case loadingRepartition =>
    cases h
    by_cases up : s.repartition = true
    · rw [if_pos up]
      exact Move.seeRequest place up
    · rw [if_neg up]
      exact Move.noRequest place (Bool.eq_false_iff.mpr up)
  case loweringRepartition =>
    cases h
    exact Move.lowerRequest place
  case sizing =>
    cases h
    by_cases some : 0 < s.workload.workloadGraph.nVertex
    · rw [if_pos some]
      exact Move.sized place some
    · rw [if_neg some]
      exact Move.empty place (Nat.eq_zero_of_not_pos some)
  case raisingRepartitioning =>
    cases h
    exact Move.graphRaise place
  case copying =>
    obtain ⟨inputGraph, copied, rfl⟩ := Option.map_eq_some_iff.mp h
    exact Move.copy place copied
  case assigning inputGraph =>
    cases h
    exact Move.assign place
  case posting =>
    cases h
    exact Move.post place
  case restarting =>
    cases h
    exact Move.graphRestart place

theorem partition_move (h : partition s = some s') : Move cfg s .partition s' := by
  unfold FreeScheduler.partition at h
  cases place : s.partitioner <;> simp only [place] at h
  case waiting =>
    obtain ⟨posted, ⟨⟩⟩ := Option.ite_none_right_eq_some.mp h
    exact Move.take place posted
  case deleting =>
    cases h
    exact Move.aim place
  case freeing pointer =>
    cases h
    exact Move.free place
  case partitioning => cases h
  case storing temp =>
    cases h
    exact Move.store place
  case raisingUpdate =>
    cases h
    exact Move.raiseUpdate place

theorem cut_move {scheme : List Int} (h : cut s scheme = some s') : Move cfg s (.cut scheme) s' := by
  unfold FreeScheduler.cut at h
  cases place : s.partitioner <;> simp only [place] at h
  case partitioning =>
    obtain ⟨-, found⟩ := Option.ite_none_right_eq_some.mp h
    obtain ⟨temp, built, rfl⟩ := Option.map_eq_some_iff.mp found
    exact Move.cut place built
  all_goals cases h

/-- **Every step is a move.** -/
theorem step_move {l : Label} (h : step cfg s l = some s') : Move cfg s l s' := by
  cases l with
  | submit message =>
    simp only [step] at h
    split at h
    · rename_i place
      cases h
      exact Move.submit message place
    · cases h
  | produce => exact produce_move h
  | schedule choice => exact schedule_move h
  | graph choice => exact graph_move h
  | partition => exact partition_move h
  | cut scheme => exact cut_move h

end FreeScheduler

end KvPaxos
