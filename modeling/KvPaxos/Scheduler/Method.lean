import KvPaxos.Scheduler.FreeSchedulerSteps
import KvPaxos.Scheduler.StopTheWorldSteps

/-!
# The repartition method

`repartition_method_` decides in two places of every scheduler whether there is a workload graph to
partition: `process_populate_request` counts the populated keys, and `schedule_and_answer` goes on
after `n_dispatched_requests_++`, unless the method is ROUND_ROBIN. The systems of the two
hand-shakes are those of a method that partitions; here is either for any method.
-/

namespace KvPaxos

open Lib

/-- `model::CutMethod`. -/
inductive CutMethod where
  | METIS | KAHIP | FENNEL | REFENNEL | ROUND_ROBIN
  deriving DecidableEq

/-- The populate requests the graph counts. -/
def CutMethod.counted {n : Nat} (method : CutMethod) (cfg : StopTheWorld.Config n) : List ClientMessage :=
  if method = .ROUND_ROBIN then [] else cfg.populateRequests

namespace StopTheWorld

variable {n : Nat} {cfg : Config n} {s s' : State n} {l : Label}

def methodInit (method : CutMethod) (cfg : Config n) : State n :=
  if method = .ROUND_ROBIN then { init cfg with workload := Workload.start cfg.TL } else init cfg

/-- The graph starts with the populated keys, or with none of them. -/
theorem methodInit_eq (method : CutMethod) (cfg : Config n) : ∃ w,
    Workload.run cfg.TL (method.counted cfg) = some w ∧ methodInit method cfg = { init cfg with workload := w } := by
  unfold methodInit CutMethod.counted
  split
  · exact ⟨_, rfl, rfl⟩
  · obtain ⟨w, ran, -⟩ := Workload.run_counts cfg.TL cfg.populateRequests cfg.populate_countable
    refine ⟨w, ran, ?_⟩
    simp only [init, ran, Option.getD_some]

/-- Under ROUND_ROBIN `schedule_and_answer` ends after `n_dispatched_requests_++`. -/
def methodStep (method : CutMethod) (cfg : Config n) (s : State n) (l : Label) : Option (State n) :=
  match method, s.scheduling, l with
  | .ROUND_ROBIN, .counting, .schedule _ =>
    some { s with nDispatchedRequests := s.nDispatchedRequests + 1, scheduling := .waitingItem }
  | _, _, _ => step cfg s l

def methodSystem (method : CutMethod) (cfg : Config n) : System (State n) Label :=
  ⟨methodInit method cfg, methodStep method cfg⟩

/-- A step under a method is a move, or the end of `schedule_and_answer` under ROUND_ROBIN. -/
theorem methodStep_move {method : CutMethod} (h : methodStep method cfg s l = some s') :
    Move cfg s l s' ∧ (method = .ROUND_ROBIN → s.scheduling = .counting → ∀ b, l ≠ .schedule b) ∨
      (method = .ROUND_ROBIN ∧ s.scheduling = .counting ∧ (∃ b, l = .schedule b) ∧
        s' = { s with nDispatchedRequests := s.nDispatchedRequests + 1, scheduling := .waitingItem }) := by
  unfold methodStep at h
  split at h
  · rename_i place
    cases h
    exact Or.inr ⟨rfl, place, ⟨_, rfl⟩, rfl⟩
  · rename_i other
    refine Or.inl ⟨step_move h, fun roundRobin place b eq => ?_⟩
    exact other b roundRobin place eq

end StopTheWorld

namespace FreeScheduler

variable {n : Nat} {cfg : Config n} {s s' : State n} {l : Label}

def methodInit (method : CutMethod) (cfg : Config n) : State n :=
  if method = .ROUND_ROBIN then { init cfg with workload := Workload.start cfg.TL } else init cfg

/-- The graph starts with the populated keys, or with none of them. -/
theorem methodInit_eq (method : CutMethod) (cfg : Config n) : ∃ w,
    Workload.run cfg.TL (method.counted cfg.toConfig) = some w ∧ methodInit method cfg = { init cfg with workload := w } := by
  unfold methodInit CutMethod.counted
  split
  · exact ⟨_, rfl, rfl⟩
  · obtain ⟨w, ran, -⟩ := Workload.run_counts cfg.TL cfg.populateRequests cfg.populate_countable
    refine ⟨w, ran, ?_⟩
    simp only [init, ran, Option.getD_some]

/-- Under ROUND_ROBIN `schedule_and_answer` ends after `n_dispatched_requests_++`. -/
def methodStep (method : CutMethod) (cfg : Config n) (s : State n) (l : Label) : Option (State n) :=
  match method, s.scheduling, l with
  | .ROUND_ROBIN, .counting, .schedule _ =>
    some { s with nDispatchedRequests := s.nDispatchedRequests + 1, scheduling := .waitingItem }
  | _, _, _ => step cfg s l

def methodSystem (method : CutMethod) (cfg : Config n) : System (State n) Label :=
  ⟨methodInit method cfg, methodStep method cfg⟩

/-- A step under a method is a move, or the end of `schedule_and_answer` under ROUND_ROBIN. -/
theorem methodStep_move {method : CutMethod} (h : methodStep method cfg s l = some s') :
    Move cfg s l s' ∧ (method = .ROUND_ROBIN → s.scheduling = .counting → ∀ b, l ≠ .schedule b) ∨
      (method = .ROUND_ROBIN ∧ s.scheduling = .counting ∧ (∃ b, l = .schedule b) ∧
        s' = { s with nDispatchedRequests := s.nDispatchedRequests + 1, scheduling := .waitingItem }) := by
  unfold methodStep at h
  split at h
  · rename_i place
    cases h
    exact Or.inr ⟨rfl, place, ⟨_, rfl⟩, rfl⟩
  · rename_i other
    refine Or.inl ⟨step_move h, fun roundRobin place b eq => ?_⟩
    exact other b roundRobin place eq

/-- With a method that partitions, nothing is cut short. -/
theorem methodSystem_eq {method : CutMethod} (other : method ≠ .ROUND_ROBIN) :
    methodSystem method cfg = system cfg := by
  have init : methodInit method cfg = FreeScheduler.init cfg := if_neg other
  have step : methodStep method cfg = FreeScheduler.step cfg := by
    funext s l
    unfold methodStep
    split
    · exact absurd rfl other
    · rfl
  rw [methodSystem, init, step]
  rfl

/-- The graph thread does not look at the method. -/
theorem methodStep_graph (method : CutMethod) (choice : Bool) :
    methodStep method cfg s (.graph choice) = graph cfg s choice := by
  unfold methodStep
  split
  · rename_i eq
    cases eq
  · rfl

end FreeScheduler

end KvPaxos
