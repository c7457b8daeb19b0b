import KvPaxos.Replica.RunEnds
import KvPaxos.Scheduler.FreeProcess

/-!
# The replica with each scheduler

The scheduler that the replica is compiled with, in its `run`: the stop-the-world schedulers and the
asynchronous ones. `initialize_scheduler` populates the keys from 0 to `n_initial_keys`.
-/

namespace KvPaxos

open Lib

variable {n : Nat}

/-- The keys of the populate requests of `initialize_scheduler`. -/
def initialKeys (nInitialKeys : Int) : List Int := (List.range (nInitialKeys + 1).toNat).map fun i : Nat => (i : Int)

theorem mem_initialKeys {nInitialKeys k : Int} : k ∈ initialKeys nInitialKeys ↔ 0 ≤ k ∧ k ≤ nInitialKeys := by
  simp only [initialKeys, List.mem_map, List.mem_range]
  constructor
  · rintro ⟨i, lt, rfl⟩
    omega
  · rintro ⟨low, high⟩
    exact ⟨k.toNat, by omega, by omega⟩

/-- What the replica is started with, apart from its scheduler. -/
structure Parameters where
  nInitialKeys : Int
  capacity : Nat
  compresser : Compresser
  messages : List ClientMessage
  endMessage : ClientMessage
  endType : endMessage.type = .END

/-- A WRITE and a SCAN that conflict and a READ, of the two populated keys. -/
def sampleParameters : Parameters where
  nInitialKeys := 1
  capacity := 1
  compresser := ⟨id, some⟩
  messages := Process.mixedRequests
  endMessage := { type := .END }
  endType := rfl

theorem sample_requests : ∀ m ∈ sampleParameters.messages, m.IsRequest := by
  decide

namespace StopTheWorld

variable {method : CutMethod} {cfg : Config n} {s s' : State n} {l : Label}

/-- `submit` and `join` of the scheduler. -/
def client (method : CutMethod) (cfg : Config n) : Client (frontend method cfg) where
  submit := .submit
  submitting s := s.producer.busy
  returned s := match s.scheduling with
    | .ended _ => true
    | _ => false
  submits_submit _ := rfl

theorem returned_iff (s : State n) : (client method cfg).returned s = true ↔ ∃ message, s.scheduling = .ended message := by
  constructor
  · intro returned
    cases place : s.scheduling with
    | ended message => exact ⟨message, rfl⟩
    | _ => simp [client, place] at returned
  · rintro ⟨message, ended⟩
    simp only [client, ended]

/-- A scheduling thread that has ended has no statement left. -/
theorem Move.ended_kept (h : Move cfg s l s') {message : ClientMessage} (ended : s.scheduling = .ended message) :
    s'.scheduling = .ended message := by
  cases h with
  | item0 place | ahead0 place | pop0 place | release0 place | finish place | dispatch place | count place | start place
  | raise place | freeItem place | freeAhead place | park1 place | open1 place | resume1 place | copy place | park2 place
  | open2 place | resume2 place | cut place | install place => cases place.symm.trans ended
  | _ => exact ended

/-- What the replica relies on to go on. -/
def clientDraining (method : CutMethod) (cfg : Config n) : (client method cfg).Draining where
  toDraining := draining method cfg
  returned_iff := returned_iff
  ended_kept s l s' step := by
    rintro ⟨message, ended⟩
    obtain ⟨l', move, -, -⟩ := exists_move step
    exact ⟨message, move.ended_kept ended⟩
  stop_ends s l s' message step stop := by
    obtain ⟨l', move, same, -⟩ := exists_move step
    have asked : call s l' = .stop message := same.trans stop
    cases move with
    | finish place type => exact ⟨_, rfl⟩
    | dispatch place type =>
      simp only [call, place, Scheduling.call, if_neg type] at asked
      cases asked
    | item0 place | ahead0 place | pop0 place | release0 place | count place | start place | raise place | freeItem place
    | freeAhead place | park1 place | open1 place | resume1 place | copy place | park2 place | open2 place | resume2 place
    | cut place | install place =>
      simp only [call, place, Scheduling.call] at asked
      cases asked
    | _ => cases asked
  submit_goes _ message idle := ⟨submit_enabled message (FlowControl.Producer.busy_eq_false.mp idle), rfl⟩
  submitting_goes _ busy := ⟨.produce, rfl, produce_enabled busy, rfl⟩

/-- The scheduler after the populate requests of `initialize_scheduler`. -/
def Config.populate (cfg : Config n) (nInitialKeys : Int) : Config n := { cfg with populated := initialKeys nInitialKeys }

/-- The replica with `Scheduler` or `OldImbScheduler`. -/
def replica (method : CutMethod) (cfg : Config n) (par : Parameters) : Run.Config (State n) Label n where
  process := process method (cfg.populate par.nInitialKeys) par.capacity par.compresser
  client := client method (cfg.populate par.nInitialKeys)
  messages := par.messages
  endMessage := par.endMessage
  endType := par.endType

/-- **The replica's `run` is accurate** with a stop-the-world scheduler on a settled workload, in every state of every
run: `metrics_loop` prints counts that do not go down and are never ahead of what has been executed, and ends when all
has been, with the outcome of the one-by-one execution; and the error count that is written is the `int` of that
outcome. The counters are read one after the other, so no sum is a snapshot. -/
theorem stopTheWorld_accurate (method : CutMethod) (cfg : Config n) (par : Parameters)
    (requests : ∀ m ∈ par.messages, m.IsRequest) (settled : Pool.Settled (replica method cfg par).given)
    {s : Run.State (State n) n} (reach : (Run.system (replica method cfg par)).Reachable s) :
    Run.Accurate (replica method cfg par) s :=
  Run.accurate requests settled reach

theorem stopTheWorld_accurate_sample : ∃ s, (Run.system (replica .METIS laggingConfig sampleParameters)).Reachable s ∧
    (∃ errorCount, s.main = .reported errorCount) ∧ Run.Accurate (replica .METIS laggingConfig sampleParameters) s := by
  obtain ⟨settled, answerable⟩ := Process.mixed_given (c := (replica .METIS laggingConfig sampleParameters).given) rfl rfl
  have start : (Run.system (replica .METIS laggingConfig sampleParameters)).Reachable _ := System.Reachable.init
  obtain ⟨s, later, reported⟩ :=
    (Run.ends (clientDraining _ _) sample_requests (by decide) answerable start).exists_reached
  have reach := start.trans later.reachable
  exact ⟨s, reach, reported, stopTheWorld_accurate _ _ _ sample_requests settled reach⟩

end StopTheWorld

namespace FreeScheduler

variable {method : CutMethod} {cfg : Config n} {s s' : State n} {l : Label}

/-- `submit` and `join` of the scheduler. -/
def client (method : CutMethod) (cfg : Config n) : Client (frontend method cfg) where
  submit := .submit
  submitting s := s.producer.busy
  returned s := s.scheduling = .ended
  submits_submit _ := rfl

/-- A scheduling thread that has ended has no statement left. -/
theorem Move.ended_kept (h : Move cfg s l s') (ended : s.scheduling = .ended) : s'.scheduling = .ended := by
  cases h with
  | item0 place | ahead0 place | pop0 place | release0 place | finish place | dispatch place | count place | findFree place
  | findBusy place | skip place | start place | ask place | raise place | noUpdate place | seeUpdate place | save place
  | swap place | restore place | sync place | lowerUpdate place | reset place | settle place | restart place =>
    cases place.symm.trans ended
  | _ => exact ended

/-- What the replica relies on to go on. -/
def clientDraining (method : CutMethod) (cfg : Config n) : (client method cfg).Draining where
  toDraining := draining method cfg
  returned_iff _ := decide_eq_true_iff
  ended_kept s l s' step ended := by
    rcases methodStep_move step with ⟨move, -⟩ | ⟨-, place, -, -⟩
    · exact move.ended_kept ended
    · cases place.symm.trans ended
  stop_ends s l s' message step stop := by
    have asked : call s l = .stop message := stop
    rcases methodStep_move step with ⟨move, -⟩ | ⟨-, place, ⟨b, rfl⟩, -⟩
    · cases move with
      | finish place type => rfl
      | dispatch place type =>
        simp only [call, place, Scheduling.call, if_neg type] at asked
        cases asked
      | item0 place | ahead0 place | pop0 place | release0 place | count place | findFree place | findBusy place | skip place
      | start place | ask place | raise place | noUpdate place | seeUpdate place | save place | swap place | restore place
      | sync place | lowerUpdate place | reset place | settle place | restart place =>
        simp only [call, place, Scheduling.call] at asked
        cases asked
      | _ => cases asked
    · simp only [call, place, Scheduling.call] at asked
      cases asked
  submit_goes _ message idle := ⟨submit_enabled message (FlowControl.Producer.busy_eq_false.mp idle), rfl⟩
  submitting_goes _ busy := ⟨.produce, rfl, produce_enabled busy, rfl⟩

/-- The replica with `FreeScheduler` or one of the schedulers that inherit from it. -/
def replica (method : CutMethod) (cfg : Config n) (par : Parameters) : Run.Config (State n) Label n where
  process := process method ⟨cfg.populate par.nInitialKeys, cfg.variant⟩ par.capacity par.compresser
  client := client method ⟨cfg.populate par.nInitialKeys, cfg.variant⟩
  messages := par.messages
  endMessage := par.endMessage
  endType := par.endType

/-- **The replica's `run` is accurate** with an asynchronous scheduler on a settled workload, in every state of every
run, whatever rounds are in flight while `metrics_loop` and the main thread read the counters. -/
theorem freeScheduler_accurate (method : CutMethod) (cfg : Config n) (par : Parameters)
    (requests : ∀ m ∈ par.messages, m.IsRequest) (settled : Pool.Settled (replica method cfg par).given)
    {s : Run.State (State n) n} (reach : (Run.system (replica method cfg par)).Reachable s) :
    Run.Accurate (replica method cfg par) s :=
  Run.accurate requests settled reach

theorem freeScheduler_accurate_sample : ∃ s, (Run.system (replica .METIS eagerConfig sampleParameters)).Reachable s ∧
    (∃ errorCount, s.main = .reported errorCount) ∧ Run.Accurate (replica .METIS eagerConfig sampleParameters) s := by
  obtain ⟨settled, answerable⟩ := Process.mixed_given (c := (replica .METIS eagerConfig sampleParameters).given) rfl rfl
  have start : (Run.system (replica .METIS eagerConfig sampleParameters)).Reachable _ := System.Reachable.init
  obtain ⟨s, later, reported⟩ :=
    (Run.ends (clientDraining _ _) sample_requests (by decide) answerable start).exists_reached
  have reach := start.trans later.reachable
  exact ⟨s, reach, reported, freeScheduler_accurate _ _ _ sample_requests settled reach⟩

end FreeScheduler

end KvPaxos
