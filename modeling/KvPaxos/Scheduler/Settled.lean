import KvPaxos.Scheduler.Replica

/-!
# Workloads whose answers are determined

A SCAN takes its keys modulo the number of stored keys, which requests it is not ordered against may
change. There are two ways not to notice: its keys stay below the number of populated keys, which never
shrinks, or no WRITE brings a new key. A workload each of whose SCANs meets one of the two is `Settled`:
every storage a SCAN can meet reduces its keys alike, so that every run answers as the requests
executed one by one.
-/

namespace KvPaxos.Pool

open Lib

variable {n : Nat} {cfg : Config n} {s s' : State n} {p : Fin n} {k : Nat}

/-- Every WRITE overwrites a populated key. -/
def Overwriting (cfg : Config n) : Prop := ∀ w ∈ cfg.requests, w.type = .WRITE → w.key ∈ cfg.storage

instance (cfg : Config n) : Decidable (Overwriting cfg) := inferInstanceAs (Decidable (∀ _ ∈ _, _ → _))

/-- No SCAN can notice how many keys are stored. -/
def Settled (cfg : Config n) : Prop :=
  ∀ m ∈ cfg.requests, m.type = .SCAN →
    (∀ x ∈ m.keys, 0 ≤ x ∧ x < UnorderedMap.size cfg.storage) ∨ Overwriting cfg

/-- A storage that a run or the one-by-one execution may come to. -/
structure Grown (cfg : Config n) (t : Storage) : Prop where
  kept : ∀ x ∈ cfg.storage, x ∈ t
  written : ∀ x ∈ t, x ∈ cfg.storage ∨ ∃ w ∈ cfg.requests, w.type = .WRITE ∧ w.key = x

section Grown

variable {t : Storage}

theorem Stored.grown (stored : Stored cfg s) : Grown cfg s.storage where
  kept x mem := (stored.keys x).mpr (Or.inl mem)
  written x mem := by
    rcases (stored.keys x).mp mem with old | ⟨k, -, r, hr, write, key⟩
    · exact Or.inl old
    · exact Or.inr ⟨r, List.mem_of_getElem? hr, write, key⟩

theorem met_grown (cfg : Config n) (k : Nat) : Grown cfg (met cfg k) where
  kept x mem := Sequential.mem_storageBefore x |>.mpr (Or.inl mem)
  written x mem := by
    rcases (Sequential.mem_storageBefore x).mp mem with old | ⟨j, -, r, hr, write, key⟩
    · exact Or.inl old
    · exact Or.inr ⟨r, List.mem_of_getElem? hr, write, key⟩

theorem Grown.size_le (grown : Grown cfg t) : UnorderedMap.size cfg.storage ≤ UnorderedMap.size t := by
  refine Finset.card_le_card fun x mem => ?_
  rw [Finmap.mem_keys] at mem ⊢
  exact grown.kept x mem

/-- Without new keys every storage of a run has the populated ones. -/
theorem Grown.mem_iff (grown : Grown cfg t) (overwriting : Overwriting cfg) (x : Int) : x ∈ t ↔ x ∈ cfg.storage := by
  refine ⟨fun mem => ?_, grown.kept x⟩
  rcases grown.written x mem with old | ⟨w, request, write, rfl⟩
  · exact old
  · exact overwriting w request write

/-- **No SCAN is disturbed** in a storage that a run may come to. -/
theorem Grown.undisturbed (grown : Grown cfg t) (settled : Settled cfg) {e : Entry}
    (mem : e.message ∈ cfg.requests) (type : e.message.type = .SCAN) {i : Nat} (own : e.message.key + i ∈ e.message.keys) :
    KeyUndisturbed cfg t e i := by
  rcases settled e.message mem type with small | overwriting
  · obtain ⟨lower, upper⟩ := small _ own
    have more := grown.size_le
    have more' := (met_grown cfg e.number).size_le
    exact Or.inl ⟨lower, by omega, by omega⟩
  · refine Or.inr ?_
    ext y
    rw [Finmap.mem_keys, Finmap.mem_keys, grown.mem_iff overwriting, (met_grown cfg e.number).mem_iff overwriting]

end Grown

/-- Every key that a worker computes or reads is undisturbed. -/
theorem Settled.undisturbed (settled : Settled cfg) (sound : Sound cfg s) (stored : Stored cfg s)
    (reading : ∀ e length i values key, (s.partitions p).worker = .reading e length i values key → (i : Int) < length) :
    Worker.Undisturbed cfg s.storage (s.partitions p).worker := by
  have typed := (sound.accounted p).typed
  have key : ∀ {e : Entry} {length : Int} {i : Nat}, (s.partitions p).worker.entry = some e → e.message.type = .SCAN →
      e.message.range = some length → (i : Int) < length → KeyUndisturbed cfg s.storage e i := by
    intro e length i hold type range more
    have here := current_message sound hold (Entry.barrier_eq_none.mpr (by rw [type]; decide))
    exact stored.grown.undisturbed settled (List.mem_of_getElem? here) type ((ClientMessage.mem_keys range).mpr (by omega))
  cases place : (s.partitions p).worker with
  | scanning e length i values =>
    rw [place] at typed
    exact fun more => key (by rw [place]; rfl) typed.1 typed.2 more
  | reading e length i values k =>
    rw [place] at typed
    exact key (by rw [place]; rfl) typed.1 typed.2 (reading e length i values k place)
  | _ => exact True.intro

/-- **Every run of a settled workload** is undisturbed, so its storage reads agree with the one-by-one execution. -/
theorem settled_via (settled : Settled cfg) (requests : ∀ m ∈ cfg.requests, m.IsRequest)
    (uniform : cfg.storage.Uniform cfg.compresser) (reach : (system cfg).Reachable s) :
    (system cfg).Via (Agrees cfg) s := by
  refine undisturbed_via requests ?_
  suffices (system cfg).Via (Undisturbed cfg) s ∧ ∀ q, Worker.Computed cfg (s.partitions q).worker from this.1
  refine System.Via.invariant (P := fun s => (system cfg).Via (Undisturbed cfg) s ∧
    ∀ q, Worker.Computed cfg (s.partitions q).worker) reach ⟨System.Via.init, fun _ => True.intro⟩ ?_
  intro s l s' via ⟨met, computed⟩ _ h
  have sound := reachable_sound requests via
  have stored := reachable_stored requests uniform via
  have undisturbed : Undisturbed cfg s l := by
    cases l with
    | work p serial =>
      refine settled.undisturbed sound stored fun e length i values key place => ?_
      have computed := computed p
      rw [place] at computed
      exact computed.1
    | dispatch | repartition | push => exact True.intro
  exact ⟨met.step undisturbed h, computed_step requests sound undisturbed computed h⟩

/-- **Settled workloads have one outcome.** Two complete runs of the same requests on the same populated storage, over
any partitions, queues, mappings, repartitions and interleavings, both come to the outcome of the requests executed
one by one: the answer of each, the storage, the number of requests and that of errors. The condition is on the
requests and the populated keys only, and keeps the modulo of `Storage::scan` from being noticed. -/
theorem settled_outcome {n m : Nat} (cfg : Config n) (cfg' : Config m) (ks : List Int)
    (requests : ∀ r ∈ cfg.requests, r.IsRequest) (populated : cfg.storage = Storage.populated cfg.compresser ks)
    (settled : Settled cfg)
    (same : cfg'.requests = cfg.requests ∧ cfg'.compresser = cfg.compresser ∧ cfg'.storage = cfg.storage)
    {s : State n} {s' : State m} (reach : (system cfg).Reachable s) (reach' : (system cfg').Reachable s')
    (complete : Complete cfg s) (complete' : Complete cfg' s') :
    ∃ outcome, Sequential.execute cfg.compresser cfg.storage cfg.requests = some outcome ∧
      ComesTo s outcome ∧ ComesTo s' outcome := by
  obtain ⟨sameRequests, sameCompresser, sameStorage⟩ := same
  have uniform : cfg.storage.Uniform cfg.compresser := populated ▸ (Storage.populated_spec ks).1
  have requests' : ∀ r ∈ cfg'.requests, r.IsRequest := by rwa [sameRequests]
  have uniform' : cfg'.storage.Uniform cfg'.compresser := by rwa [sameStorage, sameCompresser]
  have settled' : Settled cfg' := by
    unfold Settled Overwriting
    rw [sameRequests, sameStorage]
    exact settled
  obtain ⟨outcome, execute, comes⟩ := complete_comesTo requests uniform (settled_via settled requests uniform reach) complete
  obtain ⟨outcome', execute', comes'⟩ :=
    complete_comesTo requests' uniform' (settled_via settled' requests' uniform' reach') complete'
  rw [sameRequests, sameCompresser, sameStorage, execute] at execute'
  cases execute'
  exact ⟨outcome, execute, comes, comes'⟩

/-- The requests of `crossConfig` for one partition. -/
def soloConfig : Config 1 where
  capacity := 0
  compresser := ⟨id, some⟩
  storage := Storage.populated ⟨id, some⟩ [0, 1]
  mapping := [0, 1].foldl Mapping.mapKey ⟨∅, ⟨0, Nat.one_pos⟩⟩
  requests := crossConfig.requests

/-- Two partitions with a repartition and one partition without come to the same outcome. -/
theorem settled_outcome_solo : ∃ s s' outcome, (system crossConfig).Reachable s ∧ (system soloConfig).Reachable s' ∧
    ComesTo s outcome ∧ ComesTo s' outcome := by
  obtain ⟨s, reach, complete⟩ := System.exists_reachable (M := system crossConfig)
    (P := fun s => Quiescent s ∧ s.dispatched = crossConfig.requests.length) crossRun (by decide +kernel)
  obtain ⟨s', reach', complete'⟩ := System.exists_reachable (M := system soloConfig)
    (P := fun s => Quiescent s ∧ s.dispatched = soloConfig.requests.length)
    ((.dispatch 0 [] :: List.replicate 3 .push) ++ (.dispatch 0 [] :: List.replicate 3 .push) ++
      List.replicate 15 (.work 0 0)) (by decide +kernel)
  have settled : Settled crossConfig := fun m mem type => Or.inr (by decide)
  have done : Complete crossConfig s := ⟨complete.1, complete.2⟩
  have done' : Complete soloConfig s' := ⟨complete'.1, complete'.2⟩
  obtain ⟨outcome, -, comes, comes'⟩ :=
    settled_outcome crossConfig soloConfig [0, 1] (by decide) rfl settled ⟨rfl, rfl, rfl⟩ reach reach' done done'
  exact ⟨s, s', outcome, reach, reach', comes, comes'⟩

end KvPaxos.Pool
