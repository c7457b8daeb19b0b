import KvPaxos.Scheduler.Counters

/-!
# Answers of the workers against one-by-one execution

Every stored value is the compressed template, so all that matters of the storage is
which keys it holds: those at the start and those of the WRITEs started so far
(`Stored`). For a key of its range a request meets exactly the keys of the one-by-one
execution (`present_iff`), because the requests that write it are ordered against it. A
SCAN, however, reads its keys modulo the number of stored keys, which changes with
requests it is not ordered against; `Agrees` says of a storage read that this makes no
difference. `Undisturbed` is a condition on the state before a SCAN computes or reads a
key, on that key and on the number of stored keys, and its runs have only such reads.
-/

namespace KvPaxos.Pool

open Lib

variable {n : Nat} {cfg : Config n} {s s' : State n} {p q : Fin n} {k : Nat}

/-- The keys of the storage, by the requests that have been started. -/
structure Stored (cfg : Config n) (s : State n) : Prop where
  uniform : s.storage.Uniform cfg.compresser
  keys : ∀ x, x ∈ s.storage ↔ x ∈ cfg.storage ∨ ∃ k ∈ s.trace.filterMap Event.started,
    ∃ r, cfg.requests[k]? = some r ∧ r.type = .WRITE ∧ r.key = x

theorem init_stored (uniform : cfg.storage.Uniform cfg.compresser) : Stored cfg (init cfg) :=
  ⟨uniform, fun x => by simp [init]⟩

section Steps

/-- Steps that start no WRITE. -/
theorem Stored.of_same (stored : Stored cfg s) (storage : s'.storage = s.storage) {events : List (Event n)}
    (trace : s'.trace = s.trace ++ events)
    (others : ∀ k ∈ events.filterMap Event.started, ∀ r, cfg.requests[k]? = some r → r.type ≠ .WRITE) :
    Stored cfg s' := by
  refine ⟨by rw [storage]; exact stored.uniform, fun x => ?_⟩
  rw [storage, stored.keys, trace, List.filterMap_append]
  refine or_congr_right ⟨fun ⟨k, mem, h⟩ => ⟨k, List.mem_append_left _ mem, h⟩, ?_⟩
  rintro ⟨k, mem, r, hr, write, key⟩
  rcases List.mem_append.mp mem with mem | mem
  · exact ⟨k, mem, r, hr, write, key⟩
  · exact absurd write (others k mem r hr)

/-- Steps that start nothing. -/
theorem Stored.silent (stored : Stored cfg s) (storage : s'.storage = s.storage) {events : List (Event n)}
    (trace : s'.trace = s.trace ++ events) (none : events.filterMap Event.started = []) : Stored cfg s' := by
  apply stored.of_same storage trace
  intro k mem
  rw [none] at mem
  cases mem

theorem Work.stored (h : Work cfg s p s') (sound : Sound cfg s) (stored : Stored cfg s) : Stored cfg s' := by
  have message : ∀ {e : Entry}, (s.partitions p).worker = .handling e → e.message.type ≠ .SYNC →
      cfg.requests[e.number]? = some e.message := fun place type =>
    current_message sound (by rw [place]; rfl) (Entry.barrier_eq_none.mpr type)
  -- a request that is no WRITE leaves the storage when it starts
  have reads : ∀ {e : Entry}, (s.partitions p).worker = .handling e → e.message.type ≠ .SYNC →
      e.message.type ≠ .WRITE → ∀ k ∈ [Event.start p e.number].filterMap Event.started,
      ∀ r, cfg.requests[k]? = some r → r.type ≠ .WRITE := by
    intro e place type notWrite k mem r hr
    simp only [List.filterMap_cons, Event.started, List.filterMap_nil, List.mem_singleton] at mem
    subst mem
    cases (message place type).symm.trans hr
    exact notWrite
  cases h with
  | read place type | scan place type =>
    exact stored.of_same rfl rfl (reads place (by rw [type]; decide) (by rw [type]; decide))
  | other place type => exact stored.of_same rfl rfl (reads place type.2.2.2 type.2.1)
  | @write e place type =>
    have here := message place (by rw [type]; decide)
    refine ⟨stored.uniform.write e.message.key e.message.args, fun x => ?_⟩
    rw [Storage.mem_write, stored.keys, put_trace, List.filterMap_append]
    constructor
    · rintro (rfl | old | ⟨k, mem, h⟩)
      · exact Or.inr ⟨e.number, by simp [Event.started], _, here, type, rfl⟩
      · exact Or.inl old
      · exact Or.inr ⟨k, List.mem_append_left _ mem, h⟩
    · rintro (old | ⟨k, mem, r, hr, write, key⟩)
      · exact Or.inr (Or.inl old)
      · rcases List.mem_append.mp mem with mem | mem
        · exact Or.inr (Or.inr ⟨k, mem, r, hr, write, key⟩)
        · simp only [List.filterMap_cons, Event.started, List.filterMap_nil, List.mem_singleton] at mem
          subst mem
          cases here.symm.trans hr
          exact Or.inl key.symm
  | acquire | dequeue | release | arrive | key | scanned | hit | miss | leave | elect | destroy | count =>
    exact stored.silent rfl rfl rfl

theorem stored_step {l : Label n} (requests : ∀ m ∈ cfg.requests, m.IsRequest) (sound : Sound cfg s)
    (stored : Stored cfg s) (h : step cfg s l = some s') : Stored cfg s' := by
  have setUp : ∀ {s'}, SetUp cfg s s' → Stored cfg s' := by
    intro s' up
    have trace : s'.trace = s.trace ++ [] := by rw [up.trace, List.append_nil]
    exact stored.silent up.storage trace rfl
  cases l with
  | dispatch first rest => exact setUp ((dispatch_cases h).setUp requests)
  | repartition scheme order => exact setUp ((repartition_cases h).setUp s.mapping.roundRobinCounter.pos)
  | push =>
    cases push_cases h with
    | skip => exact ⟨stored.uniform, stored.keys⟩
    | reserve | enqueue | post => exact stored.silent rfl rfl rfl
  | work p serial => exact (work_cases h).stored sound stored

/-- **The stored keys** are those of the start and of the WRITEs started, in every reachable state. -/
theorem reachable_stored (requests : ∀ m ∈ cfg.requests, m.IsRequest)
    (uniform : cfg.storage.Uniform cfg.compresser) (reach : (system cfg).Reachable s) : Stored cfg s :=
  System.Via.invariant reach (init_stored uniform) fun _ _ _ via stored _ h =>
    stored_step requests (reachable_sound requests via) stored h

end Steps

/-- The storage request `k` meets when the requests are executed one by one. -/
def met (cfg : Config n) (k : Nat) : Storage :=
  Sequential.storageBefore cfg.compresser cfg.storage cfg.requests k

/-- **A request meets its own keys** as in the one-by-one execution: while a worker has a READ or
SCAN in its hand, a key it covers is stored exactly if an earlier request or the start has stored it. -/
theorem present_iff (sound : Sound cfg s) (ordered : Ordered s) (rec : Recorded cfg s) (stored : Stored cfg s)
    {e : Entry} (hold : (s.partitions p).worker.entry = some e) (request : e.barrier = none)
    (notWrite : e.message.type ≠ .WRITE) {x : Int} (mem : x ∈ e.message.keys) :
    x ∈ s.storage ↔ x ∈ met cfg e.number := by
  have message := current_message sound hold request
  have covers : ∀ {r : ClientMessage}, r.type = .WRITE → r.key = x → x ∈ r.keys := by
    rintro r write rfl
    rw [ClientMessage.keys_of_not_scan (by rw [write]; decide)]
    exact List.mem_singleton.mpr rfl
  rw [stored.keys, met, Sequential.mem_storageBefore]
  refine or_congr_right ⟨?_, ?_⟩
  · rintro ⟨k, started, r, hr, write, key⟩
    obtain ⟨q, start⟩ := mem_started.mp started
    rcases Nat.lt_trichotomy k e.number with lt | rfl | gt
    · exact ⟨k, lt, r, hr, write, key⟩
    · cases message.symm.trans hr
      exact absurd write notWrite
    · have conflict : e.message.Conflict r := ⟨x, mem, covers write key⟩
      exact absurd ((rec.started q k).mp start) (later_not_begun sound ordered hold request gt hr conflict q)
  · rintro ⟨j, lt, r, hr, write, key⟩
    have conflict : r.Conflict e.message := ⟨x, covers write key, mem⟩
    obtain ⟨q, done⟩ := earlier_done sound ordered hold request lt hr conflict
    exact ⟨j, mem_started.mpr ⟨q, (rec.started q j).mpr (Or.inl done)⟩, r, hr, write, key⟩

section Replay

/-- A SCAN's storage read whose key the modulo changes, here or in the one-by-one execution, finds
its key exactly if the one-by-one execution does. -/
def Worker.Agrees (cfg : Config n) (storage : Storage) : Worker → Prop
  | .reading e _ i _ key =>
    (key ≠ e.message.key + i ∨ (met cfg e.number).scanKey (e.message.key + i) ≠ e.message.key + i) →
      (key ∈ storage ↔ (met cfg e.number).scanKey (e.message.key + i) ∈ met cfg e.number)
  | _ => True

/-- Storage reads of workers agree. -/
def Agrees (cfg : Config n) (s : State n) : Label n → Prop
  | .work p _ => Worker.Agrees cfg s.storage (s.partitions p).worker
  | _ => True

/-- The one-by-one execution finds the key of iteration `j` of the SCAN `e`. -/
def Finds (cfg : Config n) (e : Entry) (j : Nat) : Prop :=
  (met cfg e.number).scanKey (e.message.key + j) ∈ met cfg e.number

/-- Request `k` counts as an error in the one-by-one execution. -/
def fails (cfg : Config n) (k : Nat) : Bool :=
  Sequential.failsAt cfg.compresser cfg.storage cfg.requests k

/-- What a worker has collected is what the one-by-one execution collects. -/
def Worker.Replays (cfg : Config n) : Worker → Prop
  | .scanning e length i values => (i : Int) ≤ length ∧
    values = List.replicate i (Storage.uniformValue cfg.compresser) ∧ ∀ j < i, Finds cfg e j
  | .reading e length i values _ => (i : Int) < length ∧
    values = List.replicate i (Storage.uniformValue cfg.compresser) ∧ ∀ j < i, Finds cfg e j
  | .counting e text =>
    Sequential.answer cfg.compresser (met cfg e.number) e.message = some (text, fails cfg e.number)
  | _ => True

/-- 1 if the worker holds the error of a request it has still to count. -/
def Worker.failing (cfg : Config n) : Worker → Nat
  | .counting e _ => (fails cfg e.number).toNat
  | _ => 0

/-- The run so far is a run of the one-by-one execution, in some order. -/
structure Replayed (cfg : Config n) (s : State n) : Prop where
  workers : ∀ p, Worker.Replays cfg (s.partitions p).worker
  errors : ∀ p, (s.partitions p).errorCount =
    countWhere (fails cfg) ((s.partitions p).log.take (s.partitions p).handled) +
      Worker.failing cfg (s.partitions p).worker
  answers : ∀ p k text, .finish p k text ∈ s.trace → ∃ m, cfg.requests[k]? = some m ∧
    Sequential.answer cfg.compresser (met cfg k) m = some (text, fails cfg k)

theorem init_replayed : Replayed cfg (init cfg) :=
  ⟨fun _ => True.intro, fun _ => rfl, fun _ _ _ mem => absurd mem List.not_mem_nil⟩

/-- A step that moves worker `p` to `part`. -/
theorem Replayed.put (replayed : Replayed cfg s) {part : Partition} (events : List (Event n))
    (partitions : s'.partitions = Function.update s.partitions p part)
    (trace : s'.trace = s.trace ++ events) (worker : Worker.Replays cfg part.worker)
    (errors : part.errorCount = countWhere (fails cfg) (part.log.take part.handled) +
      Worker.failing cfg part.worker)
    (answers : ∀ q k text, .finish q k text ∈ events → ∃ m, cfg.requests[k]? = some m ∧
      Sequential.answer cfg.compresser (met cfg k) m = some (text, fails cfg k)) : Replayed cfg s' := by
  refine ⟨fun q => ?_, fun q => ?_, fun q k text mem => ?_⟩
  · rw [partitions]
    by_cases eq : q = p
    · subst eq
      rwa [Function.update_self]
    · rw [Function.update_of_ne eq]
      exact replayed.workers q
  · rw [partitions]
    by_cases eq : q = p
    · subst eq
      rwa [Function.update_self]
    · rw [Function.update_of_ne eq]
      exact replayed.errors q
  · rw [trace] at mem
    rcases List.mem_append.mp mem with mem | mem
    · exact replayed.answers q k text mem
    · exact answers q k text mem

/-- What a finished request adds to the error count of its partition. -/
theorem countWhere_finish {capacity u v : Nat} {part : Partition} (acc : Accounts capacity u v part) {e : Entry}
    (hold : part.worker.entry = some e) (P : Nat → Bool) :
    countWhere P (part.log.take (part.handled + 1)) = countWhere P (part.log.take part.handled) +
      if e.barrier = none then (P e.number).toNat else 0 := by
  rw [acc.take_succ hold, countWhere, List.countP_append, countWhere]
  by_cases request : e.barrier = none
  · have type := Entry.barrier_eq_none.mp request
    cases hp : P e.number <;> simp [request, type, hp]
  · have type : e.message.type = .SYNC := by
      by_contra other
      exact request (Entry.barrier_eq_none.mpr other)
    simp [request, type]

/-- Nothing but the answer of the one-by-one execution decides whether a request fails. -/
theorem fails_eq {m : ClientMessage} {text : List Char} {failed : Bool} (hm : cfg.requests[k]? = some m)
    (h : Sequential.answer cfg.compresser (met cfg k) m = some (text, failed)) : fails cfg k = failed :=
  Sequential.failsAt_eq hm h

/-- A step in which worker `p` comes to the answer that the one-by-one execution gives. -/
theorem Replayed.settle (replayed : Replayed cfg s) {part : Partition} {e : Entry} {text : List Char}
    {failed : Bool} (events : List (Event n)) (partitions : s'.partitions = Function.update s.partitions p part)
    (trace : s'.trace = s.trace ++ events) (worker : part.worker = .counting e text)
    (here : cfg.requests[e.number]? = some e.message)
    (same : Sequential.answer cfg.compresser (met cfg e.number) e.message = some (text, failed))
    (errors : part.errorCount = countWhere (fails cfg) (part.log.take part.handled) + failed.toNat)
    (silent : ∀ q k text, .finish q k text ∉ events) : Replayed cfg s' := by
  have fine := fails_eq here same
  refine replayed.put events partitions trace ?_ ?_ fun q k text mem => absurd mem (silent q k text)
  · rw [worker]
    show Sequential.answer _ _ _ = _
    rw [fine]
    exact same
  · rw [worker, errors]
    simp only [Worker.failing, fine]

/-- A SCAN all of whose keys the one-by-one execution finds is answered by as many values. -/
theorem answer_found (uniform : cfg.storage.Uniform cfg.compresser) {e : Entry} {length : Int}
    (type : e.message.type = .SCAN) (range : e.message.range = some length)
    (all : ∀ j < length.toNat, Finds cfg e j) :
    Sequential.answer cfg.compresser (met cfg e.number) e.message =
      some (joinValues (List.replicate length.toNat (Storage.uniformValue cfg.compresser)), false) := by
  have here : (met cfg e.number).Uniform cfg.compresser := Sequential.Uniform.storageBefore uniform _ _
  have scan : (met cfg e.number).scan cfg.compresser e.message.key length =
      some (List.replicate length.toNat (Storage.uniformValue cfg.compresser)) := by
    rw [Sequential.scan_uniform here]
    exact if_pos all
  simp only [Sequential.answer, type, range, Option.map_some, scan]

/-- A SCAN one of whose keys the one-by-one execution misses is an error. -/
theorem answer_missed (uniform : cfg.storage.Uniform cfg.compresser) {e : Entry} {length : Int} {j : Nat}
    (type : e.message.type = .SCAN) (range : e.message.range = some length) (lt : (j : Int) < length)
    (missed : ¬ Finds cfg e j) :
    Sequential.answer cfg.compresser (met cfg e.number) e.message = some (errorAnswer, true) := by
  have here : (met cfg e.number).Uniform cfg.compresser := Sequential.Uniform.storageBefore uniform _ _
  have scan : (met cfg e.number).scan cfg.compresser e.message.key length = none := by
    rw [Sequential.scan_uniform here]
    exact if_neg fun all => missed (all j (by omega))
  simp only [Sequential.answer, type, range, Option.map_some, scan]

/-- A storage read of a SCAN finds its key exactly if the one-by-one execution does, if the modulo
changes nothing or the guard of the step is met. -/
theorem read_iff (sound : Sound cfg s) (ordered : Ordered s) (rec : Recorded cfg s) (stored : Stored cfg s)
    {e : Entry} {length : Int} {i : Nat} {values : List (List Char)} {key : Int}
    (place : (s.partitions p).worker = .reading e length i values key)
    (lt : (i : Int) < length) (agrees : Worker.Agrees cfg s.storage (s.partitions p).worker) :
    key ∈ s.storage ↔ Finds cfg e i := by
  have typed := (sound.accounted p).typed
  rw [place] at agrees typed
  obtain ⟨type, range⟩ := typed
  by_cases changed : key ≠ e.message.key + i ∨ (met cfg e.number).scanKey (e.message.key + i) ≠ e.message.key + i
  · exact agrees changed
  · push Not at changed
    have mem : e.message.key + i ∈ e.message.keys := by
      rw [ClientMessage.mem_keys range]
      omega
    rw [changed.1, Finds, changed.2]
    exact present_iff sound ordered rec stored (by rw [place]; rfl)
      (Entry.barrier_eq_none.mpr (by rw [type]; decide)) (by rw [type]; decide) mem

/-- A worker's statement, given that a SCAN about to read agrees with the one-by-one execution. A READ and a WRITE
need no such condition: the keys they touch are as the one-by-one execution has them, since the conflicting requests
before are done and the ones behind have not begun. -/
theorem Work.replayed (h : Work cfg s p s') (requests : ∀ m ∈ cfg.requests, m.IsRequest)
    (uniform : cfg.storage.Uniform cfg.compresser) (sound : Sound cfg s) (ordered : Ordered s)
    (rec : Recorded cfg s) (stored : Stored cfg s) (replayed : Replayed cfg s)
    (agrees : Worker.Agrees cfg s.storage (s.partitions p).worker) : Replayed cfg s' := by
  have typed := (sound.accounted p).typed
  have worker := replayed.workers p
  have errors := replayed.errors p
  have message : ∀ {e : Entry}, (s.partitions p).worker.entry = some e → e.message.type ≠ .SYNC →
      cfg.requests[e.number]? = some e.message := fun hold type =>
    current_message sound hold (Entry.barrier_eq_none.mpr type)
  cases h with
  | acquire place | dequeue place | release place | elect place =>
    rw [place] at errors
    exact replayed.put [] rfl rfl True.intro errors (fun _ _ _ mem => absurd mem List.not_mem_nil)
  | arrive serial place type entered =>
    rw [place] at errors
    exact replayed.put _ rfl rfl True.intro errors (by simp)
  | @read e text place type found =>
    have hold : (s.partitions p).worker.entry = some e := by rw [place]; rfl
    have here := message hold (by rw [type]; decide)
    have own : e.message.key ∈ e.message.keys := by
      rw [ClientMessage.keys_of_not_scan (by rw [type]; decide)]
      exact List.mem_singleton.mpr rfl
    have present := present_iff sound ordered rec stored hold
      (Entry.barrier_eq_none.mpr (by rw [type]; decide)) (by rw [type]; decide) own
    have there : (met cfg e.number).Uniform cfg.compresser := Sequential.Uniform.storageBefore uniform _ _
    rw [stored.uniform.read] at found
    have same : Sequential.answer cfg.compresser (met cfg e.number) e.message = some (text, false) := by
      simp only [Sequential.answer, type, there.read]
      split at found
      · rename_i mem
        cases found
        rw [if_pos (present.mp mem)]
        rfl
      · cases found
    rw [place] at errors
    exact replayed.settle _ rfl rfl rfl here same errors (by simp)
  | @write e place type =>
    have hold : (s.partitions p).worker.entry = some e := by rw [place]; rfl
    have same : Sequential.answer cfg.compresser (met cfg e.number) e.message =
        some (e.message.args, false) := by simp only [Sequential.answer, type]
    rw [place] at errors
    exact replayed.settle _ rfl rfl rfl (message hold (by rw [type]; decide)) same errors (by simp)
  | @scan e length place type range =>
    have hold : (s.partitions p).worker.entry = some e := by rw [place]; rfl
    have isRequest := requests _ (List.mem_of_getElem? (message hold (by rw [type]; decide)))
    obtain ⟨r, hr, pos⟩ := isRequest.range
    cases range.symm.trans hr
    rw [place] at errors
    refine replayed.put _ rfl rfl ⟨by omega, rfl, fun j lt => absurd lt (Nat.not_lt_zero j)⟩
      errors (by simp)
  | @other e text place type =>
    have hold : (s.partitions p).worker.entry = some e := by rw [place]; rfl
    have isRequest := requests _ (List.mem_of_getElem? (message hold type.2.2.2))
    rcases isRequest.type with h | h | h
    · exact absurd h type.1
    · exact absurd h type.2.1
    · exact absurd h type.2.2.1
  | @key e length i values place more size =>
    rw [place] at errors worker
    exact replayed.put [] rfl rfl ⟨more, worker.2⟩ errors
      (fun _ _ _ mem => absurd mem List.not_mem_nil)
  | @scanned e length i values place last =>
    rw [place] at errors worker typed
    obtain ⟨le, rfl, all⟩ := worker
    obtain ⟨type, range⟩ := typed
    have done : i = length.toNat := by omega
    subst done
    have same := answer_found uniform type range all
    have hold : (s.partitions p).worker.entry = some e := by rw [place]; rfl
    exact replayed.settle [] rfl rfl rfl (message hold (by rw [type]; decide)) same errors (by simp)
  | @hit e length i values key value place found =>
    rw [place] at errors worker
    obtain ⟨lt, rfl, all⟩ := worker
    have finds := read_iff sound ordered rec stored place lt agrees
    rw [stored.uniform.read] at found
    split at found
    · rename_i mem
      cases found
      refine replayed.put _ rfl rfl ⟨by omega, ?_, fun j ltj => ?_⟩ errors (by simp)
      · rw [List.replicate_succ']
      · rcases Nat.lt_succ_iff_lt_or_eq.mp ltj with less | rfl
        · exact all j less
        · exact finds.mp mem
    · cases found
  | @miss e length i values key place absent =>
    rw [place] at errors worker typed
    obtain ⟨lt, -, -⟩ := worker
    obtain ⟨type, range⟩ := typed
    have finds := read_iff sound ordered rec stored place lt agrees
    rw [stored.uniform.read] at absent
    have missed : ¬ Finds cfg e i := by
      intro found
      rw [if_pos (finds.mpr found)] at absent
      cases absent
    have same := answer_missed uniform type range lt missed
    have hold : (s.partitions p).worker.entry = some e := by rw [place]; rfl
    have here := message hold (by rw [type]; decide)
    exact replayed.settle _ rfl rfl rfl here same (congrArg (· + 1) errors) (by simp)
  | @leave e q place released other =>
    rw [place] at errors typed
    have hold : (s.partitions p).worker.entry = some e := by rw [place]; rfl
    have sync : e.barrier ≠ none := fun h => Entry.barrier_eq_none.mp h typed
    have count := countWhere_finish (sound.accounted p) hold (fails cfg)
    rw [if_neg sync] at count
    exact replayed.put [] rfl rfl True.intro (errors.trans (congrArg (· + 0) count.symm))
      (fun _ _ _ mem => absurd mem List.not_mem_nil)
  | @destroy e place =>
    rw [place] at errors typed
    have hold : (s.partitions p).worker.entry = some e := by rw [place]; rfl
    have sync : e.barrier ≠ none := fun h => Entry.barrier_eq_none.mp h typed
    have count := countWhere_finish (sound.accounted p) hold (fails cfg)
    rw [if_neg sync] at count
    exact replayed.put _ rfl rfl True.intro (errors.trans (congrArg (· + 0) count.symm)) (by simp)
  | @count e text place =>
    rw [place] at errors typed worker
    have hold : (s.partitions p).worker.entry = some e := by rw [place]; rfl
    have request : e.barrier = none := Entry.barrier_eq_none.mpr typed
    have count := countWhere_finish (sound.accounted p) hold (fails cfg)
    rw [if_pos request] at count
    refine replayed.put _ rfl rfl True.intro (errors.trans count.symm) fun q k answer mem => ?_
    cases List.mem_singleton.mp mem
    exact ⟨e.message, message hold typed, worker⟩

/-- Steps of the scheduling thread. -/
theorem Replayed.of_same (replayed : Replayed cfg s) (trace : s'.trace = s.trace)
    (same : ∀ p, (s'.partitions p).worker = (s.partitions p).worker ∧
      (s'.partitions p).errorCount = (s.partitions p).errorCount ∧
      (s'.partitions p).log.take (s'.partitions p).handled = (s.partitions p).log.take (s.partitions p).handled) :
    Replayed cfg s' := by
  refine ⟨fun p => ?_, fun p => ?_, fun p k text mem => ?_⟩
  · rw [(same p).1]
    exact replayed.workers p
  · rw [(same p).1, (same p).2.1, (same p).2.2]
    exact replayed.errors p
  · rw [trace] at mem
    exact replayed.answers p k text mem

theorem Push.replayed (h : Push cfg s s') (acc : Accounted cfg s) (replayed : Replayed cfg s) : Replayed cfg s' := by
  have put : ∀ {q : Fin n} {part : Partition}, part.worker = (s.partitions q).worker →
      part.errorCount = (s.partitions q).errorCount →
      part.log.take part.handled = (s.partitions q).log.take (s.partitions q).handled →
      ∀ p, (Function.update s.partitions q part p).worker = (s.partitions p).worker ∧
        (Function.update s.partitions q part p).errorCount = (s.partitions p).errorCount ∧
        (Function.update s.partitions q part p).log.take (Function.update s.partitions q part p).handled =
          (s.partitions p).log.take (s.partitions p).handled := by
    intro q part worker errors log p
    by_cases eq : p = q
    · subst eq
      rw [Function.update_self]
      exact ⟨worker, errors, log⟩
    · rw [Function.update_of_ne eq]
      exact ⟨rfl, rfl, rfl⟩
  cases h with
  | skip => exact replayed.of_same rfl fun _ => ⟨rfl, rfl, rfl⟩
  | reserve | post => exact replayed.of_same (List.append_nil _) (put rfl rfl rfl)
  | @enqueue q e rest stage todo =>
    exact replayed.of_same (List.append_nil _)
      (put rfl rfl (List.take_append_of_le_length (acc q).bound))

/-- **Guarded runs replay the one-by-one execution.** -/
theorem via_replayed (requests : ∀ m ∈ cfg.requests, m.IsRequest) (uniform : cfg.storage.Uniform cfg.compresser)
    (run : (system cfg).Via (Agrees cfg) s) : Replayed cfg s := by
  refine run.invariant init_replayed fun s l s' via replayed agrees h => ?_
  obtain ⟨sound, ordered, rec⟩ := reachable_recorded requests via.reachable
  have stored := reachable_stored requests uniform via.reachable
  have setUp : SetUp cfg s s' → Replayed cfg s' := fun up =>
    replayed.of_same up.trace fun p => by rw [up.partitions]; exact ⟨rfl, rfl, rfl⟩
  cases l with
  | dispatch first rest => exact setUp ((dispatch_cases h).setUp requests)
  | repartition scheme order => exact setUp ((repartition_cases h).setUp s.mapping.roundRobinCounter.pos)
  | push => exact (push_cases h).replayed sound.accounted replayed
  | work p serial => exact (work_cases h).replayed requests uniform sound ordered rec stored replayed agrees

end Replay

section Undisturbed

/-- The modulo does not change the key of iteration `i` of the SCAN `e`, by the number of keys stored now and by that of
the one-by-one execution, or the keys stored now are those of that execution. -/
def KeyUndisturbed (cfg : Config n) (storage : Storage) (e : Entry) (i : Nat) : Prop :=
  (0 ≤ e.message.key + i ∧ e.message.key + i < UnorderedMap.size storage ∧
    e.message.key + i < UnorderedMap.size (met cfg e.number)) ∨ storage.keys = (met cfg e.number).keys

instance (storage : Storage) (e : Entry) (i : Nat) : Decidable (KeyUndisturbed cfg storage e i) :=
  inferInstanceAs (Decidable ((_ ∧ _ ∧ _) ∨ _))

/-- The key that a SCAN computes or reads next is undisturbed. -/
def Worker.Undisturbed (cfg : Config n) (storage : Storage) : Worker → Prop
  | .scanning e length i _ => (i : Int) < length → KeyUndisturbed cfg storage e i
  | .reading e _ i _ _ => KeyUndisturbed cfg storage e i
  | _ => True

/-- The condition on the steps of a run: the keys of SCANs are undisturbed. -/
def Undisturbed (cfg : Config n) (s : State n) : Label n → Prop
  | .work p _ => Worker.Undisturbed cfg s.storage (s.partitions p).worker
  | _ => True

instance (storage : Storage) : ∀ w, Decidable (Worker.Undisturbed cfg storage w)
  | .scanning _ _ _ _ => inferInstanceAs (Decidable (_ → _))
  | .reading e _ i _ _ => inferInstanceAs (Decidable (KeyUndisturbed cfg storage e i))
  | .waiting | .popping | .releasing _ | .handling _ | .atBarrier _ | .destroying _ | .counting _ _ =>
    inferInstanceAs (Decidable True)

instance (s : State n) : ∀ l, Decidable (Undisturbed cfg s l)
  | .work p _ => inferInstanceAs (Decidable (Worker.Undisturbed cfg s.storage (s.partitions p).worker))
  | .dispatch _ _ | .repartition _ _ | .push => inferInstanceAs (Decidable True)

/-- An undisturbed key is computed as in the one-by-one execution. -/
theorem KeyUndisturbed.scanKey {storage : Storage} {e : Entry} {i : Nat} (h : KeyUndisturbed cfg storage e i)
    (int : e.message.key + i < 2 ^ 31) :
    storage.scanKey (e.message.key + i) = (met cfg e.number).scanKey (e.message.key + i) := by
  rcases h with ⟨lower, small, small'⟩ | same
  · rw [Storage.scanKey_of_lt lower int small, Storage.scanKey_of_lt lower int small']
  · have size : UnorderedMap.size storage = UnorderedMap.size (met cfg e.number) := congrArg Finset.card same
    rw [Storage.scanKey, Storage.scanKey, size]

/-- A worker about to read has computed the key of its iteration as the one-by-one execution does. -/
def Worker.Computed (cfg : Config n) : Worker → Prop
  | .reading e length i _ key => (i : Int) < length ∧ key = (met cfg e.number).scanKey (e.message.key + i)
  | _ => True

/-- The keys of a SCAN are `int`s. -/
theorem scan_int (requests : ∀ m ∈ cfg.requests, m.IsRequest) (sound : Sound cfg s) {e : Entry} {length : Int}
    (hold : (s.partitions p).worker.entry = some e) (type : e.message.type = .SCAN) (range : e.message.range = some length)
    {i : Nat} (more : (i : Int) < length) : e.message.key + i < 2 ^ 31 := by
  have here := current_message sound hold (Entry.barrier_eq_none.mpr (by rw [type]; decide))
  have upper := (requests _ (List.mem_of_getElem? here)).upper length range
  omega

theorem Work.computed (h : Work cfg s p s') (requests : ∀ m ∈ cfg.requests, m.IsRequest) (sound : Sound cfg s)
    (undisturbed : Worker.Undisturbed cfg s.storage (s.partitions p).worker)
    (computed : ∀ q, Worker.Computed cfg (s.partitions q).worker) (q : Fin n) :
    Worker.Computed cfg (s'.partitions q).worker := by
  by_cases eq : q = p
  · subst eq
    have typed := (sound.accounted q).typed
    cases h with
    | @key e length i values place more size =>
      rw [place] at typed undisturbed
      have int := scan_int requests sound (p := q) (by rw [place]; rfl) typed.1 typed.2 more
      rw [put_partitions, Function.update_self]
      exact ⟨more, (undisturbed more).scanKey int⟩
    | _ =>
      simp only [put_partitions, Function.update_self]
      exact True.intro
  · rw [h.others eq]
    exact computed q

theorem computed_step {l : Label n} (requests : ∀ m ∈ cfg.requests, m.IsRequest) (sound : Sound cfg s)
    (undisturbed : Undisturbed cfg s l) (computed : ∀ q, Worker.Computed cfg (s.partitions q).worker)
    (h : step cfg s l = some s') (q : Fin n) : Worker.Computed cfg (s'.partitions q).worker := by
  cases l with
  | dispatch first rest =>
    rw [((dispatch_cases h).setUp requests).partitions]
    exact computed q
  | repartition scheme order =>
    have setUp : SetUp cfg s s' := (repartition_cases h).setUp s.mapping.roundRobinCounter.pos
    rw [setUp.partitions]
    exact computed q
  | push =>
    cases push_cases h with
    | skip => exact computed q
    | @reserve r | @enqueue r | @post r =>
      by_cases eq : q = r
      · subst eq
        simpa using computed q
      · simpa [eq] using computed q
  | work p serial => exact (work_cases h).computed requests sound undisturbed computed q

/-- An undisturbed read agrees with the one-by-one execution. -/
theorem Worker.Undisturbed.agrees (requests : ∀ m ∈ cfg.requests, m.IsRequest) (sound : Sound cfg s)
    (h : Worker.Undisturbed cfg s.storage (s.partitions p).worker)
    (computed : Worker.Computed cfg (s.partitions p).worker) :
    Worker.Agrees cfg s.storage (s.partitions p).worker := by
  have typed := (sound.accounted p).typed
  cases place : (s.partitions p).worker with
  | reading e length i values key =>
    rw [place] at typed h computed
    obtain ⟨more, rfl⟩ := computed
    have int := scan_int requests sound (p := p) (by rw [place]; rfl) typed.1 typed.2 more
    intro changed
    rcases h with ⟨lower, -, small⟩ | same
    · exact absurd (Storage.scanKey_of_lt lower int small) (changed.elim id id)
    · rw [← Finmap.mem_keys, same, Finmap.mem_keys]
  | _ => exact True.intro

/-- **The reads of undisturbed runs** agree with the one-by-one execution. -/
theorem undisturbed_via (requests : ∀ m ∈ cfg.requests, m.IsRequest) (run : (system cfg).Via (Undisturbed cfg) s) :
    (system cfg).Via (Agrees cfg) s := by
  suffices (system cfg).Via (Agrees cfg) s ∧ ∀ q, Worker.Computed cfg (s.partitions q).worker from this.1
  refine run.invariant (P := fun s => (system cfg).Via (Agrees cfg) s ∧ ∀ q, Worker.Computed cfg (s.partitions q).worker)
    ⟨System.Via.init, fun _ => True.intro⟩ ?_
  intro s l s' via ⟨agreed, computed⟩ undisturbed h
  have sound := reachable_sound requests via.reachable
  refine ⟨agreed.step ?_ h, computed_step requests sound undisturbed computed h⟩
  cases l with
  | work p serial => exact Worker.Undisturbed.agrees requests sound undisturbed (computed p)
  | dispatch | repartition | push => exact True.intro

end Undisturbed

section Complete

/-- Request `k` has been answered with `text`. -/
def Answered (s : State n) (k : Nat) (text : List Char) : Prop :=
  ∃ p, .finish p k text ∈ s.trace

/-- The run comes to the outcome of a one-by-one execution. -/
structure ComesTo (s : State n) (outcome : Sequential.Outcome) : Prop where
  answers : ∀ k text, Answered s k text ↔ outcome.answers[k]? = some text
  errors : ∑ p, (s.partitions p).errorCount = outcome.errors
  storage : s.storage = outcome.storage

/-- No worker has an error still to count. -/
theorem Counted.failing (counted : Counted cfg s) (sound : Sound cfg s) (p : Fin n) :
    Worker.failing cfg (s.partitions p).worker = 0 := by
  have typed := (sound.accounted p).typed
  cases place : (s.partitions p).worker with
  | counting e text =>
    rw [place] at typed
    exact absurd (counted.hand sound (by rw [place]; rfl)) typed
  | _ => rfl

/-- **The counters tell the outcome**: once they add up to all requests, a guarded run has come to the
outcome of the one-by-one execution. -/
theorem Counted.comesTo (counted : Counted cfg s) (requests : ∀ m ∈ cfg.requests, m.IsRequest)
    (uniform : cfg.storage.Uniform cfg.compresser) (run : (system cfg).Via (Agrees cfg) s) : ∃ outcome,
      Sequential.execute cfg.compresser cfg.storage cfg.requests = some outcome ∧ ComesTo s outcome := by
  obtain ⟨sound, ordered, rec⟩ := reachable_recorded requests run.reachable
  have stored := reachable_stored requests uniform run.reachable
  have replayed := via_replayed requests uniform run
  have finished : ∀ k, k < cfg.requests.length → ∃ p text, .finish p k text ∈ s.trace := by
    intro k lt
    obtain ⟨p, done⟩ := counted.done sound lt
    exact ⟨p, (rec.finished p k).mpr done⟩
  have answers : ∀ k m, cfg.requests[k]? = some m → (Sequential.answer cfg.compresser (met cfg k) m).isSome := by
    intro k m hm
    obtain ⟨p, text, mem⟩ := finished k (List.getElem?_eq_some_iff.mp hm).1
    obtain ⟨m', hm', same⟩ := replayed.answers p k text mem
    cases hm.symm.trans hm'
    exact Option.isSome_of_eq_some same
  obtain ⟨outcome, execute, storage, errors, length, each⟩ := Sequential.execute_spec answers
  refine ⟨outcome, execute, fun k text => ⟨?_, fun here => ?_⟩, ?_, ?_⟩
  · rintro ⟨p, mem⟩
    obtain ⟨m, hm, same⟩ := replayed.answers p k text mem
    obtain ⟨text', failed, same', here⟩ := each k m hm
    cases same.symm.trans same'
    exact here
  · obtain ⟨p, text', mem⟩ := finished k (length ▸ (List.getElem?_eq_some_iff.mp here).1)
    obtain ⟨m, hm, same⟩ := replayed.answers p k text' mem
    obtain ⟨text'', failed, same', here'⟩ := each k m hm
    cases same.symm.trans same'
    cases here.symm.trans here'
    exact ⟨p, mem⟩
  · rw [errors, ← counted.dispatched sound]
    refine Eq.trans ?_ (sound.planned.total (fails cfg))
    refine Finset.sum_congr rfl fun p _ => ?_
    rw [replayed.errors p, counted.handled sound, counted.failing sound, Nat.add_zero]
  · rw [storage]
    have there := Sequential.Uniform.storageBefore uniform cfg.requests cfg.requests.length
    refine stored.uniform.ext there fun x => ?_
    rw [stored.keys, Sequential.mem_storageBefore]
    refine or_congr_right ⟨?_, ?_⟩
    · rintro ⟨k, -, r, hr, write⟩
      exact ⟨k, (List.getElem?_eq_some_iff.mp hr).1, r, hr, write⟩
    · rintro ⟨k, lt, r, hr, write⟩
      obtain ⟨p, done⟩ := counted.done sound lt
      exact ⟨k, mem_started.mpr ⟨p, (rec.started p k).mpr (Or.inl done)⟩, r, hr, write⟩

/-- A complete guarded run comes to the outcome of the one-by-one execution. -/
theorem complete_comesTo (requests : ∀ m ∈ cfg.requests, m.IsRequest)
    (uniform : cfg.storage.Uniform cfg.compresser) (run : (system cfg).Via (Agrees cfg) s)
    (complete : Complete cfg s) : ∃ outcome,
      Sequential.execute cfg.compresser cfg.storage cfg.requests = some outcome ∧ ComesTo s outcome := by
  have sound := reachable_sound requests run.reachable
  have counted : Counted cfg s := (complete.toQuiescent.executed sound).trans complete.all
  exact counted.comesTo requests uniform run

/-- **Replica determinism, where the modulo does no harm.** Take two complete runs of the same READ, WRITE and SCAN
requests on the same populated storage, over any partitions, queues, mappings, repartitions and interleavings of the
workers. If, whenever `Storage::scan` computes or reads the key `start+i`, that key is below the number of stored keys,
in this run and in the one-by-one execution, or the stored keys are the same in both, then both runs come to the
outcome of that execution: the same answers, the same `error_count_` and the same final storage. -/
theorem replica_determinism {n m : Nat} (cfg : Config n) (cfg' : Config m) (ks : List Int)
    (requests : ∀ r ∈ cfg.requests, r.IsRequest) (populated : cfg.storage = Storage.populated cfg.compresser ks)
    (same : cfg'.requests = cfg.requests ∧ cfg'.compresser = cfg.compresser ∧ cfg'.storage = cfg.storage)
    {s : State n} {s' : State m} (run : (system cfg).Via (Undisturbed cfg) s)
    (run' : (system cfg').Via (Undisturbed cfg') s') (complete : Complete cfg s) (complete' : Complete cfg' s') :
    ∃ outcome, Sequential.execute cfg.compresser cfg.storage cfg.requests = some outcome ∧
      ComesTo s outcome ∧ ComesTo s' outcome := by
  obtain ⟨sameRequests, sameCompresser, sameStorage⟩ := same
  have uniform : cfg.storage.Uniform cfg.compresser := populated ▸ (Storage.populated_spec ks).1
  have requests' : ∀ r ∈ cfg'.requests, r.IsRequest := by rwa [sameRequests]
  obtain ⟨outcome, execute, comes⟩ := complete_comesTo requests uniform (undisturbed_via requests run) complete
  obtain ⟨outcome', execute', comes'⟩ := complete_comesTo requests' (by rwa [sameStorage, sameCompresser])
    (undisturbed_via requests' run') complete'
  rw [sameRequests, sameCompresser, sameStorage, execute] at execute'
  cases execute'
  exact ⟨outcome, execute, comes, comes'⟩

theorem replica_determinism_cross : ∃ outcome,
    Sequential.execute crossConfig.compresser crossConfig.storage crossConfig.requests = some outcome ∧
      ∃ s, (system crossConfig).Via (Undisturbed crossConfig) s ∧ ComesTo s outcome := by
  obtain ⟨s, run, complete⟩ := System.exists_via (M := system crossConfig) (Undisturbed crossConfig)
    (P := fun s => Quiescent s ∧ s.dispatched = crossConfig.requests.length) crossRun (by decide +kernel)
  have done : Complete crossConfig s := ⟨complete.1, complete.2⟩
  obtain ⟨outcome, execute, comes, -⟩ := replica_determinism crossConfig crossConfig [0, 1] (by decide) rfl
    ⟨rfl, rfl, rfl⟩ run run done done
  exact ⟨outcome, execute, s, run, comes⟩

/-- Two partitions, key 0 stored, a WRITE of the new key 5 and a SCAN of key 1 alone. -/
def sizeConfig : Config 2 where
  capacity := 0
  compresser := ⟨id, some⟩
  storage := Storage.populated ⟨id, some⟩ [0]
  mapping := ⟨Finmap.insert 0 0 ∅, 1⟩
  requests := [{ key := 5, type := .WRITE }, { key := 1, type := .SCAN, args := ['1'] }]

/-- The two requests go to different partitions; `labels` are the steps of the workers. -/
def sizeRun (labels : List (Label 2)) : List (Label 2) :=
  [.dispatch 1 []] ++ List.replicate 3 .push ++ [.dispatch 0 []] ++ List.replicate 3 .push ++ labels

/-- Two complete runs of `sizeConfig`: the SCAN reads key `1 % 2 = 1` and fails if the WRITE has been executed,
and reads key `1 % 1 = 0` and succeeds if it has not. -/
theorem scan_reads_live_size : ∃ s s', (system sizeConfig).Reachable s ∧ Complete sizeConfig s ∧
    (system sizeConfig).Reachable s' ∧ Complete sizeConfig s' ∧
    (∀ r ∈ sizeConfig.requests, r.IsRequest) ∧ Answered s 1 errorAnswer ∧ ¬ Answered s' 1 errorAnswer ∧
    ∑ p, (s.partitions p).errorCount = 1 ∧ ∑ p, (s'.partitions p).errorCount = 0 := by
  obtain ⟨s, reach, quiet, all, mem, errors⟩ := System.exists_reachable (M := system sizeConfig)
    (P := fun s => Quiescent s ∧ s.dispatched = 2 ∧ .finish 0 1 errorAnswer ∈ s.trace ∧
      ∑ p, (s.partitions p).errorCount = 1)
    (sizeRun (List.replicate 5 (.work 1 0) ++ List.replicate 7 (.work 0 0))) (by decide +kernel)
  obtain ⟨s', reach', quiet', all', mem', errors'⟩ := System.exists_reachable (M := system sizeConfig)
    (P := fun s => Quiescent s ∧ s.dispatched = 2 ∧ (∀ p, .finish p 1 errorAnswer ∉ s.trace) ∧
      ∑ p, (s.partitions p).errorCount = 0)
    (sizeRun (List.replicate 8 (.work 0 0) ++ List.replicate 5 (.work 1 0))) (by decide +kernel)
  exact ⟨s, s', reach, ⟨quiet, all⟩, reach', ⟨quiet', all'⟩, by decide, ⟨0, mem⟩,
    fun ⟨p, h⟩ => mem' p h, errors, errors'⟩

end Complete

end KvPaxos.Pool
