import KvPaxos.Scheduler.Pool

/-!
# What a step of the pool can do

The step functions of `Pool` turned into their cases, once: `Work` for a worker, `Push`
for the scheduling thread inside `push_request`, `Dispatch` and `Repartition` for the two ways
new calls come up. Every later proof about the pool is by cases on these.
-/

namespace KvPaxos

namespace Worker

/-- The message the worker holds. -/
def entry : Worker → Option Entry
  | .waiting | .popping => none
  | .releasing e | .handling e | .scanning e _ _ _ | .reading e _ _ _ _ | .atBarrier e
  | .destroying e | .counting e _ => some e

/-- The item token the worker has taken but not used. -/
def token : Worker → Nat
  | .popping => 1
  | _ => 0

/-- The place of a popped message that has not been given back. -/
def space : Worker → Nat
  | .releasing _ => 1
  | _ => 0

/-- The barrier the worker is at. -/
def barrier : Worker → Option Nat
  | .atBarrier e | .destroying e => some e.message.sAddr
  | _ => none

/-- The request the worker is executing. -/
def running : Worker → Option Entry
  | .scanning e _ _ _ | .reading e _ _ _ _ | .counting e _ => some e
  | _ => none

end Worker

namespace Pool

variable {n : Nat} {cfg : Config n} {s s' : State n} {p : Fin n}

/-- What the next statement of worker `p` does, by the place it leaves. -/
inductive Work (cfg : Config n) (s : State n) (p : Fin n) : State n → Prop
  | acquire (place : (s.partitions p).worker = .waiting) (token : 0 < (s.partitions p).semaphore) :
      Work cfg s p (s.put p { s.partitions p with
        semaphore := (s.partitions p).semaphore - 1, worker := .popping } [])
  | dequeue {e : Entry} {rest : List Entry} (place : (s.partitions p).worker = .popping)
      (front : (s.partitions p).requestsQueue = e :: rest) :
      Work cfg s p (s.put p { s.partitions p with requestsQueue := rest, worker := .releasing e } [])
  | release {e : Entry} (place : (s.partitions p).worker = .releasing e) :
      Work cfg s p (s.put p { s.partitions p with
        remainingSpace := if 0 < cfg.capacity then (s.partitions p).remainingSpace + 1
          else (s.partitions p).remainingSpace
        worker := .handling e } [])
  | read {e : Entry} {answer : List Char} (place : (s.partitions p).worker = .handling e)
      (type : e.message.type = .READ)
      (found : s.storage.read cfg.compresser e.message.key = some answer) :
      Work cfg s p (s.put p { s.partitions p with worker := .counting e answer } [.start p e.number])
  | write {e : Entry} (place : (s.partitions p).worker = .handling e) (type : e.message.type = .WRITE) :
      Work cfg s p { s.put p { s.partitions p with worker := .counting e e.message.args }
          [.start p e.number, .write p e.number] with
        storage := s.storage.write cfg.compresser e.message.key e.message.args }
  | scan {e : Entry} {length : Int} (place : (s.partitions p).worker = .handling e)
      (type : e.message.type = .SCAN) (range : e.message.range = some length) :
      Work cfg s p (s.put p { s.partitions p with worker := .scanning e length 0 [] } [.start p e.number])
  | arrive {e : Entry} {bar : Barrier n} (serial : Fin n) (place : (s.partitions p).worker = .handling e)
      (type : e.message.type = .SYNC)
      (entered : arrive (s.barriers e.message.sAddr) p serial = some bar) :
      Work cfg s p { s.put p { s.partitions p with worker := .atBarrier e } [.wait p e.message.sAddr] with
        barriers := Function.update s.barriers e.message.sAddr bar }
  | other {e : Entry} {answer : List Char} (place : (s.partitions p).worker = .handling e)
      (type : e.message.type ≠ .READ ∧ e.message.type ≠ .WRITE ∧ e.message.type ≠ .SCAN ∧
        e.message.type ≠ .SYNC) :
      Work cfg s p (s.put p { s.partitions p with worker := .counting e answer } [.start p e.number])
  | key {e : Entry} {length : Int} {i : Nat} {values : List (List Char)}
      (place : (s.partitions p).worker = .scanning e length i values) (more : (i : Int) < length)
      (stored : Lib.UnorderedMap.size s.storage ≠ 0) :
      Work cfg s p (s.put p { s.partitions p with
        worker := .reading e length i values (s.storage.scanKey (e.message.key + i)) } [])
  | scanned {e : Entry} {length : Int} {i : Nat} {values : List (List Char)}
      (place : (s.partitions p).worker = .scanning e length i values) (last : ¬ (i : Int) < length) :
      Work cfg s p (s.put p { s.partitions p with worker := .counting e (joinValues values) } [])
  | hit {e : Entry} {length : Int} {i : Nat} {values : List (List Char)} {key : Int} {value : List Char}
      (place : (s.partitions p).worker = .reading e length i values key)
      (found : s.storage.read cfg.compresser key = some value) :
      Work cfg s p (s.put p { s.partitions p with worker := .scanning e length (i + 1) (values ++ [value]) }
        [.lookup p e.number key])
  | miss {e : Entry} {length : Int} {i : Nat} {values : List (List Char)} {key : Int}
      (place : (s.partitions p).worker = .reading e length i values key)
      (absent : s.storage.read cfg.compresser key = none) :
      Work cfg s p (s.put p { s.partitions p with
        worker := .counting e errorAnswer, errorCount := (s.partitions p).errorCount + 1 }
        [.lookup p e.number key, .error p e.number])
  | leave {e : Entry} {q : Fin n} (place : (s.partitions p).worker = .atBarrier e)
      (released : (s.barriers e.message.sAddr).serial = some q) (other : q ≠ p) :
      Work cfg s p (s.put p { s.partitions p with
        worker := .waiting, handled := (s.partitions p).handled + 1 } [])
  | elect {e : Entry} (place : (s.partitions p).worker = .atBarrier e)
      (released : (s.barriers e.message.sAddr).serial = some p) :
      Work cfg s p (s.put p { s.partitions p with worker := .destroying e } [])
  | destroy {e : Entry} (place : (s.partitions p).worker = .destroying e) :
      Work cfg s p { s.put p { s.partitions p with
          worker := .waiting, handled := (s.partitions p).handled + 1 } [.destroy p e.message.sAddr] with
        barriers := Function.update s.barriers e.message.sAddr { s.barriers e.message.sAddr with
          destroyed := (s.barriers e.message.sAddr).destroyed + 1 } }
  | count {e : Entry} {answer : List Char} (place : (s.partitions p).worker = .counting e answer) :
      Work cfg s p (s.put p { s.partitions p with
        worker := .waiting
        nExecutedRequests := (s.partitions p).nExecutedRequests + 1
        handled := (s.partitions p).handled + 1 } [.finish p e.number answer])

theorem handle_cases {e : Entry} {serial : Fin n} (place : (s.partitions p).worker = .handling e)
    (h : handle cfg.compresser s p serial (s.partitions p) e = some s') : Work cfg s p s' := by
  unfold handle at h
  split at h
  · rename_i type
    obtain ⟨answer, found, rfl⟩ := Option.map_eq_some_iff.mp h
    exact .read place type found
  · rename_i type
    cases h
    exact .write place type
  · rename_i type
    obtain ⟨length, range, rfl⟩ := Option.map_eq_some_iff.mp h
    exact .scan place type range
  · rename_i type
    obtain ⟨bar, entered, rfl⟩ := Option.map_eq_some_iff.mp h
    exact .arrive serial place type entered
  · rename_i type
    cases h
    exact .other place (by rw [type]; decide)
  · cases h
    exact .other place ⟨by assumption, by assumption, by assumption, by assumption⟩

/-- A worker's step is one of the cases. -/
theorem work_cases {serial : Fin n} (h : work cfg s p serial = some s') : Work cfg s p s' := by
  unfold work at h
  cases place : (s.partitions p).worker with
  | waiting =>
    simp only [place] at h
    split at h
    · cases h
      exact .acquire place ‹_›
    · cases h
  | popping =>
    simp only [place] at h
    split at h
    · cases h
    · rename_i front
      cases h
      exact .dequeue place front
  | releasing e =>
    simp only [place] at h
    cases h
    exact .release place
  | handling e =>
    simp only [place] at h
    exact handle_cases place h
  | scanning e length i values =>
    simp only [place] at h
    split at h
    · split at h
      · cases h
      · cases h
        exact .key place ‹_› ‹_›
    · cases h
      exact .scanned place ‹_›
  | reading e length i values key =>
    simp only [place] at h
    split at h
    · rename_i found
      cases h
      exact .hit place found
    · rename_i absent
      cases h
      exact .miss place absent
  | atBarrier e =>
    simp only [place] at h
    obtain ⟨q, released, h⟩ := Option.map_eq_some_iff.mp h
    split at h
    · rename_i same
      subst same h
      exact .elect place released
    · rename_i other
      subst h
      exact .leave place released other
  | destroying e =>
    simp only [place] at h
    cases h
    exact .destroy place
  | counting e answer =>
    simp only [place] at h
    cases h
    exact .count place

/-- What the next statement of the scheduling thread in `push_request` does. -/
inductive Push (cfg : Config n) (s : State n) : State n → Prop
  | skip {call : Fin n × Entry} {rest : List (Fin n × Entry)} (stage : s.stage = .ready)
      (todo : s.todo = call :: rest) (unbounded : cfg.capacity = 0) :
      Push cfg s { s with stage := .reserved }
  | reserve {p : Fin n} {e : Entry} {rest : List (Fin n × Entry)} (stage : s.stage = .ready)
      (todo : s.todo = (p, e) :: rest) (bounded : cfg.capacity ≠ 0)
      (free : 0 < (s.partitions p).remainingSpace) :
      Push cfg s { s.put p { s.partitions p with
        remainingSpace := (s.partitions p).remainingSpace - 1 } [] with stage := .reserved }
  | enqueue {p : Fin n} {e : Entry} {rest : List (Fin n × Entry)} (stage : s.stage = .reserved)
      (todo : s.todo = (p, e) :: rest) :
      Push cfg s { s.put p { s.partitions p with
          requestsQueue := (s.partitions p).requestsQueue ++ [e]
          log := (s.partitions p).log ++ [e] } [] with
        todo := rest, stage := .posting p }
  | post {p : Fin n} (stage : s.stage = .posting p) :
      Push cfg s { s.put p { s.partitions p with
        semaphore := semPost (some SEM_VALUE_MAX) (s.partitions p).semaphore } [] with stage := .ready }

theorem push_cases (h : push cfg s = some s') : Push cfg s s' := by
  unfold push at h
  split at h
  · rename_i stage todo
    dsimp only at h
    split at h
    · cases h
      exact .skip stage todo ‹_›
    · split at h
      · cases h
        exact .reserve stage todo ‹_› ‹_›
      · cases h
  · rename_i stage todo
    cases h
    exact .enqueue stage todo
  · rename_i stage
    cases h
    exact .post stage
  · cases h

/-- What a `dispatch` of the request `cfg.requests[s.dispatched]` sets up. -/
inductive Dispatch (cfg : Config n) (s : State n) (first : Fin n) (rest : List (Fin n)) : State n → Prop
  | mk {request : ClientMessage} {mapping : Mapping n} {partitions : Finset (Fin n)}
      (stage : s.stage = .ready) (todo : s.todo = [])
      (next : cfg.requests[s.dispatched]? = some request)
      (involved : s.mapping.involvedPartitions request = some (mapping, partitions))
      (nodup : (first :: rest).Nodup) (listing : (first :: rest).toFinset = partitions) :
      Dispatch cfg s first rest { s with
        mapping := mapping
        crossPartitionCount := s.crossPartitionCount + if rest = [] then 0 else 1
        dispatched := s.dispatched + 1
        issue := s.issue + 3
        todo := dispatchCalls s.syncCounter s.issue s.dispatched request first rest
        barriers := if rest = [] then s.barriers
          else Function.update (Function.update s.barriers s.issue (Barrier.create (first :: rest)))
            (s.issue + 2) (Barrier.create (first :: rest)) }

theorem dispatch_cases {first : Fin n} {rest : List (Fin n)} (h : dispatch cfg s first rest = some s') :
    Dispatch cfg s first rest s' := by
  unfold dispatch at h
  split at h
  · rename_i request stage todo next
    obtain ⟨⟨mapping, partitions⟩, involved, h⟩ := Option.bind_eq_some_iff.mp h
    dsimp only at h
    split at h
    · rename_i order
      cases h
      exact .mk stage todo next involved order.1 order.2
    · cases h
  · cases h

/-- What a repartition sets up. -/
inductive Repartition (s : State n) (scheme : Lib.UnorderedMap Int (Fin n)) (order : List (Fin n)) :
    State n → Prop
  | mk (stage : s.stage = .ready) (todo : s.todo = []) (nodup : order.Nodup)
      (listing : order.toFinset = Finset.univ) :
      Repartition s scheme order { s with
        mapping := { s.mapping with dataToPartition := scheme }
        issue := s.issue + 3
        todo := syncPartitions s.syncCounter s.issue s.dispatched order
        barriers := Function.update s.barriers s.issue (Barrier.create order) }

theorem repartition_cases {scheme : Lib.UnorderedMap Int (Fin n)} {order : List (Fin n)}
    (h : repartition s scheme order = some s') : Repartition s scheme order s' := by
  unfold repartition at h
  split at h
  · rename_i stage todo
    split at h
    · rename_i listing
      cases h
      exact .mk stage todo listing.1 listing.2
    · cases h
  · cases h

section Fields

variable (s : State n) (p : Fin n) (part : Partition) (events : List (Event n))

@[simp] theorem put_partitions :
    (s.put p part events).partitions = Function.update s.partitions p part := rfl
@[simp] theorem put_trace : (s.put p part events).trace = s.trace ++ events := rfl
@[simp] theorem put_todo : (s.put p part events).todo = s.todo := rfl
@[simp] theorem put_stage : (s.put p part events).stage = s.stage := rfl
@[simp] theorem put_barriers : (s.put p part events).barriers = s.barriers := rfl
@[simp] theorem put_storage : (s.put p part events).storage = s.storage := rfl
@[simp] theorem put_mapping : (s.put p part events).mapping = s.mapping := rfl
@[simp] theorem put_dispatched : (s.put p part events).dispatched = s.dispatched := rfl
@[simp] theorem put_issue : (s.put p part events).issue = s.issue := rfl

end Fields

/-- A worker's step leaves everything that belongs to the scheduling thread. -/
structure SameCalls (s s' : State n) : Prop where
  mapping : s'.mapping = s.mapping
  dispatched : s'.dispatched = s.dispatched
  issue : s'.issue = s.issue
  todo : s'.todo = s.todo
  stage : s'.stage = s.stage

theorem Work.sameCalls (h : Work cfg s p s') : SameCalls s s' := by
  cases h <;> exact ⟨rfl, rfl, rfl, rfl, rfl⟩

theorem Push.dispatched_eq (h : Push cfg s s') : s'.dispatched = s.dispatched := by
  cases h <;> rfl

/-- A worker's step leaves the other partitions. -/
theorem Work.others (h : Work cfg s p s') {q : Fin n} (ne : q ≠ p) : s'.partitions q = s.partitions q := by
  cases h <;> exact Function.update_of_ne ne _ _

theorem Work.log (h : Work cfg s p s') (q : Fin n) : (s'.partitions q).log = (s.partitions q).log := by
  by_cases ne : q = p
  · subst ne
    cases h <;> simp
  · rw [h.others ne]

end Pool

end KvPaxos
