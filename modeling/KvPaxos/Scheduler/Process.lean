import KvPaxos.Scheduler.Settled
import KvPaxos.Scheduler.WorkloadGraph

/-!
# One replica process

The scheduler's own threads beside the partition workers. `StopTheWorld` and `FreeScheduler` leave out
the `push_request` calls, and `Pool` takes the requests and the repartitions as they come; here the two
are one process. A `Frontend` is a system of scheduler threads that says of each statement what it asks
of the partitions (`Call`), which map `dispatch` looks keys up in (`live`) and which submitted messages
the scheduling thread has still to take (`backlog`). Its fields carry the laws of such a scheduler, so
that there is no frontend without them. While the calls of a `dispatch` or a `sync_all_partitions` are
under way, the scheduling thread has no other statement to make, and all other threads go on.

`submitted` and `taken` are ghosts: the messages passed to `submit`, and those the scheduling thread has
taken, END included.
-/

namespace KvPaxos

open Lib

/-- What a statement of the scheduler's threads asks of the partitions. -/
inductive Call where
  /-- A statement of another thread than the scheduling thread. -/
  | aside
  /-- A statement of the scheduling thread that pushes nothing. -/
  | quiet
  /-- `dispatch(message)`. -/
  | dispatch (message : ClientMessage)
  /-- The exit of `scheduling_loop` on END. -/
  | stop (message : ClientMessage)
  /-- `sync_all_partitions()`. -/
  | syncAll

/-- The message the scheduling thread is done with. -/
def Call.taken : Call → List ClientMessage
  | .dispatch message | .stop message => [message]
  | .aside | .quiet | .syncAll => []

/-- What clients submit: READ, WRITE and SCAN requests, and `workload_loop` its END message. -/
def ClientMessage.IsClient (m : ClientMessage) : Prop := m.IsRequest ∨ m.type = .END

instance (m : ClientMessage) : Decidable m.IsClient := inferInstanceAs (Decidable (_ ∨ _))

theorem ClientMessage.IsClient.range {m : ClientMessage} (h : m.IsClient) : ∃ length, m.range = some length ∧ 1 ≤ length := by
  rcases h with request | type
  · obtain ⟨length, range, pos⟩ := request.range
    exact ⟨length, range, pos⟩
  · exact ⟨1, by simp [ClientMessage.range, type], Int.le_refl 1⟩

theorem ClientMessage.IsClient.countable {m : ClientMessage} (h : m.IsClient) : m.Countable := by
  obtain ⟨length, range, pos⟩ := h.range
  exact ⟨length, range, by omega⟩

/-- The threads of a scheduler, without its workers. -/
structure Threads (σ ℓ : Type) (n : Nat) where
  system : System σ ℓ
  submits : ℓ → Option ClientMessage
  call : σ → ℓ → Call
  /-- `*data_to_partition_` and `round_robin_counter_`. -/
  live : σ → Option (Mapping n)
  /-- The map has been replaced, and `sync_all_partitions` is still to come. -/
  due : σ → Bool
  backlog : σ → List ClientMessage
  start : Mapping n

namespace Threads

variable {σ ℓ : Type} {n : Nat}

/-- What is submitted comes from clients. -/
def FromClients (F : Threads σ ℓ n) (_ : σ) (l : ℓ) : Prop := ∀ m ∈ F.submits l, m.IsClient

/-- The map stays, or its replacement is on the way. -/
def Kept (F : Threads σ ℓ n) (f f' : σ) : Prop :=
  ∃ m m', F.live f = some m ∧ F.live f' = some m' ∧ m'.roundRobinCounter = m.roundRobinCounter ∧
    (F.due f' = false → F.due f = false ∧ m' = m)

/-- What a step asks of the partitions, and what it does to the map: `dispatch` looks keys up in it and
maps the new ones, and `sync_all_partitions` comes after a new one. -/
inductive Asks (F : Threads σ ℓ n) (f f' : σ) : Call → Prop
  | aside (kept : F.Kept f f') : Asks F f f' .aside
  | quiet (kept : F.Kept f f') : Asks F f f' .quiet
  | stop {message : ClientMessage} (kept : F.Kept f f') (type : message.type = .END) : Asks F f f' (.stop message)
  | dispatch {message : ClientMessage} {m m' : Mapping n} {partitions : Finset (Fin n)} (type : message.type ≠ .END)
      (settled : F.due f = false) (before : F.live f = some m) (after : F.live f' = some m')
      (involved : m.involvedPartitions message = some (m', partitions)) : Asks F f f' (.dispatch message)
  | syncAll {m m' : Mapping n} (before : F.live f = some m) (after : F.live f' = some m')
      (counter : m'.roundRobinCounter = m.roundRobinCounter) : Asks F f f' .syncAll

theorem Asks.dispatched {F : Threads σ ℓ n} {f f' : σ} {message : ClientMessage} (h : F.Asks f f' (.dispatch message)) :
    message.type ≠ .END ∧ F.due f = false ∧ ∃ m m' partitions, F.live f = some m ∧ F.live f' = some m' ∧
      m.involvedPartitions message = some (m', partitions) := by
  cases h with
  | dispatch type settled before after involved => exact ⟨type, settled, _, _, _, before, after, involved⟩

theorem Asks.stopped {F : Threads σ ℓ n} {f f' : σ} {message : ClientMessage} (h : F.Asks f f' (.stop message)) :
    message.type = .END := by
  cases h with
  | stop kept type => exact type

theorem Asks.synced {F : Threads σ ℓ n} {f f' : σ} (h : F.Asks f f' .syncAll) :
    ∃ m m', F.live f = some m ∧ F.live f' = some m' ∧ m'.roundRobinCounter = m.roundRobinCounter := by
  cases h with
  | syncAll before after counter => exact ⟨_, _, before, after, counter⟩

theorem Asks.kept {F : Threads σ ℓ n} {f f' : σ} {asked : Call} (h : F.Asks f f' asked)
    (noDispatch : ∀ message, asked ≠ .dispatch message) (noSync : asked ≠ .syncAll) : F.Kept f f' := by
  cases h with
  | aside kept | quiet kept | stop kept => exact kept
  | dispatch => exact absurd rfl (noDispatch _)
  | syncAll => exact absurd rfl noSync

end Threads

/-- Threads that take the messages in the order they were submitted, and treat the map as they should. -/
structure Frontend (σ ℓ : Type) (n : Nat) extends Threads σ ℓ n where
  live_init : live system.init = some start
  backlog_init : backlog system.init = []
  backlog_step : ∀ f l f', system.Via toThreads.FromClients f → toThreads.FromClients f l → system.step f l = some f' →
    (call f l).taken ++ backlog f' = backlog f ++ (submits l).toList
  asks : ∀ f l f', system.Via toThreads.FromClients f → toThreads.FromClients f l → system.step f l = some f' →
    toThreads.Asks f f' (call f l)

namespace Process

/-- The scheduler, the capacity of the partitions' queues, the compresser and the populated keys. -/
structure Config (σ ℓ : Type) (n : Nat) where
  frontend : Frontend σ ℓ n
  capacity : Nat
  compresser : Compresser
  populated : List Int

/-- The state of the scheduler's threads and that of the partitions. -/
structure State (σ : Type) (n : Nat) where
  front : σ
  pool : Pool.State n
  submitted : List ClientMessage := []
  taken : List ClientMessage := []

/-- A step of the scheduler's threads, where `order` lists the partitions of the set it iterates over;
or the next statement of a `push_request` or of worker `p`. -/
inductive Label (ℓ : Type) (n : Nat) where
  | front (l : ℓ) (order : List (Fin n))
  | push
  | work (p serial : Fin n)

variable {σ ℓ : Type} {n : Nat}

/-- The messages that are dispatched. -/
def requests (messages : List ClientMessage) : List ClientMessage := messages.filter fun m => m.type ≠ .END

/-- The workers as they are given the requests. -/
def Config.pool (cfg : Config σ ℓ n) (requests : List ClientMessage) : KvPaxos.Config n where
  capacity := cfg.capacity
  compresser := cfg.compresser
  storage := Storage.populated cfg.compresser cfg.populated
  mapping := cfg.frontend.start
  requests := requests

def init (cfg : Config σ ℓ n) : State σ n where
  front := cfg.frontend.system.init
  pool := Pool.init (cfg.pool [])

/-- A step of the scheduler's threads, with what it asks of the partitions. The scheduling thread makes no other
statement before its pushes are through. `dispatch` looks keys up in the live map and leaves the new ones there, and
`sync_all_partitions` finds the map that was just installed. -/
def front (cfg : Config σ ℓ n) (s : State σ n) (l : ℓ) (order : List (Fin n)) : Option (State σ n) :=
  (cfg.frontend.system.step s.front l).bind fun front =>
    let call := cfg.frontend.call s.front l
    let next := { s with
      front := front
      submitted := s.submitted ++ (cfg.frontend.submits l).toList
      taken := s.taken ++ call.taken }
    match call, order with
    | .aside, _ => some next
    | .quiet, _ | .stop _, _ => if s.pool.stage = .ready ∧ s.pool.todo = [] then some next else none
    | .dispatch _, [] => none
    | .dispatch _, first :: rest => (cfg.frontend.live s.front).bind fun mapping =>
        (Pool.dispatch (cfg.pool (requests next.taken)) { s.pool with mapping := mapping } first rest).map fun pool =>
          { next with pool := pool }
    | .syncAll, order => (cfg.frontend.live front).bind fun mapping =>
        (Pool.repartition { s.pool with mapping := mapping } mapping.dataToPartition order).map fun pool =>
          { next with pool := pool }

/-- One statement of the scheduler's threads, one of the pushes they have asked for, or one of a worker. -/
def step (cfg : Config σ ℓ n) (s : State σ n) : Label ℓ n → Option (State σ n)
  | .front l order => front cfg s l order
  | .push => (Pool.push (cfg.pool []) s.pool).map fun pool => { s with pool := pool }
  | .work p serial => (Pool.work (cfg.pool []) s.pool p serial).map fun pool => { s with pool := pool }

def system (cfg : Config σ ℓ n) : System (State σ n) (Label ℓ n) := ⟨init cfg, step cfg⟩

/-- Only client messages are submitted. -/
def FromClients (cfg : Config σ ℓ n) (s : State σ n) : Label ℓ n → Prop
  | .front l _ => cfg.frontend.FromClients s.front l
  | _ => True

instance (cfg : Config σ ℓ n) (s : State σ n) : ∀ l, Decidable (FromClients cfg s l)
  | .front l _ => inferInstanceAs (Decidable (∀ m ∈ cfg.frontend.submits l, m.IsClient))
  | .push | .work _ _ => .isTrue True.intro

/-! ### What a step can do -/

variable {cfg : Config σ ℓ n} {s s' : State σ n}

/-- A step of the process, by what it asks of the partitions. -/
inductive Move (cfg : Config σ ℓ n) (s : State σ n) : Label ℓ n → State σ n → Prop
  | aside {l : ℓ} {order : List (Fin n)} {f : σ} (step : cfg.frontend.system.step s.front l = some f)
      (call : cfg.frontend.call s.front l = .aside) :
      Move cfg s (.front l order) { s with front := f, submitted := s.submitted ++ (cfg.frontend.submits l).toList }
  | quiet {l : ℓ} {order : List (Fin n)} {f : σ} (step : cfg.frontend.system.step s.front l = some f)
      (call : cfg.frontend.call s.front l = .quiet) (ready : s.pool.stage = .ready ∧ s.pool.todo = []) :
      Move cfg s (.front l order) { s with front := f, submitted := s.submitted ++ (cfg.frontend.submits l).toList }
  | stop {l : ℓ} {order : List (Fin n)} {f : σ} {message : ClientMessage}
      (step : cfg.frontend.system.step s.front l = some f) (call : cfg.frontend.call s.front l = .stop message)
      (ready : s.pool.stage = .ready ∧ s.pool.todo = []) :
      Move cfg s (.front l order) { s with
        front := f
        submitted := s.submitted ++ (cfg.frontend.submits l).toList
        taken := s.taken ++ [message] }
  | dispatch {l : ℓ} {first : Fin n} {rest : List (Fin n)} {f : σ} {message : ClientMessage} {mapping : Mapping n}
      {pool : Pool.State n} (step : cfg.frontend.system.step s.front l = some f)
      (call : cfg.frontend.call s.front l = .dispatch message) (live : cfg.frontend.live s.front = some mapping)
      (dispatched : Pool.dispatch (cfg.pool (requests (s.taken ++ [message]))) { s.pool with mapping := mapping } first rest =
        some pool) :
      Move cfg s (.front l (first :: rest)) {
        front := f
        pool := pool
        submitted := s.submitted ++ (cfg.frontend.submits l).toList
        taken := s.taken ++ [message] }
  | syncAll {l : ℓ} {order : List (Fin n)} {f : σ} {mapping : Mapping n} {pool : Pool.State n}
      (step : cfg.frontend.system.step s.front l = some f) (call : cfg.frontend.call s.front l = .syncAll)
      (live : cfg.frontend.live f = some mapping)
      (synced : Pool.repartition { s.pool with mapping := mapping } mapping.dataToPartition order = some pool) :
      Move cfg s (.front l order) { s with
        front := f
        pool := pool
        submitted := s.submitted ++ (cfg.frontend.submits l).toList }
  | push {pool : Pool.State n} (step : Pool.push (cfg.pool []) s.pool = some pool) :
      Move cfg s .push { s with pool := pool }
  | work {p serial : Fin n} {pool : Pool.State n} (step : Pool.work (cfg.pool []) s.pool p serial = some pool) :
      Move cfg s (.work p serial) { s with pool := pool }

/-- A step by what it asks of the partitions. -/
theorem step_move {l : Label ℓ n} (h : step cfg s l = some s') : Move cfg s l s' := by
  cases l with
  | front l order =>
    obtain ⟨f, step, h⟩ := Option.bind_eq_some_iff.mp h
    dsimp only at h
    cases call : cfg.frontend.call s.front l with
    | aside =>
      simp only [call, Call.taken, List.append_nil] at h
      cases h
      exact .aside step call
    | quiet =>
      simp only [call, Call.taken, List.append_nil] at h
      obtain ⟨ready, ⟨⟩⟩ := Option.ite_none_right_eq_some.mp h
      exact .quiet step call ready
    | stop message =>
      simp only [call, Call.taken] at h
      obtain ⟨ready, ⟨⟩⟩ := Option.ite_none_right_eq_some.mp h
      exact .stop step call ready
    | dispatch message =>
      cases order with
      | nil =>
        simp only [call] at h
        cases h
      | cons first rest =>
        simp only [call, Call.taken] at h
        obtain ⟨mapping, live, h⟩ := Option.bind_eq_some_iff.mp h
        obtain ⟨pool, dispatched, rfl⟩ := Option.map_eq_some_iff.mp h
        exact .dispatch step call live dispatched
    | syncAll =>
      simp only [call, Call.taken, List.append_nil] at h
      obtain ⟨mapping, live, h⟩ := Option.bind_eq_some_iff.mp h
      obtain ⟨pool, synced, rfl⟩ := Option.map_eq_some_iff.mp h
      exact .syncAll step call live synced
  | push =>
    obtain ⟨pool, step, rfl⟩ := Option.map_eq_some_iff.mp h
    exact .push step
  | work p serial =>
    obtain ⟨pool, step, rfl⟩ := Option.map_eq_some_iff.mp h
    exact .work step

/-- What the threads keep of the messages submitted. -/
theorem via_submitted {P : σ → List ClientMessage → Prop} (init : P cfg.frontend.system.init [])
    (step : ∀ f l f' messages, P f messages → cfg.frontend.system.step f l = some f' →
      P f' (messages ++ (cfg.frontend.submits l).toList))
    (via : (system cfg).Via (FromClients cfg) s) : P s.front s.submitted := by
  refine via.invariant (P := fun s => P s.front s.submitted) init fun s l s' _ held _ stepped => ?_
  cases step_move stepped with
  | aside taken | quiet taken | stop taken | dispatch taken | syncAll taken => exact step _ _ _ _ held taken
  | push | work => exact held

/-! ### The workers run as in the pool -/

/-- `dispatch` looks at the next request only. -/
theorem dispatch_congr {c c' : KvPaxos.Config n} {t : Pool.State n} (same : c.requests[t.dispatched]? = c'.requests[t.dispatched]?)
    (first : Fin n) (rest : List (Fin n)) : Pool.dispatch c t first rest = Pool.dispatch c' t first rest := by
  unfold Pool.dispatch
  rw [same]

theorem requests_append (a b : List ClientMessage) : requests (a ++ b) = requests a ++ requests b :=
  List.filter_append _ _

/-- The workers have made a run of the pool on the requests taken so far, whatever will follow. -/
structure Linked (cfg : Config σ ℓ n) (s : State σ n) : Prop where
  front : cfg.frontend.system.Via cfg.frontend.FromClients s.front
  shared : ∃ m, cfg.frontend.live s.front = some m ∧ m.roundRobinCounter = s.pool.mapping.roundRobinCounter ∧
    (cfg.frontend.due s.front = false → m = s.pool.mapping)
  pool : ∀ future, (Pool.system (cfg.pool (requests s.taken ++ future))).Reachable s.pool
  dispatched : s.pool.dispatched = (requests s.taken).length
  inOrder : s.submitted = s.taken ++ cfg.frontend.backlog s.front
  clients : ∀ m ∈ s.submitted, m.IsClient

theorem linked_init (cfg : Config σ ℓ n) : Linked cfg (init cfg) where
  front := System.Via.init
  shared := ⟨_, cfg.frontend.live_init, rfl, fun _ => rfl⟩
  pool _ := System.Reachable.init (M := Pool.system _)
  dispatched := rfl
  inOrder := (cfg.frontend.backlog_init).symm
  clients _ mem := absurd mem List.not_mem_nil

/-- A statement of the scheduler's threads that pushes nothing. -/
theorem Linked.still (h : Linked cfg s) {l : ℓ} {f : σ} (clients : cfg.frontend.FromClients s.front l)
    (step : cfg.frontend.system.step s.front l = some f) (noDispatch : ∀ m, cfg.frontend.call s.front l ≠ .dispatch m)
    (noSync : cfg.frontend.call s.front l ≠ .syncAll) (dropped : requests (cfg.frontend.call s.front l).taken = []) :
    Linked cfg { s with
      front := f
      submitted := s.submitted ++ (cfg.frontend.submits l).toList
      taken := s.taken ++ (cfg.frontend.call s.front l).taken } := by
  have order := cfg.frontend.backlog_step s.front l f h.front clients step
  have same : requests (s.taken ++ (cfg.frontend.call s.front l).taken) = requests s.taken := by
    rw [requests_append, dropped, List.append_nil]
  obtain ⟨m, live, counter, agree⟩ := h.shared
  obtain ⟨m₀, m', live₀, live', counter', agree'⟩ := (cfg.frontend.asks s.front l f h.front clients step).kept noDispatch noSync
  obtain rfl := Option.some_inj.mp (live₀.symm.trans live)
  refine ⟨h.front.step clients step, ⟨m', live', counter'.trans counter, fun settled => ?_⟩, fun future => ?_, ?_, ?_, ?_⟩
  · obtain ⟨before, rfl⟩ := agree' settled
    exact agree before
  · rw [same]
    exact h.pool future
  · rw [same]
    exact h.dispatched
  · rw [h.inOrder, List.append_assoc, ← order, List.append_assoc]
  · intro m mem
    rcases List.mem_append.mp mem with old | new
    · exact h.clients m old
    · exact clients m (Option.mem_toList.mp new)

/-- A dispatch: the pool finds the live map of the scheduler's threads, and the threads find the map it has extended.
The requests taken are a prefix of those submitted, so the pool's run is one on them. -/
theorem Linked.dispatch (h : Linked cfg s) {l : ℓ} {f : σ} {first : Fin n} {rest : List (Fin n)} {message : ClientMessage}
    {mapping : Mapping n} {pool : Pool.State n} (clients : cfg.frontend.FromClients s.front l)
    (step : cfg.frontend.system.step s.front l = some f) (call : cfg.frontend.call s.front l = .dispatch message)
    (live : cfg.frontend.live s.front = some mapping)
    (dispatched : Pool.dispatch (cfg.pool (requests (s.taken ++ [message]))) { s.pool with mapping := mapping } first rest =
      some pool) :
    Linked cfg {
      front := f
      pool := pool
      submitted := s.submitted ++ (cfg.frontend.submits l).toList
      taken := s.taken ++ [message] } := by
  obtain ⟨notEnd, settled, m, m', partitions, live₀, live', involved⟩ :=
    (call ▸ cfg.frontend.asks s.front l f h.front clients step).dispatched
  obtain rfl := Option.some_inj.mp (live₀.symm.trans live)
  obtain ⟨m₁, live₁, -, agree⟩ := h.shared
  obtain rfl := Option.some_inj.mp (live₁.symm.trans live₀)
  obtain rfl := agree settled
  have taken : requests (s.taken ++ [message]) = requests s.taken ++ [message] := by
    rw [requests_append]
    simp [requests, notEnd]
  rw [taken] at dispatched
  have here : (requests s.taken ++ [message])[s.pool.dispatched]? = some message := by
    rw [h.dispatched, List.getElem?_concat_length]
  have order := cfg.frontend.backlog_step s.front l f h.front clients step
  rw [call, Call.taken] at order
  cases Pool.dispatch_cases dispatched with
  | mk stage todo next involved' nodup listing =>
    cases here.symm.trans next
    obtain ⟨rfl, rfl⟩ := Prod.mk.inj (Option.some.inj (involved.symm.trans involved'))
    refine ⟨h.front.step clients step, ⟨_, live', rfl, fun _ => rfl⟩, fun future => ?_, ?_, ?_, ?_⟩
    · rw [taken, List.append_assoc]
      refine System.Reachable.step (l := .dispatch first rest) (h.pool ([message] ++ future)) ?_
      rw [← dispatched]
      refine dispatch_congr ?_ first rest
      have early : s.pool.dispatched < (requests s.taken ++ [message]).length := by
        rw [h.dispatched, List.length_append]
        exact Nat.lt_succ_self _
      show (requests s.taken ++ ([message] ++ future))[s.pool.dispatched]? = (requests s.taken ++ [message])[s.pool.dispatched]?
      rw [← List.append_assoc, List.getElem?_append_left early]
    · rw [taken, List.length_append, ← h.dispatched]
      rfl
    · rw [h.inOrder, List.append_assoc, ← order, List.append_assoc]
    · intro m mem
      rcases List.mem_append.mp mem with old | new
      · exact h.clients m old
      · exact clients m (Option.mem_toList.mp new)

theorem Linked.syncAll (h : Linked cfg s) {l : ℓ} {f : σ} {order : List (Fin n)} {mapping : Mapping n}
    {pool : Pool.State n} (clients : cfg.frontend.FromClients s.front l)
    (step : cfg.frontend.system.step s.front l = some f) (call : cfg.frontend.call s.front l = .syncAll)
    (live : cfg.frontend.live f = some mapping)
    (synced : Pool.repartition { s.pool with mapping := mapping } mapping.dataToPartition order = some pool) :
    Linked cfg { s with
      front := f
      pool := pool
      submitted := s.submitted ++ (cfg.frontend.submits l).toList } := by
  obtain ⟨m, live₀, counter, -⟩ := h.shared
  obtain ⟨m₁, m', live₁, live', counter'⟩ := (call ▸ cfg.frontend.asks s.front l f h.front clients step).synced
  obtain rfl := Option.some_inj.mp (live₁.symm.trans live₀)
  obtain rfl := Option.some_inj.mp (live'.symm.trans live)
  have inOrder := cfg.frontend.backlog_step s.front l f h.front clients step
  rw [call, Call.taken, List.nil_append] at inOrder
  -- the round-robin counter is the one the pool has
  have same : ({ s.pool.mapping with dataToPartition := m'.dataToPartition } : Mapping n) = m' := by
    show (⟨m'.dataToPartition, s.pool.mapping.roundRobinCounter⟩ : Mapping n) = m'
    rw [← counter, ← counter']
  cases Pool.repartition_cases synced with
  | mk stage todo nodup listing =>
    have own : Pool.repartition s.pool m'.dataToPartition order = Pool.repartition { s.pool with mapping := m' } m'.dataToPartition order := by
      have stage : s.pool.stage = .ready := stage
      have todo : s.pool.todo = [] := todo
      simp only [Pool.repartition, stage, todo, same]
    refine ⟨h.front.step clients step, ⟨m', live', rfl, fun _ => rfl⟩, fun future => ?_, h.dispatched, ?_, ?_⟩
    · exact System.Reachable.step (l := .repartition m'.dataToPartition order) (h.pool future) (own.trans synced)
    · rw [h.inOrder, List.append_assoc, ← inOrder]
    · intro m mem
      rcases List.mem_append.mp mem with old | new
      · exact h.clients m old
      · exact clients m (Option.mem_toList.mp new)

/-- Every step of the process is one of the threads, of the pool, or of both, and keeps them linked. -/
theorem linked_move {l : Label ℓ n} (h : Linked cfg s) (clients : FromClients cfg s l) (move : Move cfg s l s') :
    Linked cfg s' := by
  cases move with
  | aside step call =>
    have still := h.still clients step (by simp [call]) (by simp [call]) (by rw [call]; rfl)
    rwa [call, Call.taken, List.append_nil] at still
  | quiet step call =>
    have still := h.still clients step (by simp [call]) (by simp [call]) (by rw [call]; rfl)
    rwa [call, Call.taken, List.append_nil] at still
  | @stop l order f message step call =>
    have last := (call ▸ cfg.frontend.asks s.front l f h.front clients step).stopped
    have still := h.still clients step (by simp [call]) (by simp [call]) (by simp [call, Call.taken, requests, last])
    rwa [call, Call.taken] at still
  | dispatch step call live dispatched => exact h.dispatch clients step call live dispatched
  | syncAll step call live synced => exact h.syncAll clients step call live synced
  | @push pool step =>
    have same : pool.mapping = s.pool.mapping ∧ pool.dispatched = s.pool.dispatched := by
      cases Pool.push_cases step <;> exact ⟨rfl, rfl⟩
    refine ⟨h.front, ?_, fun future => (h.pool future).step (l := .push) step, ?_, h.inOrder, h.clients⟩
    · rw [same.1]
      exact h.shared
    · exact same.2.trans h.dispatched
  | @work p serial pool step =>
    have same := (Pool.work_cases step).sameCalls
    refine ⟨h.front, ?_, fun future => (h.pool future).step (l := .work p serial) step, ?_, h.inOrder, h.clients⟩
    · rw [same.mapping]
      exact h.shared
    · exact same.dispatched.trans h.dispatched

/-- **The process refines the pool.** -/
theorem via_linked (via : (system cfg).Via (FromClients cfg) s) : Linked cfg s :=
  via.invariant (linked_init cfg) fun _ _ _ _ linked clients step => linked_move linked clients (step_move step)

/-! ### What clients get -/

/-- Every message has been taken, and nothing is under way at the partitions. -/
structure Finished (cfg : Config σ ℓ n) (s : State σ n) : Prop where
  backlog : cfg.frontend.backlog s.front = []
  quiet : Pool.Quiescent s.pool

/-- The process answers as if it executed the submitted requests one by one. -/
structure Serves (cfg : Config σ ℓ n) (s : State σ n) : Prop where
  inOrder : s.taken <+: s.submitted
  once : (s.pool.trace.filterMap Event.started).Nodup ∧ (s.pool.trace.filterMap Event.finished).Nodup
  ordered : ∀ j k r r', j < k → (requests s.submitted)[j]? = some r → (requests s.submitted)[k]? = some r' → r.Conflict r' →
    ∀ pre p post, s.pool.trace = pre ++ .start p k :: post → j ∈ pre.filterMap Event.finished
  answers : ∀ k text, Pool.Answered s.pool k text → ∃ m failed, (requests s.submitted)[k]? = some m ∧
    Sequential.answer cfg.compresser (Sequential.storageBefore cfg.compresser
      (Storage.populated cfg.compresser cfg.populated) (requests s.submitted) k) m = some (text, failed)
  outcome : Finished cfg s → ∃ outcome, Sequential.execute cfg.compresser
    (Storage.populated cfg.compresser cfg.populated) (requests s.submitted) = some outcome ∧ Pool.ComesTo s.pool outcome

/-- The requests submitted so far are those of a run of the pool. -/
theorem Linked.reachable (h : Linked cfg s) : (Pool.system (cfg.pool (requests s.submitted))).Reachable s.pool := by
  rw [h.inOrder, requests_append]
  exact h.pool _

theorem Linked.areRequests (h : Linked cfg s) : ∀ m ∈ requests s.submitted, m.IsRequest := by
  intro m mem
  obtain ⟨mem, notEnd⟩ := List.mem_filter.mp mem
  exact (h.clients m mem).resolve_right (of_decide_eq_true notEnd)

/-- **What every process serves**: settled workloads, by any frontend, in every run. -/
theorem Linked.serves (h : Linked cfg s) (settled : Pool.Settled (cfg.pool (requests s.submitted))) : Serves cfg s := by
  have reach := h.reachable
  have isRequest := h.areRequests
  have uniform := (Storage.populated_spec (z := cfg.compresser) cfg.populated).1
  obtain ⟨-, -, rec⟩ := Pool.reachable_recorded isRequest reach
  have run := Pool.settled_via settled isRequest uniform reach
  refine ⟨⟨_, h.inOrder.symm⟩, ⟨(rec.scheduled.mono fun _ _ ok => ok.once).nodup, ?_⟩, ?_, ?_, fun finished => ?_⟩
  · refine (rec.scheduled.mono fun pre a ok k fin => ?_).nodup
    cases a with
    | finish p j answer =>
      cases fin
      exact (ok.inside p _ rfl).2
    | _ => cases fin
  · intro j k r r' lt hr hr' conflict pre p post eq
    exact (rec.scheduled pre _ post eq).order k rfl j lt r r' hr hr' conflict
  · rintro k text ⟨p, mem⟩
    obtain ⟨m, hm, answer⟩ := (Pool.via_replayed isRequest uniform run).answers p k text mem
    exact ⟨m, _, hm, answer⟩
  · refine Pool.complete_comesTo isRequest uniform run ⟨finished.quiet, ?_⟩
    rw [h.dispatched, h.inOrder, finished.backlog, List.append_nil]
    rfl

end Process

end KvPaxos
