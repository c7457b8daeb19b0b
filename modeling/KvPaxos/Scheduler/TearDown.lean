import Mathlib.Algebra.Order.BigOperators.Group.Finset
import KvPaxos.Scheduler.Progress

/-!
# The destructors

`~Scheduler` deletes the partitions one after the other, in the iteration order of `partitions_`, and
each `~Partition` clears `executing_`, posts `semaphore_` and joins its worker. `thread_loop` tests
`executing_` at the head of its loop and again after `pop_request`; `Pool` leaves these tests out, since
they come out one way while the scheduler is in use. Here a worker has a `Gate` beside its place in the
pool, and the pool's semaphore gets the extra post (which fails, like any other, at `SEM_VALUE_MAX`).
-/

namespace KvPaxos

open Lib

namespace TearDown

/-- Where a worker is with the tests of `executing_`. -/
inductive Gate where
  /-- The head of the loop. -/
  | looping
  /-- In `pop_request` or in the `switch`. -/
  | inside
  /-- The test after `pop_request`. -/
  | checking
  /-- `thread_loop` has returned. -/
  | exited
  deriving DecidableEq

/-- Where the thread that deletes the scheduler is; `rest` are the partitions that come later. -/
inductive Destroyer (n : Nat) where
  /-- The scheduler is in use. -/
  | outside
  /-- `executing_ = false` of the next partition. -/
  | clearing (partitions : List (Fin n))
  /-- `sem_post(&semaphore_)`. -/
  | posting (p : Fin n) (rest : List (Fin n))
  /-- `worker_thread_.join()`. -/
  | joining (p : Fin n) (rest : List (Fin n))
  deriving DecidableEq

/-- The pool, and of each worker whether it is inside the loop of `thread_loop`, with `executing_` and the place of
the destructor. -/
structure State (n : Nat) where
  pool : Pool.State n
  gates : Fin n → Gate := fun _ => .looping
  executing : Fin n → Bool := fun _ => true
  destroyer : Destroyer n := .outside

/-- A statement of one of the threads. -/
inductive Label (n : Nat) where
  /-- A step of the scheduling thread. -/
  | schedule (l : Pool.Label n)
  | work (p serial : Fin n)
  /-- `~Scheduler` is entered; `order` lists `partitions_`. -/
  | enter (order : List (Fin n))
  | destroy

variable {n : Nat}

def init (cfg : Config n) : State n where
  pool := Pool.init cfg

/-- The tests are the head of the loop and the one after `pop_request`, whose last statement leaves
`releasing`. -/
def Gate.after : Worker → Worker → Gate
  | .releasing _, _ => .checking
  | _, .waiting => .looping
  | _, _ => .inside

/-- The next statement of worker `p`: the test of the `while` and the one behind `pop_request`, which both read
`executing_` and leave the loop where it is false, and between them the statements of `Pool.work`. -/
def work (cfg : Config n) (s : State n) (p serial : Fin n) : Option (State n) :=
  match s.gates p with
  | .looping | .checking =>
    some { s with gates := Function.update s.gates p (if s.executing p then .inside else .exited) }
  | .inside => (Pool.work cfg s.pool p serial).map fun pool =>
      { s with
        pool := pool
        gates := Function.update s.gates p (.after (s.pool.partitions p).worker (pool.partitions p).worker) }
  | .exited => none

/-- The producer and the scheduling thread have finished. -/
def Finished (cfg : Config n) (s : State n) : Prop :=
  s.pool.todo = [] ∧ s.pool.stage = .ready ∧ s.pool.dispatched = cfg.requests.length

instance (cfg : Config n) (s : State n) : Decidable (Finished cfg s) := inferInstanceAs (Decidable (_ ∧ _ ∧ _))

/-- The next statement of `~Scheduler`, which deletes the partitions one after the other: `~Partition` clears
`executing_`, posts `semaphore_` to wake its worker up and joins it. The post goes the way of every other one and
fails at `SEM_VALUE_MAX`. -/
def destroy (s : State n) : Option (State n) :=
  match s.destroyer with
  | .outside | .clearing [] => none
  | .clearing (p :: rest) =>
    some { s with executing := Function.update s.executing p false, destroyer := .posting p rest }
  | .posting p rest =>
    let part := s.pool.partitions p
    some { s with
      pool := s.pool.put p { part with semaphore := semPost (some SEM_VALUE_MAX) part.semaphore } []
      destroyer := .joining p rest }
  | .joining p rest => if s.gates p = .exited then some { s with destroyer := .clearing rest } else none

/-- One statement of the scheduling thread, of a worker or of the destructor. `~Scheduler` is entered when the
producer and the scheduling thread have finished, with the partitions in any order, and from then on the scheduling
thread makes no statement. -/
def step (cfg : Config n) (s : State n) : Label n → Option (State n)
  | .schedule (.work _ _) => none
  | .schedule l =>
    if s.destroyer = .outside then (Pool.step cfg s.pool l).map fun pool => { s with pool := pool } else none
  | .work p serial => work cfg s p serial
  | .enter order =>
    if s.destroyer = .outside ∧ Finished cfg s ∧ order.Nodup ∧ order.toFinset = Finset.univ then
      some { s with destroyer := .clearing order }
    else none
  | .destroy => destroy s

def system (cfg : Config n) : System (State n) (Label n) := ⟨init cfg, step cfg⟩

/-- `pop_request` calls `front()` and `pop()` on an empty queue. -/
def PopsEmpty (s : State n) (p : Fin n) : Prop :=
  s.gates p = .inside ∧ (s.pool.partitions p).worker = .popping ∧ (s.pool.partitions p).requestsQueue = []

instance (s : State n) (p : Fin n) : Decidable (PopsEmpty s p) := inferInstanceAs (Decidable (_ ∧ _ ∧ _))

/-- Worker `p`'s next statement ends the process. -/
def Terminates (s : State n) (p : Fin n) : Prop := s.gates p = .inside ∧ Pool.Terminates s.pool p

/-- The messages that a worker does not act on if `executing_` is cleared now. -/
def untaken (gate : Gate) (part : Partition) : List Entry :=
  match part.worker, gate with
  | .releasing e, _ | .handling e, .checking | .handling e, .exited => e :: part.requestsQueue
  | _, _ => part.requestsQueue

/-- Worker `p` waits in `pop_request`, and there is no message. -/
def Asleep (s : State n) (p : Fin n) : Prop :=
  s.gates p = .inside ∧ (s.pool.partitions p).worker = .waiting ∧ (s.pool.partitions p).requestsQueue = []

instance (s : State n) (p : Fin n) : Decidable (Asleep s p) := inferInstanceAs (Decidable (_ ∧ _ ∧ _))

/-- No other partition needs worker `p` at a barrier it has not taken up. -/
def Unneeded (s : State n) (p : Fin n) : Prop :=
  ∀ e ∈ untaken (s.gates p) (s.pool.partitions p), ∀ b ∈ e.barrier, ∀ q ∈ (s.pool.barriers b).members, q = p

theorem all_unneeded_iff (s : State n) (p : Fin n) : ((untaken (s.gates p) (s.pool.partitions p)).all fun e =>
    e.barrier.all fun b => (s.pool.barriers b).members.all (· == p)) = true ↔ Unneeded s p := by
  simp only [List.all_eq_true, Option.all_eq_true, beq_iff_eq]
  rfl

instance (s : State n) (p : Fin n) : Decidable (Unneeded s p) := decidable_of_iff _ (all_unneeded_iff s p)

/-- `executing_` is cleared where the worker is not asleep and not needed, and while the scheduler is in
use no post of `push_request` is lost. -/
def InTime (s : State n) (l : Label n) : Prop :=
  match l, s.destroyer with
  | .destroy, .clearing (p :: _) => ¬Asleep s p ∧ Unneeded s p
  | .schedule l, _ => Pool.NotFull s.pool l
  | _, _ => True

variable {cfg : Config n} {s s' : State n} {t t' : Pool.State n} {p q : Fin n}

/-! ### The pool without the extra posts -/

/-- The pool with `extra p` more posts of each `semaphore_`. -/
def posted (t : Pool.State n) (extra : Fin n → Nat) : Pool.State n :=
  { t with partitions := fun p =>
    { t.partitions p with semaphore := (t.partitions p).semaphore + extra p } }

section Posted

variable (extra : Fin n → Nat)

theorem posted_put (part : Partition) (events : List (Event n)) :
    posted (t.put p part events) extra =
      (posted t extra).put p { part with semaphore := part.semaphore + extra p } events := by
  unfold posted Pool.State.put
  congr 1
  funext q
  by_cases eq : q = p
  · subst eq
    simp
  · simp [eq]

theorem posted_barriers (barriers : Nat → Barrier n) :
    posted { t with barriers := barriers } extra = { posted t extra with barriers := barriers } := rfl

theorem posted_storage (storage : Storage) :
    posted { t with storage := storage } extra = { posted t extra with storage := storage } := rfl

theorem handle_posted {serial : Fin n} {e : Entry} :
    Pool.handle cfg.compresser (posted t extra) p serial ((posted t extra).partitions p) e =
      (Pool.handle cfg.compresser t p serial (t.partitions p) e).map (posted · extra) := by
  cases type : e.message.type with
  | READ | SCAN | SYNC =>
    simp only [Pool.handle, type, Option.map_map]
    refine congrFun (congrArg _ (funext fun answer => ?_)) _
    simp only [Function.comp_apply, posted_barriers, posted_put]
    rfl
  | WRITE | ERROR | UPDATE | DUMMY | END =>
    simp only [Pool.handle, type, Option.map_some, posted_storage, posted_put]
    rfl

/-- A worker that does not need the extra post does the same in both. -/
theorem work_posted {serial : Fin n}
    (token : (t.partitions p).worker = .waiting → 0 < (t.partitions p).semaphore) :
    Pool.work cfg (posted t extra) p serial = (Pool.work cfg t p serial).map (posted · extra) := by
  have worker : ((posted t extra).partitions p).worker = (t.partitions p).worker := rfl
  cases place : (t.partitions p).worker with
  | waiting =>
    have own := token place
    have more : 0 < (t.partitions p).semaphore + extra p := by omega
    have swap : (t.partitions p).semaphore + extra p - 1 = (t.partitions p).semaphore - 1 + extra p := by omega
    simp only [Pool.work, place, worker, if_pos own, Option.map_some, posted_put]
    simp only [posted, if_pos more, swap]
  | popping =>
    have queue : ((posted t extra).partitions p).requestsQueue = (t.partitions p).requestsQueue := rfl
    cases front : (t.partitions p).requestsQueue with
    | nil => simp only [Pool.work, place, worker, queue, front, Option.map_none]
    | cons e rest =>
      simp only [Pool.work, place, worker, queue, front, Option.map_some, posted_put]
      rfl
  | releasing e | counting e answer =>
    simp only [Pool.work, place, worker, Option.map_some, posted_put]
    rfl
  | handling e =>
    simp only [Pool.work, place, worker]
    exact handle_posted extra
  | scanning e length i values =>
    have storage : (posted t extra).storage = t.storage := rfl
    simp only [Pool.work, place, worker, storage]
    split
    · split
      · rfl
      · simp only [Option.map_some, posted_put]
        rfl
    · simp only [Option.map_some, posted_put]
      rfl
  | reading e length i values key =>
    have storage : (posted t extra).storage = t.storage := rfl
    simp only [Pool.work, place, worker, storage]
    split
    · simp only [Option.map_some, posted_put]
      rfl
    · simp only [Option.map_some, posted_put]
      rfl
  | atBarrier e =>
    simp only [Pool.work, place, worker, Option.map_map]
    refine congrFun (congrArg _ (funext fun q => ?_)) _
    simp only [Function.comp_apply]
    split
    · rw [posted_put]
      rfl
    · rw [posted_put]
      rfl
  | destroying e =>
    simp only [Pool.work, place, worker, Option.map_some, posted_barriers, posted_put]
    rfl

end Posted

/-! ### What the two tests keep -/

/-- The partition whose post is still to come. -/
def Destroyer.due : Destroyer n → Option (Fin n)
  | .posting p _ => some p
  | _ => none

/-- The partitions whose destructor has not begun. -/
def Destroyer.ahead : Destroyer n → List (Fin n)
  | .outside => []
  | .clearing partitions => partitions
  | .posting _ rest | .joining _ rest => rest

/-- The posts the destructors have made so far, whether they had an effect or not. -/
def posts (s : State n) (p : Fin n) : Nat := if s.executing p = false ∧ s.destroyer.due ≠ some p then 1 else 0

/-- A worker's place at a test. -/
def Gated (gate : Gate) (executing : Bool) (worker : Worker) : Prop :=
  match gate with
  | .looping => worker = .waiting
  | .inside => True
  | .checking => ∃ e, worker = .handling e
  | .exited => executing = false ∧ (worker = .waiting ∨ ∃ e, worker = .handling e)

/-- What clearing `executing_` in time leaves for the rest of the worker's life. -/
structure Cleared (gate : Gate) (part : Partition) (barriers : Nat → Barrier n) (p : Fin n) : Prop where
  awake : gate = .inside → part.worker = .waiting → part.requestsQueue ≠ []
  unneeded : ∀ e ∈ untaken gate part, ∀ b ∈ e.barrier, ∀ q ∈ (barriers b).members, q = p

/-- The state `t` of the pool is the one without the extra posts. -/
structure Torn (cfg : Config n) (s : State n) (t : Pool.State n) : Prop where
  pool : ∃ extra, (∀ p, extra p ≤ posts s p) ∧ s.pool = posted t extra
  sound : Pool.Sound cfg t
  paid : ∀ p, Pool.Paid t p
  gates : ∀ p, Gated (s.gates p) (s.executing p) (t.partitions p).worker
  cleared : ∀ p, s.executing p = false → Cleared (s.gates p) (t.partitions p) t.barriers p
  begun : ∀ p, s.executing p = false → s.destroyer ≠ .outside
  finished : s.destroyer ≠ .outside → t.todo = [] ∧ t.stage = .ready
  current : ∀ p rest, s.destroyer = .posting p rest ∨ s.destroyer = .joining p rest → s.executing p = false
  ahead : s.destroyer.ahead.Nodup ∧ ∀ p ∈ s.destroyer.ahead, s.executing p = true

/-- A worker's statement leads to a test or stays between the tests. -/
theorem gated_work (move : Pool.Work cfg t p t') (executing : Bool) :
    Gated (.after (t.partitions p).worker (t'.partitions p).worker) executing (t'.partitions p).worker := by
  cases move <;> simp_all [Gate.after, Gated]

/-- Between the tests no message is dropped. -/
theorem untaken_work (move : Pool.Work cfg t p t') :
    untaken (.after (t.partitions p).worker (t'.partitions p).worker) (t'.partitions p) =
      untaken .inside (t.partitions p) := by
  cases move <;> simp_all [Gate.after, untaken]

/-- A worker between the tests does not come back to `sem_wait`. -/
theorem awake_work (move : Pool.Work cfg t p t')
    (inside : Gate.after (t.partitions p).worker (t'.partitions p).worker = .inside) :
    (t'.partitions p).worker ≠ .waiting := by
  cases move <;> simp_all [Gate.after]

theorem Cleared.work (h : Cleared .inside (t.partitions p) t.barriers p) (move : Pool.Work cfg t p t') :
    Cleared (.after (t.partitions p).worker (t'.partitions p).worker) (t'.partitions p) t'.barriers p where
  awake inside waiting := absurd waiting (awake_work move inside)
  unneeded e mem b hb q member := by
    rw [untaken_work move] at mem
    rw [(move.barriers_same b).1] at member
    exact h.unneeded e mem b hb q member

/-- While the scheduler is in use, the pool is as it was. -/
theorem Torn.outside (h : Torn cfg s t) (outside : s.destroyer = .outside) :
    (∀ p, s.executing p = true) ∧ s.pool = t := by
  have executing : ∀ p, s.executing p = true := by
    intro p
    by_contra cleared
    exact h.begun p (Bool.eq_false_of_not_eq_true cleared) outside
  obtain ⟨extra, le, pool⟩ := h.pool
  refine ⟨executing, pool.trans ?_⟩
  have none : extra = fun _ => 0 := by
    funext p
    have := le p
    simpa [posts, executing p] using this
  rw [none]
  rfl

/-- The scheduling thread moves no worker. -/
theorem schedule_worker {l : Pool.Label n} (work : ∀ p serial, l ≠ .work p serial) (h : Pool.step cfg t l = some t')
    (q : Fin n) : (t'.partitions q).worker = (t.partitions q).worker := by
  cases l with
  | work p serial => exact absurd rfl (work p serial)
  | dispatch first rest =>
    cases Pool.dispatch_cases h
    rfl
  | repartition scheme order =>
    cases Pool.repartition_cases h
    rfl
  | push =>
    cases Pool.push_cases h with
    | skip => rfl
    | @reserve p | @enqueue p | @post p =>
      by_cases eq : q = p
      · subst eq
        simp
      · simp [eq]

theorem torn_init : Torn cfg (init cfg) (Pool.init cfg) where
  pool := ⟨fun _ => 0, fun _ => Nat.zero_le _, rfl⟩
  sound := ⟨Pool.init_accounted, Pool.init_planned, Pool.init_synced, Pool.init_shortPaid⟩
  paid _ := rfl
  gates _ := rfl
  cleared _ h := by cases h
  begun _ h := by cases h
  finished h := absurd rfl h
  current _ _ h := by rcases h with h | h <;> cases h
  ahead := ⟨List.nodup_nil, fun p mem => absurd mem List.not_mem_nil⟩

theorem torn_schedule {l : Pool.Label n} (torn : Torn cfg s t) (requests : ∀ m ∈ cfg.requests, m.IsRequest)
    (work : ∀ p serial, l ≠ .work p serial) (notFull : Pool.NotFull s.pool l) (h : (if s.destroyer = .outside then
      (Pool.step cfg s.pool l).map fun pool => { s with pool := pool } else none) = some s') :
    ∃ k t', Pool.step cfg t k = some t' ∧ Torn cfg s' t' := by
  obtain ⟨outside, h⟩ := Option.ite_none_right_eq_some.mp h
  obtain ⟨t', step, rfl⟩ := Option.map_eq_some_iff.mp h
  obtain ⟨executing, pool⟩ := torn.outside outside
  rw [pool] at step notFull
  have none : ∀ p, s.executing p ≠ false := by
    intro p cleared
    rw [executing p] at cleared
    cases cleared
  refine ⟨l, t', step, ⟨fun _ => 0, fun _ => Nat.zero_le _, rfl⟩, Pool.sound_step requests torn.sound step, fun p => ?_,
    fun p => ?_, fun p cleared => absurd cleared (none p), fun p cleared => absurd cleared (none p),
    fun inside => absurd outside inside, torn.current, torn.ahead⟩
  · refine Pool.paid_step step (fun push posting => ?_) (torn.paid p)
    subst push
    exact notFull p posting
  · rw [schedule_worker work step]
    exact torn.gates p

/-- A worker at a test finds `executing_`. -/
theorem torn_test (torn : Torn cfg s t) (place : s.gates p = .looping ∨ s.gates p = .checking) :
    Torn cfg { s with gates := Function.update s.gates p (if s.executing p then .inside else .exited) } t := by
  refine ⟨torn.pool, torn.sound, torn.paid, fun q => ?_, fun q cleared => ?_, torn.begun, torn.finished, torn.current,
    torn.ahead⟩
  · by_cases eq : q = p
    · subst eq
      have gated := torn.gates q
      simp only [Function.update_self]
      cases executing : s.executing q with
      | true => trivial
      | false =>
        refine ⟨rfl, ?_⟩
        rcases place with looping | checking
        · rw [looping] at gated
          exact Or.inl gated
        · rw [checking] at gated
          exact Or.inr gated
    · simp only [Function.update_of_ne eq]
      exact torn.gates q
  · have before := torn.cleared q cleared
    by_cases eq : q = p
    · subst eq
      have gated := torn.gates q
      have executing : s.executing q = false := cleared
      simp only [Function.update_self, executing, Bool.false_eq_true, if_false]
      refine ⟨fun inside => (by cases inside), fun e mem => before.unneeded e ?_⟩
      rcases place with looping | checking
      · rw [looping] at gated ⊢
        have gated : (t.partitions q).worker = .waiting := gated
        simpa [untaken, gated] using mem
      · rw [checking] at gated ⊢
        obtain ⟨f, gated⟩ := gated
        simpa [untaken, gated] using mem
    · simp only [Function.update_of_ne eq]
      exact before

/-- A worker that takes a post takes one of a message. -/
theorem Torn.token (torn : Torn cfg s t) {serial : Fin n} {pool : Pool.State n} (inside : s.gates p = .inside)
    (h : Pool.work cfg s.pool p serial = some pool) (waiting : (t.partitions p).worker = .waiting) :
    0 < (t.partitions p).semaphore := by
  cases executing : s.executing p with
  | true =>
    obtain ⟨extra, le, pool⟩ := torn.pool
    have taken : 0 < (s.pool.partitions p).semaphore := by
      rw [pool] at h ⊢
      have place : ((posted t extra).partitions p).worker = .waiting := waiting
      by_contra none
      simp only [Pool.work, place, if_neg none] at h
      cases h
    have none : posts s p = 0 := if_neg fun both => (by rw [executing] at both; cases both.1)
    have same : extra p = 0 := Nat.le_zero.mp (none ▸ le p)
    rw [pool] at taken
    simpa [posted, same] using taken
  | false =>
    have items := torn.paid p
    have some := (torn.cleared p executing).awake inside waiting
    have ready : Pool.unposted t p = 0 := by
      simp only [Pool.unposted, (torn.finished (torn.begun p executing)).2]
    have length := List.length_pos_iff.mpr some
    unfold Pool.Paid Pool.tokens at items
    rw [waiting, ready] at items
    simp only [Worker.token] at items
    omega

/-- A worker inside its loop does in the torn-down pool what it would do in one that is left alone. The extra post
does not show, since it is not the one that the worker takes. -/
theorem torn_work (torn : Torn cfg s t) (requests : ∀ m ∈ cfg.requests, m.IsRequest) {serial : Fin n}
    (inside : s.gates p = .inside) {pool : Pool.State n} (h : Pool.work cfg s.pool p serial = some pool) :
    ∃ t', Pool.step cfg t (.work p serial) = some t' ∧ Torn cfg { s with
      pool := pool
      gates := Function.update s.gates p (.after (s.pool.partitions p).worker (pool.partitions p).worker) } t' := by
  have token := torn.token inside h
  obtain ⟨extra, le, pool⟩ := torn.pool
  rw [pool, work_posted _ token] at h
  obtain ⟨t', step, rfl⟩ := Option.map_eq_some_iff.mp h
  have move := Pool.work_cases step
  have same := move.sameCalls
  have gate : Gate.after (s.pool.partitions p).worker ((posted t' extra).partitions p).worker =
      .after (t.partitions p).worker (t'.partitions p).worker := by
    rw [pool]
    rfl
  refine ⟨t', step, ⟨extra, le, rfl⟩, Pool.sound_step requests torn.sound (l := .work p serial) step,
    fun q => Pool.paid_step (l := .work p serial) step (fun push => nomatch push) (torn.paid q), fun q => ?_,
    fun q cleared => ?_, torn.begun, fun begun => ?_, torn.current, torn.ahead⟩
  · by_cases eq : q = p
    · subst eq
      simp only [Function.update_self, gate]
      exact gated_work move _
    · simp only [Function.update_of_ne eq, move.others eq]
      exact torn.gates q
  · have before := torn.cleared q cleared
    by_cases eq : q = p
    · subst eq
      rw [inside] at before
      simp only [Function.update_self, gate]
      exact before.work move
    · simp only [Function.update_of_ne eq, move.others eq]
      refine ⟨before.awake, fun e mem b hb r member => before.unneeded e mem b hb r ?_⟩
      rw [(move.barriers_same b).1] at member
      exact member
  · rw [same.todo, same.stage]
    exact torn.finished begun

/-- `executing_` may be cleared in time: the messages the worker will not take are behind all that another partition
waits for. -/
theorem torn_clear (torn : Torn cfg s t) {rest : List (Fin n)} (place : s.destroyer = .clearing (p :: rest))
    (awake : ¬Asleep s p) (unneeded : Unneeded s p) :
    Torn cfg { s with executing := Function.update s.executing p false, destroyer := .posting p rest } t := by
  obtain ⟨nodup, executing⟩ := torn.ahead
  rw [place] at nodup executing
  obtain ⟨out, nodup⟩ := List.nodup_cons.mp nodup
  have here : s.executing p = true := executing p List.mem_cons_self
  have inUse : s.destroyer ≠ .outside := by
    rw [place]
    exact fun eq => (by cases eq)
  have same : posts { s with executing := Function.update s.executing p false, destroyer := .posting p rest } = posts s := by
    funext q
    by_cases eq : q = p
    · subst eq
      simp [posts, Destroyer.due, here]
    · simp [posts, Destroyer.due, place, eq, Ne.symm eq]
  refine ⟨by rw [same]; exact torn.pool, torn.sound, torn.paid, fun q => ?_, fun q cleared => ?_,
    fun q cleared begun => ?_, fun begun => torn.finished inUse, fun q tail at_ => ?_, nodup, fun q mem => ?_⟩
  · have gated := torn.gates q
    by_cases eq : q = p
    · subst eq
      simp only [Function.update_self]
      cases gate : s.gates q with
      | exited =>
        rw [gate] at gated
        exact ⟨rfl, gated.2⟩
      | _ =>
        rw [gate] at gated
        exact gated
    · simp only [Function.update_of_ne eq]
      exact gated
  · by_cases eq : q = p
    · subst eq
      obtain ⟨extra, -, pool⟩ := torn.pool
      rw [Asleep, pool] at awake
      rw [Unneeded, pool] at unneeded
      exact ⟨fun inside waiting empty => awake ⟨inside, waiting, empty⟩, unneeded⟩
    · simp only [Function.update_of_ne eq] at cleared
      exact torn.cleared q cleared
  · cases begun
  · rcases at_ with at_ | at_ <;> cases at_
    exact Function.update_self _ _ _
  · have eq : q ≠ p := fun eq => out (eq ▸ mem)
    simp only [Function.update_of_ne eq]
    exact executing q (List.mem_cons_of_mem p mem)

/-- The post of `~Partition` is the one that the pool left alone does not have. -/
theorem torn_post (torn : Torn cfg s t) {rest : List (Fin n)} (place : s.destroyer = .posting p rest) :
    Torn cfg { s with
      pool := s.pool.put p { s.pool.partitions p with
        semaphore := semPost (some SEM_VALUE_MAX) (s.pool.partitions p).semaphore } []
      destroyer := .joining p rest } t := by
  have cleared := torn.current p rest (Or.inl place)
  have inUse : s.destroyer ≠ .outside := by
    rw [place]
    exact fun eq => (by cases eq)
  refine ⟨?_, torn.sound, torn.paid, torn.gates, torn.cleared, fun q _ begun => (by cases begun),
    fun _ => torn.finished inUse, fun q tail at_ => ?_, ?_⟩
  · -- the post counts as an extra one if the semaphore is not full
    obtain ⟨extra, le, pool⟩ := torn.pool
    have none : posts s p = 0 := if_neg fun both => both.2 (by rw [place]; rfl)
    have before : extra p = 0 := Nat.le_zero.mp (none ▸ le p)
    obtain ⟨own, le_one, post⟩ := exists_semPost (some SEM_VALUE_MAX) (t.partitions p).semaphore
    refine ⟨Function.update extra p own, fun q => ?_, ?_⟩
    · by_cases eq : q = p
      · subst eq
        simpa [posts, Destroyer.due, cleared] using le_one
      · have := le q
        simpa [posts, Destroyer.due, place, eq, Ne.symm eq] using this
    · rw [pool]
      unfold posted Pool.State.put
      simp only [List.append_nil]
      congr 1
      funext q
      by_cases eq : q = p
      · subst eq
        simp [before, post]
      · simp [eq]
  · rcases at_ with at_ | at_ <;> cases at_
    exact cleared
  · have ahead := torn.ahead
    rw [place] at ahead
    exact ahead

theorem torn_joined (torn : Torn cfg s t) {rest : List (Fin n)} (place : s.destroyer = .joining p rest) :
    Torn cfg { s with destroyer := .clearing rest } t := by
  have inUse : s.destroyer ≠ .outside := by
    rw [place]
    exact fun eq => (by cases eq)
  have ahead := torn.ahead
  rw [place] at ahead
  have same : posts { s with destroyer := .clearing rest } = posts s := by
    funext q
    simp [posts, Destroyer.due, place]
  refine ⟨by rw [same]; exact torn.pool, torn.sound, torn.paid, torn.gates, torn.cleared,
    fun q _ begun => (by cases begun), fun _ => torn.finished inUse, fun q tail at_ => ?_, ahead⟩
  rcases at_ with at_ | at_ <;> cases at_

theorem torn_enter (torn : Torn cfg s t) {order : List (Fin n)} (outside : s.destroyer = .outside)
    (finished : Finished cfg s) (nodup : order.Nodup) : Torn cfg { s with destroyer := .clearing order } t := by
  obtain ⟨executing, pool⟩ := torn.outside outside
  have same : posts { s with destroyer := .clearing order } = posts s := by
    funext q
    simp [posts, executing q]
  refine ⟨by rw [same]; exact torn.pool, torn.sound, torn.paid, torn.gates, torn.cleared,
    fun q _ begun => (by cases begun), fun _ => ?_, fun q tail at_ => ?_, nodup, fun q _ => executing q⟩
  · rw [← pool]
    exact ⟨finished.1, finished.2.1⟩
  · rcases at_ with at_ | at_ <;> cases at_

/-- **A step that clears in time is one of the pool, or none.** -/
theorem torn_step (requests : ∀ m ∈ cfg.requests, m.IsRequest) {l : Label n} (torn : Torn cfg s t)
    (inTime : InTime s l) (h : step cfg s l = some s') :
    Torn cfg s' t ∨ ∃ k t', Pool.step cfg t k = some t' ∧ Torn cfg s' t' := by
  cases l with
  | schedule l =>
    have notFull : Pool.NotFull s.pool l := inTime
    cases l with
    | work => cases h
    | dispatch | repartition | push =>
      exact Or.inr (torn_schedule torn requests (fun p serial eq => (by cases eq)) notFull h)
  | work p serial =>
    simp only [step, work] at h
    cases gate : s.gates p with
    | looping =>
      simp only [gate] at h
      cases h
      exact Or.inl (torn_test torn (Or.inl gate))
    | checking =>
      simp only [gate] at h
      cases h
      exact Or.inl (torn_test torn (Or.inr gate))
    | inside =>
      simp only [gate] at h
      obtain ⟨pool, stepped, rfl⟩ := Option.map_eq_some_iff.mp h
      obtain ⟨t', own, torn'⟩ := torn_work torn requests gate stepped
      exact Or.inr ⟨.work p serial, t', own, torn'⟩
    | exited =>
      simp only [gate] at h
      cases h
  | enter order =>
    obtain ⟨⟨outside, finished, nodup, -⟩, ⟨⟩⟩ := Option.ite_none_right_eq_some.mp h
    exact Or.inl (torn_enter torn outside finished nodup)
  | destroy =>
    simp only [step, destroy] at h
    cases place : s.destroyer with
    | outside =>
      simp only [place] at h
      cases h
    | clearing partitions =>
      cases partitions with
      | nil =>
        simp only [place] at h
        cases h
      | cons p rest =>
        simp only [place] at h
        cases h
        simp only [InTime, place] at inTime
        exact Or.inl (torn_clear torn place inTime.1 inTime.2)
    | posting p rest =>
      simp only [place] at h
      cases h
      exact Or.inl (torn_post torn place)
    | joining p rest =>
      simp only [place] at h
      obtain ⟨exited, ⟨⟩⟩ := Option.ite_none_right_eq_some.mp h
      exact Or.inl (torn_joined torn place)

/-- **A run that clears in time is a run of the pool**, but for the extra posts. -/
theorem torn_simulation (requests : ∀ m ∈ cfg.requests, m.IsRequest) :
    System.Simulation (system cfg) (Pool.system cfg) InTime (Torn cfg) where
  init := torn_init
  step _ _ _ _ _ torn inTime h := torn_step requests torn inTime h

theorem Torn.nonempty (torn : Torn cfg s t) (p : Fin n) : ¬PopsEmpty s p := by
  rintro ⟨inside, popping, empty⟩
  have items := (torn.sound.accounted p).items
  obtain ⟨extra, -, pool⟩ := torn.pool
  rw [pool] at popping empty
  have popping : (t.partitions p).worker = .popping := popping
  have empty : (t.partitions p).requestsQueue = [] := empty
  rw [popping, empty] at items
  simp [Worker.token] at items

/-! ### A join that waits -/

/-- Some worker can go on, or one ends the process. -/
def Goes (cfg : Config n) (s : State n) : Prop := (∃ p serial, (work cfg s p serial).isSome) ∨ ∃ p, Terminates s p

/-- Between the tests a worker runs, ends the process or waits, as in the pool. -/
theorem Torn.work_or_idle (torn : Torn cfg s t) (still : ¬Goes cfg s) (inside : s.gates p = .inside) :
    Pool.Idle t p := by
  rcases Pool.work_or_idle torn.sound.accounted p with ⟨serial, runs⟩ | ends | idle
  · have token : (t.partitions p).worker = .waiting → 0 < (t.partitions p).semaphore := by
      intro waiting
      by_contra none
      simp [Pool.work, waiting, none] at runs
    obtain ⟨extra, -, pool⟩ := torn.pool
    have own : Pool.work cfg (posted t extra) p serial = (Pool.work cfg t p serial).map (posted · extra) :=
      work_posted _ token
    rw [← pool] at own
    refine absurd (Or.inl ⟨p, serial, ?_⟩) still
    simp only [work, inside, own, Option.isSome_map]
    exact runs
  · refine absurd (Or.inr ⟨p, inside, ?_⟩) still
    obtain ⟨extra, -, pool⟩ := torn.pool
    rw [pool]
    exact ends
  · exact idle

theorem inside_or_exited (still : ¬Goes cfg s) (p : Fin n) :
    s.gates p = .inside ∨ s.gates p = .exited := by
  cases gate : s.gates p with
  | inside => exact Or.inl rfl
  | exited => exact Or.inr rfl
  | looping | checking => exact absurd (Or.inl ⟨p, p, by simp [work, gate]⟩) still

/-- What is not handled when `thread_loop` returns is not taken. -/
theorem Torn.mem_untaken (torn : Torn cfg s t) (exited : s.gates p = .exited) {f : Entry} {j : Nat}
    (queued : (t.partitions p).log[j]? = some f) (later : (t.partitions p).handled ≤ j) :
    f ∈ untaken .exited (t.partitions p) := by
  have line := (torn.sound.accounted p).line
  have gated := torn.gates p
  rw [exited] at gated
  have mem : f ∈ (t.partitions p).log.drop (t.partitions p).handled := by
    refine List.mem_of_getElem? (i := j - (t.partitions p).handled) ?_
    rw [List.getElem?_drop, Nat.add_sub_cancel' later]
    exact queued
  rw [line] at mem
  rcases gated.2 with waiting | ⟨e, handling⟩
  · rw [waiting] at mem
    simpa [untaken, waiting, Worker.entry] using mem
  · rw [handling] at mem
    simpa [untaken, handling, Worker.entry] using mem

/-- **The ordering argument** again: a member that has returned did not leave others behind. -/
theorem Torn.older (torn : Torn cfg s t) (still : ¬Goes cfg s) (begun : s.destroyer ≠ .outside) {b : Nat}
    (stands : Pool.StandsAt t b) : ∃ b' < b, Pool.StandsAt t b' := by
  have sound := torn.sound
  obtain ⟨todo, ready⟩ := torn.finished begun
  obtain ⟨p, e, place, rfl, incomplete⟩ := stands
  obtain ⟨q, f, mem, hf, missing⟩ := Pool.missing_member sound place incomplete
  rw [Pool.plan_of_nil todo] at mem
  rcases inside_or_exited still q with inside | exited
  · exact Pool.older_of_queued sound (torn.paid q) ready (torn.work_or_idle still inside) mem hf missing
  · obtain ⟨j, queued, later⟩ := Pool.not_handled mem hf missing
    have gated := torn.gates q
    rw [exited] at gated
    have unneeded := (torn.cleared q gated.1).unneeded
    rw [exited] at unneeded
    have reached : Pool.Reached t e.message.sAddr p := Or.inr (by rw [place]; rfl)
    have member := Pool.reached_member sound.accounted sound.planned reached
    have same := unneeded f (torn.mem_untaken exited queued later) _ hf p member
    exact absurd (same ▸ reached) missing

/-- **While a join waits, somebody goes on.** -/
theorem Torn.goes (torn : Torn cfg s t) {rest : List (Fin n)} (place : s.destroyer = .joining p rest)
    (waits : s.gates p ≠ .exited) : Goes cfg s := by
  by_contra still
  have begun : s.destroyer ≠ .outside := by
    rw [place]
    exact fun eq => (by cases eq)
  have inside := (inside_or_exited still p).resolve_right waits
  have cleared := torn.current p rest (Or.inr place)
  cases torn.work_or_idle still inside with
  | item waiting empty =>
    refine (torn.cleared p cleared).awake inside waiting ?_
    exact (Pool.item_handled torn.sound.accounted (torn.paid p) (torn.finished begun).2 waiting empty).1
  | @barrier e standing incomplete =>
    exact Pool.no_barrier_of_older (fun _ stands => torn.older still begun stands) _ ⟨p, e, standing, rfl, incomplete⟩

/-! ### The steps that are left -/

/-- The statements a message takes at most. -/
def cost (e : Entry) : Nat := 2 * (e.message.range.getD 0).toNat + 8

/-- The statements that are left of the message in hand, and of the loop. -/
def remaining : Gate → Worker → Nat
  | .exited, _ => 0
  | .looping, _ => 1
  | .checking, .handling e => cost e - 2
  | .checking, _ => 1
  | .inside, .waiting | .inside, .popping => 0
  | .inside, .releasing e => cost e - 1
  | .inside, .handling e => cost e - 3
  | .inside, .scanning _ length i _ => 2 * (length - i).toNat + 3
  | .inside, .reading _ length i _ _ => 2 * (length - (i + 1)).toNat + 4
  | .inside, .atBarrier _ => 3
  | .inside, .destroying _ | .inside, .counting _ _ => 2

/-- What a worker has before it, with the posts of its semaphore. -/
def load (gate : Gate) (part : Partition) : Nat :=
  part.semaphore + (part.requestsQueue.map cost).sum + remaining gate part.worker

theorem load_work {s s' : Pool.State n} (move : Pool.Work cfg s p s') :
    load (.after (s.partitions p).worker (s'.partitions p).worker) (s'.partitions p) <
      load .inside (s.partitions p) := by
  cases move with
  | acquire place token =>
    simp [load, Gate.after, remaining, place]
    omega
  | dequeue place front =>
    simp [load, Gate.after, remaining, place, front, cost]
    omega
  | scan place type range => simp [load, Gate.after, remaining, place, cost, range]
  | key place more =>
    simp [load, Gate.after, remaining, place]
    omega
  | arrive serial place => simp [load, Gate.after, remaining, place, cost]
  | release place | read place | write place | other place | scanned place | hit place | miss place | leave place
  | elect place | destroy place | count place => simp [load, Gate.after, remaining, place, cost]

def effort (s : State n) : Nat := ∑ p, load (s.gates p) (s.pool.partitions p)

theorem effort_work (torn : Torn cfg s t) {serial : Fin n} (h : work cfg s p serial = some s') :
    effort s' < effort s ∧ s'.destroyer = s.destroyer := by
  have gated : Gated (s.gates p) (s.executing p) (s.pool.partitions p).worker := by
    obtain ⟨extra, -, pool⟩ := torn.pool
    rw [pool]
    exact torn.gates p
  -- only the worker's own load changes
  have sum : ∀ {s' : State n}, (∀ q ≠ p, s'.gates q = s.gates q ∧ s'.pool.partitions q = s.pool.partitions q) →
      load (s'.gates p) (s'.pool.partitions p) < load (s.gates p) (s.pool.partitions p) → effort s' < effort s := by
    intro s' others less
    refine Finset.sum_lt_sum (fun q _ => ?_) ⟨p, Finset.mem_univ p, less⟩
    by_cases eq : q = p
    · subst eq
      exact less.le
    · rw [(others q eq).1, (others q eq).2]
  simp only [work] at h
  cases gate : s.gates p with
  | looping =>
    simp only [gate] at h gated
    cases h
    refine ⟨sum (fun q ne => ⟨Function.update_of_ne ne _ _, rfl⟩) ?_, rfl⟩
    have waiting : (s.pool.partitions p).worker = .waiting := gated
    cases executing : s.executing p <;> simp [load, remaining, gate, waiting]
  | checking =>
    simp only [gate] at h gated
    cases h
    refine ⟨sum (fun q ne => ⟨Function.update_of_ne ne _ _, rfl⟩) ?_, rfl⟩
    obtain ⟨e, handling⟩ := gated
    cases executing : s.executing p <;> simp [load, remaining, gate, handling, cost]
  | inside =>
    simp only [gate] at h
    obtain ⟨pool, stepped, rfl⟩ := Option.map_eq_some_iff.mp h
    have move := Pool.work_cases stepped
    refine ⟨sum (fun q ne => ⟨Function.update_of_ne ne _ _, move.others ne⟩) ?_, rfl⟩
    simp only [Function.update_self, gate]
    exact load_work move
  | exited =>
    simp only [gate] at h
    cases h

/-- The join of worker `p` can return, unless a worker ends the process first. -/
def CanReturn (cfg : Config n) (s : State n) (p : Fin n) : Prop :=
  ∃ s', ((system cfg).resume s).Reachable s' ∧ (s'.gates p = .exited ∨ ∃ q, Terminates s' q)

theorem Torn.canReturn (requests : ∀ m ∈ cfg.requests, m.IsRequest) (torn : Torn cfg s t) {rest : List (Fin n)}
    (place : s.destroyer = .joining p rest) : CanReturn cfg s p := by
  refine System.exists_settled (M := system cfg) (P := fun s => s.destroyer = .joining p rest ∧ ∃ t, Torn cfg s t)
    effort ?_ ⟨place, t, torn⟩
  rintro s ⟨place, t, torn⟩
  by_cases exited : s.gates p = .exited
  · exact Or.inl (Or.inl exited)
  rcases torn.goes place exited with ⟨q, serial, runs⟩ | ends
  · obtain ⟨s', step⟩ := Option.isSome_iff_exists.mp runs
    obtain ⟨less, same⟩ := effort_work torn step
    refine Or.inr ⟨.work q serial, s', step, ⟨same.trans place, ?_⟩, less⟩
    rcases torn_step (l := .work q serial) requests torn trivial step with torn' | ⟨k, t', -, torn'⟩
    · exact ⟨t, torn'⟩
    · exact ⟨t', torn'⟩
  · exact Or.inl (Or.inr ends)

/-- No empty queue is popped, and no join waits for good. -/
structure Safe (cfg : Config n) (s : State n) : Prop where
  nonempty : ∀ p, ¬PopsEmpty s p
  joins : ∀ p rest, s.destroyer = .joining p rest → CanReturn cfg s p

/-- **Tear-down is safe** in every run that clears each `executing_` in time and loses no post of `push_request`,
whatever the queues hold, whoever stands at a barrier and in whatever order the destructors and the workers go on: no
worker pops from an empty queue, and whenever a destructor joins a worker the run can go on until that worker has
returned, or a worker ends the process. In time means that the worker is not asleep on an empty queue, where the post
of `~Partition` would have it pop, and that no other partition waits for it at a barrier it will not come to. The two
threads of the scheduler that nobody joins are not part of this. -/
theorem tear_down_safe (cfg : Config n) (requests : ∀ m ∈ cfg.requests, m.IsRequest) (s : State n)
    (via : (system cfg).Via InTime s) : Safe cfg s := by
  obtain ⟨t, -, torn⟩ := (torn_simulation requests).exists_related via
  exact ⟨torn.nonempty, fun p rest place => torn.canReturn requests place⟩

instance (s : State n) (l : Label n) : Decidable (InTime s l) := by
  unfold InTime
  split <;> infer_instance

/-- One partition and one WRITE. -/
def writeConfig : Config 1 where
  capacity := 0
  compresser := ⟨id, some⟩
  storage := Storage.populated ⟨id, some⟩ [0]
  mapping := ⟨Finmap.insert 0 0 ∅, 0⟩
  requests := [{ key := 0, type := .WRITE }]

/-- The WRITE is queued when the destructor comes to the partition. -/
theorem tear_down_safe_write : ∃ s, (system writeConfig).Via InTime s ∧ s.destroyer = .joining 0 [] ∧
    Safe writeConfig s := by
  obtain ⟨s, via, place⟩ := System.exists_via (M := system writeConfig) InTime (P := fun s => s.destroyer = .joining 0 [])
    (.schedule (.dispatch 0 []) :: List.replicate 3 (.schedule .push) ++
      [.work 0 0, .enter [0], .destroy, .destroy]) (by decide +kernel)
  exact ⟨s, via, place, tear_down_safe writeConfig (by decide) s via⟩

/-- A destructor that finds its worker asleep makes it pop the empty queue. -/
theorem asleep_pops_empty {rest : List (Fin n)} (place : s.destroyer = .clearing (p :: rest)) (asleep : Asleep s p) :
    ∃ s', ((system cfg).resume s).Reachable s' ∧ PopsEmpty s' p := by
  obtain ⟨inside, waiting, empty⟩ := asleep
  let part := s.pool.partitions p
  let cleared : State n := { s with executing := Function.update s.executing p false, destroyer := .posting p rest }
  let posted : State n := { cleared with
    pool := s.pool.put p { part with semaphore := semPost (some SEM_VALUE_MAX) part.semaphore } []
    destroyer := .joining p rest }
  let woken : State n := { posted with
    pool := posted.pool.put p { part with
      semaphore := semPost (some SEM_VALUE_MAX) part.semaphore - 1
      worker := .popping } []
    gates := Function.update s.gates p .inside }
  have clear : step cfg s .destroy = some cleared := by simp only [step, destroy, place, cleared]
  have post : step cfg cleared .destroy = some posted := rfl
  have wake : step cfg posted (.work p p) = some woken := by
    simp [step, work, Pool.work, Gate.after, posted, cleared, woken, part, inside, waiting, semPost_pos]
  have start : ((system cfg).resume s).Reachable s := System.Reachable.init
  have joining : ((system cfg).resume s).Reachable posted :=
    System.Reachable.step (l := .destroy) (System.Reachable.step (l := .destroy) start clear) post
  refine ⟨woken, System.Reachable.step (l := .work p p) joining wake, ?_⟩
  simp [PopsEmpty, woken, posted, part, empty]

/-- One partition and no request. -/
def idleConfig : Config 1 := { writeConfig with requests := [] }

/-- Two partitions and a SCAN of a key of each. -/
def scanConfig : Config 2 where
  capacity := 0
  compresser := ⟨id, some⟩
  storage := Storage.populated ⟨id, some⟩ [0, 1]
  mapping := ⟨Finmap.insert 0 0 (Finmap.insert 1 1 ∅), 0⟩
  requests := [{ key := 0, type := .SCAN, args := ['2'] }]

/-- The SYNC that comes before the SCAN. -/
def firstSync : Entry := ⟨0, 0, { type := .SYNC }⟩

/-- Worker 1 stands at the SYNC when partition 0 is deleted, whose worker has not come to it. -/
def scanRun : List (Label 2) :=
  .schedule (.dispatch 0 [1]) :: List.replicate 15 (.schedule .push) ++ List.replicate 6 (.work 1 0) ++
    [.enter [0, 1], .destroy, .destroy, .work 0 0, .destroy, .destroy, .destroy]

/-- An idle worker is made to pop its empty queue; and a join waits for a worker whose barrier lacks a
partition that is deleted. -/
theorem tear_down_unsafe :
    (∃ s, (system idleConfig).Reachable s ∧ PopsEmpty s 0) ∧
      ∃ s, (system scanConfig).Reachable s ∧ s.destroyer = .joining 1 [] ∧ ¬CanReturn scanConfig s 1 := by
  constructor
  · obtain ⟨s, reachable, place, asleep⟩ := System.exists_reachable (M := system idleConfig)
      (P := fun s => s.destroyer = .clearing [0] ∧ Asleep s 0) [.work 0 0, .enter [0]] (by decide +kernel)
    have pops : ∃ s', ((system idleConfig).resume s).Reachable s' ∧ PopsEmpty s' 0 := asleep_pops_empty place asleep
    obtain ⟨s', later, pops⟩ := pops
    exact ⟨s', reachable.trans later, pops⟩
  · obtain ⟨s, reachable, place, returned, inside, standing, incomplete⟩ := System.exists_reachable (M := system scanConfig)
      (P := fun s => s.destroyer = .joining 1 [] ∧ s.gates 0 = .exited ∧ s.gates 1 = .inside ∧
        (s.pool.partitions 1).worker = .atBarrier firstSync ∧ (s.pool.barriers 0).serial = none)
      scanRun (by decide +kernel)
    have two : ∀ p : Fin 2, p = 0 ∨ p = 1 := by decide
    have stuck : ∀ l, (system scanConfig).step s l = none := by
      intro l
      cases l with
      | schedule l => cases l <;> simp [system, step, place]
      | enter order => simp [system, step, place]
      | destroy => simp [system, step, destroy, place, inside]
      | work p serial =>
        rcases two p with rfl | rfl
        · simp [system, step, work, returned]
        · simp [system, step, work, inside, Pool.work, standing, firstSync, incomplete]
    refine ⟨s, reachable, place, ?_⟩
    rintro ⟨s', later, ends⟩
    rw [System.eq_of_stuck stuck later] at ends
    rcases ends with exited | ⟨q, running, ends⟩
    · rw [inside] at exited
      cases exited
    · rcases two q with rfl | rfl
      · rw [returned] at running
        cases running
      · simp [Pool.Terminates, standing] at ends

end TearDown

end KvPaxos
