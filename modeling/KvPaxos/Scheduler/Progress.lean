import KvPaxos.Scheduler.Execution

/-!
# The scheduler and the workers never wait for each other in a cycle

A worker that has nothing to do waits for an item with an empty queue or stands in a
barrier that is not complete (`Idle`). If everything were stuck with work left, take the
oldest barrier some worker stands in: one of its members has not come, and what that
member waits for is an older barrier, or a message the scheduler still has to send, which
is blocked only behind a worker in an older barrier again.

The argument needs a token for every queued message. A post that finds `semaphore_` full is lost,
and then a message can stay in the queue of a worker that sleeps (`overrun_deadlock`).
-/

namespace KvPaxos.Pool

open Lib Lib.Lanes

variable {n : Nat} {cfg : Config n} {s s' : State n} {p q : Fin n} {b : Nat}

/-- A push is outstanding or a pushed message has not been handled. -/
def Outstanding (s : State n) : Prop :=
  s.todo ≠ [] ∨ s.stage ≠ .ready ∨ ∃ p, (s.partitions p).handled < (s.partitions p).log.length

instance (s : State n) : Decidable (Outstanding s) :=
  inferInstanceAs (Decidable (_ ∨ _ ∨ _))

/-- The scheduling thread can go on with its push, or a worker with its next statement. -/
def Enabled (cfg : Config n) (s : State n) : Prop :=
  (push cfg s).isSome ∨ ∃ p serial, (work cfg s p serial).isSome

/-- Worker `p` waits for an item, or for the others at a barrier. -/
inductive Idle (s : State n) (p : Fin n) : Prop
  | item (place : (s.partitions p).worker = .waiting) (empty : (s.partitions p).semaphore = 0)
  | barrier {e : Entry} (place : (s.partitions p).worker = .atBarrier e)
      (incomplete : (s.barriers e.message.sAddr).serial = none)

/-- A worker's next statement runs, ends the process, or waits. -/
theorem work_or_idle (acc : Accounted cfg s) (p : Fin n) :
    (∃ serial, (work cfg s p serial).isSome) ∨ Terminates s p ∨ Idle s p := by
  have items := (acc p).items
  cases place : (s.partitions p).worker with
  | waiting =>
    by_cases token : 0 < (s.partitions p).semaphore
    · exact Or.inl ⟨p, by simp [work, place, token]⟩
    · exact Or.inr (Or.inr (.item place (by omega)))
  | popping =>
    cases front : (s.partitions p).requestsQueue with
    | nil =>
      rw [place, front] at items
      simp only [Worker.token, List.length_nil] at items
      omega
    | cons e rest => exact Or.inl ⟨p, by simp [work, place, front]⟩
  | handling e =>
    cases type : e.message.type with
    | READ =>
      by_cases stored : e.message.key ∈ s.storage
      · obtain ⟨v, hv⟩ := Finmap.mem_iff.mp stored
        exact Or.inl ⟨p, by simp [work, place, handle, type, Storage.read, hv]⟩
      · exact Or.inr (Or.inl (by simp [Terminates, place, type, stored]))
    | SCAN =>
      cases range : e.message.range with
      | none => exact Or.inr (Or.inl (by simp [Terminates, place, type, range]))
      | some length => exact Or.inl ⟨p, by simp [work, place, handle, type, range]⟩
    | SYNC => exact Or.inl ⟨p, by simp only [work, place, handle, type, arrive]; split <;> simp⟩
    | WRITE | ERROR | UPDATE | DUMMY | END => exact Or.inl ⟨p, by simp [work, place, handle, type]⟩
  | scanning e length i values =>
    by_cases more : (i : Int) < length
    · by_cases stored : UnorderedMap.size s.storage = 0
      · exact Or.inr (Or.inl (by simp [Terminates, place, more, stored]))
      · exact Or.inl ⟨p, by simp [work, place, more, stored]⟩
    · exact Or.inl ⟨p, by simp [work, place, more]⟩
  | reading e length i values key =>
    cases value : s.storage.read cfg.compresser key <;> exact Or.inl ⟨p, by simp [work, place, value]⟩
  | atBarrier e =>
    cases serial : (s.barriers e.message.sAddr).serial with
    | none => exact Or.inr (Or.inr (.barrier place serial))
    | some r => exact Or.inl ⟨p, by simp [work, place, serial]⟩
  | releasing e | destroying e | counting e answer => exact Or.inl ⟨p, by simp [work, place]⟩

/-- The scheduling thread's next statement runs, or it has no call, or it waits for a place in the
queue of its next call. -/
theorem push_or_blocked (planned : Planned cfg s) : (push cfg s).isSome ∨ s.stage = .ready ∧
    (s.todo = [] ∨ ∃ p e rest, s.todo = (p, e) :: rest ∧ 0 < cfg.capacity ∧
      (s.partitions p).remainingSpace = 0) := by
  cases stage : s.stage with
  | posting r => exact Or.inl (by simp [push, stage])
  | reserved =>
    cases todo : s.todo with
    | nil => exact absurd todo (planned.reserved stage)
    | cons call rest => exact Or.inl (by simp [push, stage, todo])
  | ready =>
    cases todo : s.todo with
    | nil => exact Or.inr ⟨rfl, Or.inl rfl⟩
    | cons call rest =>
      obtain ⟨r, e⟩ := call
      by_cases unbounded : cfg.capacity = 0
      · exact Or.inl (by simp [push, stage, todo, unbounded])
      · by_cases free : 0 < (s.partitions r).remainingSpace
        · exact Or.inl (by simp [push, stage, todo, unbounded, free])
        · exact Or.inr ⟨rfl, Or.inr ⟨r, e, rest, rfl, by omega, by omega⟩⟩

section Stuck

/-- An idle worker that waits for an item has handled all of its queue, if each message is paid for. -/
theorem item_handled (acc : Accounted cfg s) (paid : Paid s p) (ready : s.stage = .ready)
    (place : (s.partitions p).worker = .waiting) (empty : (s.partitions p).semaphore = 0) :
    (s.partitions p).requestsQueue = [] ∧ (s.partitions p).handled = (s.partitions p).log.length := by
  have line := (acc p).line
  have bound := (acc p).bound
  have posted : unposted s p = 0 := by simp only [unposted, ready]
  unfold Paid tokens at paid
  rw [place, empty, posted] at paid
  have none : (s.partitions p).requestsQueue = [] := List.length_eq_zero_iff.mp paid.symm
  rw [place, none] at line
  have := List.drop_eq_nil_iff.mp line
  exact ⟨none, by omega⟩

/-- A worker behind which the scheduling thread waits for a place stands in a barrier. -/
theorem blocked_at_barrier (acc : Accounted cfg s) (paid : Paid s p) (ready : s.stage = .ready)
    (bounded : 0 < cfg.capacity)
    (full : (s.partitions p).remainingSpace = 0) (idle : Idle s p) :
    ∃ e, (s.partitions p).worker = .atBarrier e ∧ (s.barriers e.message.sAddr).serial = none := by
  cases idle with
  | @barrier e place incomplete => exact ⟨e, place, incomplete⟩
  | item place empty =>
    have places := (acc p).places bounded
    have none := (item_handled acc paid ready place empty).1
    have free : held s p = 0 := by simp only [held, ready]
    rw [full, none, free, place] at places
    simp only [List.length_nil, Worker.space] at places
    omega

/-- The message of a worker at a barrier is in its log, and its issue is the barrier. -/
theorem at_barrier_entry (acc : Accounted cfg s) (planned : Planned cfg s) {e : Entry}
    (place : (s.partitions p).worker = .atBarrier e) :
    (s.partitions p).log[(s.partitions p).handled]? = some e ∧ e.message.sAddr = e.issue := by
  have here := (acc p).current (e := e) (by rw [place]; rfl)
  have typed := (acc p).typed
  rw [place] at typed
  exact ⟨here, planned.address p e (List.mem_append_left _ (List.mem_of_getElem? here)) _
    (Entry.barrier_eq_some.mpr ⟨typed, rfl⟩)⟩

/-- Some worker stands in the incomplete barrier `b`. -/
def StandsAt (s : State n) (b : Nat) : Prop :=
  ∃ p e, (s.partitions p).worker = .atBarrier e ∧ e.message.sAddr = b ∧ (s.barriers b).serial = none

/-- An incomplete barrier lacks a member, whose message for it has not been reached. -/
theorem missing_member (sound : Sound cfg s) {e : Entry} (place : (s.partitions p).worker = .atBarrier e)
    (incomplete : (s.barriers e.message.sAddr).serial = none) :
    ∃ q f, f ∈ plan s q ∧ f.barrier = some e.message.sAddr ∧ ¬Reached s e.message.sAddr q := by
  have planned := sound.planned
  have reachedHere : p ∈ (s.barriers e.message.sAddr).arrived :=
    (sound.synced.arrived _ p).mpr (Or.inr (by rw [place]; rfl))
  have short := sound.synced.waiting _ incomplete (List.ne_nil_of_mem reachedHere)
  obtain ⟨q, member, missing⟩ : ∃ q ∈ (s.barriers e.message.sAddr).members,
      q ∉ (s.barriers e.message.sAddr).arrived := by
    by_contra all
    push Not at all
    have le := (List.subperm_of_subset (planned.membersNodup _) all).length_le
    rw [← planned.count] at le
    omega
  obtain ⟨f, mem, hf⟩ := (planned.members _ q).mp member
  exact ⟨q, f, mem, hf, fun h => missing ((sound.synced.arrived _ q).mpr h)⟩

/-- A queued message for a barrier that has not been reached has not been handled. -/
theorem not_handled {f : Entry} (queued : f ∈ (s.partitions q).log) (hf : f.barrier = some b)
    (missing : ¬Reached s b q) : ∃ j, (s.partitions q).log[j]? = some f ∧ (s.partitions q).handled ≤ j := by
  obtain ⟨j, lt, rfl⟩ := List.mem_iff_getElem.mp queued
  refine ⟨j, List.getElem?_eq_getElem lt, ?_⟩
  by_contra done
  exact missing (Or.inl ⟨_, List.mem_take_iff_getElem.mpr ⟨j, by omega, rfl⟩, hf⟩)

/-- A worker that waits with such a message in its queue stands in an older barrier. -/
theorem older_of_queued (sound : Sound cfg s) (paid : Paid s q) (ready : s.stage = .ready) (idle : Idle s q)
    {f : Entry}
    (queued : f ∈ (s.partitions q).log) (hf : f.barrier = some b) (missing : ¬Reached s b q) :
    ∃ b' < b, StandsAt s b' := by
  have acc := sound.accounted
  have planned := sound.planned
  have fIssue := planned.address q f (List.mem_append_left _ queued) _ hf
  obtain ⟨j, at_, behind⟩ := not_handled queued hf missing
  obtain ⟨lt, eq⟩ := List.getElem?_eq_some_iff.mp at_
  cases idle with
  | item place empty =>
    have := (item_handled acc paid ready place empty).2
    omega
  | @barrier e place incomplete =>
    obtain ⟨here, issue⟩ := at_barrier_entry acc planned place
    obtain ⟨less, first⟩ := List.getElem?_eq_some_iff.mp here
    have ne : (s.partitions q).handled ≠ j := by
      rintro rfl
      refine missing (Or.inr ?_)
      rw [first] at eq
      subst eq
      rw [place]
      exact congrArg some (Entry.barrier_eq_some.mp hf).2
    have before := List.pairwise_iff_getElem.mp (List.pairwise_append.mp (planned.sorted q)).1 _ j less lt (by omega)
    rw [first, eq] at before
    exact ⟨e.message.sAddr, by omega, q, e, place, rfl, incomplete⟩

/-- **The ordering argument.** If everything waits, a worker in an incomplete barrier implies one in
an older incomplete barrier. -/
theorem older_barrier (sound : Sound cfg s) (paid : ∀ p, Paid s p) (ready : s.stage = .ready)
    (idle : ∀ p, Idle s p)
    (blocked : ∀ c ∈ s.todo.head?, 0 < cfg.capacity ∧ (s.partitions c.1).remainingSpace = 0)
    (stands : StandsAt s b) : ∃ b' < b, StandsAt s b' := by
  have acc := sound.accounted
  have planned := sound.planned
  obtain ⟨p, e, place, rfl, incomplete⟩ := stands
  obtain ⟨q, f, mem, hf, missing⟩ := missing_member sound place incomplete
  have fIssue := planned.address q f mem _ hf
  rcases List.mem_append.mp mem with queued | toSend
  · -- its message is in the queue, behind the barrier it stands in
    exact older_of_queued sound (paid q) ready (idle q) queued hf missing
  · -- its message is still to be sent, and the scheduling thread is blocked
    have inTodo := mem_pending.mp toSend
    cases todo : s.todo with
    | nil =>
      rw [todo] at inTodo
      cases inTodo
    | cons call rest =>
      obtain ⟨bounded, full⟩ := blocked call (by rw [todo]; rfl)
      obtain ⟨e', place', incomplete'⟩ := blocked_at_barrier acc (paid call.1) ready bounded full (idle call.1)
      obtain ⟨here', issue'⟩ := at_barrier_entry acc planned place'
      have first : call.2.issue ≤ f.issue := by
        have calls := planned.calls
        rw [todo] at calls inTodo
        rcases List.mem_cons.mp inTodo with same | later
        · rw [← same]
        · exact List.rel_of_pairwise_cons calls later
      have before : e'.issue < call.2.issue := by
        refine (List.pairwise_append.mp (planned.sorted call.1)).2.2 e' (List.mem_of_getElem? here') call.2 ?_
        exact mem_pending.mpr (by rw [todo]; exact List.mem_cons_self)
      exact ⟨e'.message.sAddr, by omega, call.1, e', place', rfl, incomplete'⟩

/-- There is no oldest barrier that somebody stands in. -/
theorem no_barrier_of_older (older : ∀ b, StandsAt s b → ∃ b' < b, StandsAt s b') : ∀ b, ¬StandsAt s b := by
  intro b
  induction b using Nat.strong_induction_on with
  | _ b ih =>
    intro stands
    obtain ⟨b', lt, stands'⟩ := older b stands
    exact ih b' lt stands'

/-- If everything waits, no worker stands in a barrier. -/
theorem no_barrier (sound : Sound cfg s) (paid : ∀ p, Paid s p) (ready : s.stage = .ready)
    (idle : ∀ p, Idle s p)
    (blocked : ∀ c ∈ s.todo.head?, 0 < cfg.capacity ∧ (s.partitions c.1).remainingSpace = 0) :
    ∀ b, ¬ StandsAt s b :=
  no_barrier_of_older fun _ stands => older_barrier sound paid ready idle blocked stands

/-- **Work that is left can go on**, unless a worker's next statement ends the process. -/
theorem Outstanding.enabled (sound : Sound cfg s) (paid : ∀ p, Paid s p) (left : Outstanding s) :
    Enabled cfg s ∨ ∃ p, Terminates s p := by
  by_contra stuck
  push Not at stuck
  obtain ⟨disabled, alive⟩ := stuck
  have acc := sound.accounted
  have idle : ∀ p, Idle s p := by
    intro p
    rcases work_or_idle acc p with ⟨serial, h⟩ | h | h
    · exact absurd (Or.inr ⟨p, serial, h⟩) disabled
    · exact absurd h (alive p)
    · exact h
  rcases push_or_blocked sound.planned with h | ⟨ready, todo⟩
  · exact disabled (Or.inl h)
  have blocked : ∀ c ∈ s.todo.head?, 0 < cfg.capacity ∧ (s.partitions c.1).remainingSpace = 0 := by
    intro c hc
    rcases todo with todo | ⟨p, e, rest, todo, bounded, full⟩
    · rw [todo] at hc
      cases hc
    · rw [todo] at hc
      cases hc
      exact ⟨bounded, full⟩
  have none := no_barrier sound paid ready idle blocked
  -- so every worker waits for an item, and no message is left
  have waiting : ∀ p, (s.partitions p).worker = .waiting ∧ (s.partitions p).semaphore = 0 := by
    intro p
    cases idle p with
    | item place empty => exact ⟨place, empty⟩
    | barrier place incomplete => exact absurd ⟨p, _, place, rfl, incomplete⟩ (none _)
  rcases left with left | left | ⟨p, left⟩
  · rcases todo with todo | ⟨p, e, rest, -, bounded, full⟩
    · exact left todo
    · obtain ⟨e', place, -⟩ := blocked_at_barrier acc (paid p) ready bounded full (idle p)
      rw [(waiting p).1] at place
      cases place
  · exact left ready
  · have := (item_handled acc (paid p) ready (waiting p).1 (waiting p).2).2
    omega

end Stuck

/-- Nothing is outstanding exactly when everything is quiet. -/
theorem quiescent_iff (acc : Accounted cfg s) : Quiescent s ↔ ¬ Outstanding s := by
  constructor
  · rintro quiet (h | h | ⟨p, h⟩)
    · exact h quiet.todo
    · exact h quiet.stage
    · have all := quiet.handled acc p
      rw [plan_of_nil quiet.todo] at all
      have := congrArg List.length all
      rw [List.length_take] at this
      omega
  · intro h
    have todo : s.todo = [] := by
      by_contra ne
      exact h (Or.inl ne)
    have ready : s.stage = .ready := by
      by_contra ne
      exact h (Or.inr (Or.inl ne))
    refine ⟨todo, ready, fun p => ?_⟩
    have line := (acc p).line
    have items := (acc p).items
    have all : (s.partitions p).log.length ≤ (s.partitions p).handled := by
      by_contra lt
      exact h (Or.inr (Or.inr ⟨p, by omega⟩))
    rw [List.drop_eq_nil_of_le all] at line
    obtain ⟨hand, queue⟩ := List.append_eq_nil_iff.mp line.symm
    refine ⟨?_, queue⟩
    rw [queue] at items
    cases place : (s.partitions p).worker with
    | waiting => rfl
    | popping =>
      rw [place] at items
      simp only [Worker.token, List.length_nil] at items
      omega
    | _ =>
      rw [place] at hand
      cases hand

/-! ### The use of a barrier -/

theorem Sound.complete (sound : Sound cfg s) (released : (s.barriers b).serial ≠ none) :
    (s.barriers b).arrived.Perm (s.barriers b).members := by
  have acc := sound.accounted
  have planned := sound.planned
  have synced := sound.synced
  obtain ⟨r, hr⟩ := Option.ne_none_iff_exists'.mp released
  have full := (synced.released b r hr).2
  refine (List.perm_ext_iff_of_nodup (synced.nodup b) (planned.membersNodup b)).mpr fun p => ?_
  exact ⟨fun mem => reached_member acc planned ((synced.arrived b p).mp mem),
    fun mem => released_members acc planned synced full mem⟩

section Overrun

/-- A WRITE of key 0. -/
def writeZero : ClientMessage := { key := 0, type := .WRITE }

/-- One partition with an unbounded queue, and one WRITE more than its semaphore counts. -/
def overrunConfig : Config 1 where
  capacity := 0
  compresser := ⟨id, some⟩
  storage := Storage.populated ⟨id, some⟩ [0]
  mapping := ⟨Finmap.insert 0 ⟨0, Nat.one_pos⟩ ∅, ⟨0, Nat.one_pos⟩⟩
  requests := List.replicate (SEM_VALUE_MAX + 1) writeZero

/-- Nothing is being pushed, the worker waits with `tokens` tokens, and `waiting` WRITEs are in its queue. -/
structure Between (tokens waiting : Nat) (s : State 1) : Prop where
  mapping : s.mapping = overrunConfig.mapping
  ready : s.stage = .ready
  todo : s.todo = []
  worker : (s.partitions 0).worker = .waiting
  semaphore : (s.partitions 0).semaphore = tokens
  length : (s.partitions 0).requestsQueue.length = waiting
  writes : ∀ e ∈ (s.partitions 0).requestsQueue, e.message = writeZero

variable {s : State 1}

/-- A WRITE is pushed before the worker moves. -/
theorem Between.write {k : Nat} (at_ : Between (min k SEM_VALUE_MAX) k s) (reach : (system overrunConfig).Reachable s)
    (dispatched : s.dispatched = k) (more : k ≤ SEM_VALUE_MAX) :
    ∃ s', (system overrunConfig).Reachable s' ∧ s'.dispatched = k + 1 ∧
      Between (min (k + 1) SEM_VALUE_MAX) (k + 1) s' := by
  obtain ⟨mapping, ready, todo, worker, semaphore, length, writes⟩ := at_
  have next : overrunConfig.requests[s.dispatched]? = some writeZero := by
    rw [dispatched, overrunConfig, List.getElem?_replicate, if_pos (by omega)]
  have involved : s.mapping.involvedPartitions writeZero = some (overrunConfig.mapping, {0}) := by
    rw [mapping]
    rfl
  let e : Entry := ⟨s.issue + 1, s.dispatched, writeZero⟩
  let t₁ : State 1 := { s with
    mapping := overrunConfig.mapping
    crossPartitionCount := s.crossPartitionCount + 0
    dispatched := s.dispatched + 1
    issue := s.issue + 3
    todo := [(0, e)] }
  let t₂ : State 1 := { t₁ with stage := .reserved }
  let part := s.partitions 0
  let queued : Partition := { part with requestsQueue := part.requestsQueue ++ [e], log := part.log ++ [e] }
  let t₃ : State 1 := { t₂.put 0 queued [] with todo := [], stage := .posting 0 }
  let t₄ : State 1 := { t₃.put 0 { queued with semaphore := semPost (some SEM_VALUE_MAX) part.semaphore } [] with
    stage := .ready }
  have dispatch : (system overrunConfig).step s (.dispatch 0 []) = some t₁ := by
    simp [system, step, dispatch, ready, todo, next, involved, dispatchCalls, t₁, e]
  have skip : (system overrunConfig).step t₁ .push = some t₂ := by
    simp [system, step, push, ready, t₁, t₂, overrunConfig]
  have enqueue : (system overrunConfig).step t₂ .push = some t₃ := rfl
  have post : (system overrunConfig).step t₃ .push = some t₄ := by
    simp [system, step, push, t₃, t₄, queued]
  have posted : semPost (some SEM_VALUE_MAX) (min k SEM_VALUE_MAX) = min (k + 1) SEM_VALUE_MAX := by
    unfold semPost
    split
    · rename_i full
      have := Option.some_inj.mp full
      omega
    · rename_i notFull
      have : min k SEM_VALUE_MAX ≠ SEM_VALUE_MAX := fun eq => notFull (congrArg some eq.symm)
      omega
  refine ⟨t₄, (((reach.step dispatch).step skip).step enqueue).step post, by simp [t₄, t₃, t₂, t₁, dispatched], ?_⟩
  have queue : (t₄.partitions 0).requestsQueue = (s.partitions 0).requestsQueue ++ [e] := by simp [t₄, queued, part]
  refine ⟨rfl, rfl, rfl, by simp [t₄, queued, part, worker], ?_, by rw [queue, List.length_append, length]; rfl, ?_⟩
  · simp [t₄, part, semaphore, posted]
  · intro f mem
    rw [queue] at mem
    rcases List.mem_append.mp mem with old | new
    · exact writes f old
    · rw [List.mem_singleton.mp new]

/-- The worker takes a token and executes the WRITE at the front. -/
theorem Between.execute {tokens waiting : Nat} (at_ : Between (tokens + 1) (waiting + 1) s)
    (reach : (system overrunConfig).Reachable s) :
    ∃ s', (system overrunConfig).Reachable s' ∧ s'.dispatched = s.dispatched ∧ Between tokens waiting s' := by
  obtain ⟨mapping, ready, todo, worker, semaphore, length, writes⟩ := at_
  obtain ⟨e, rest, front⟩ := List.exists_cons_of_length_eq_add_one length
  have write : e.message = writeZero := writes e (by rw [front]; exact List.mem_cons_self)
  let taken : Partition := { s.partitions 0 with semaphore := tokens, worker := .popping }
  let popped : Partition := { taken with requestsQueue := rest, worker := .releasing e }
  let holding : Partition := { popped with worker := .handling e }
  let written : Partition := { holding with worker := .counting e e.message.args }
  let done : Partition := { written with
    worker := .waiting
    nExecutedRequests := written.nExecutedRequests + 1
    handled := written.handled + 1 }
  obtain ⟨t₁, ht₁⟩ : ∃ t, t = s.put 0 taken [] := ⟨_, rfl⟩
  have acquire : (system overrunConfig).step s (.work 0 0) = some t₁ := by
    simp [system, step, work, worker, semaphore, ht₁, taken]
  have here₁ : t₁.partitions 0 = taken := by rw [ht₁, put_partitions, Function.update_self]
  obtain ⟨t₂, ht₂⟩ : ∃ t, t = t₁.put 0 popped [] := ⟨_, rfl⟩
  have dequeue : (system overrunConfig).step t₁ (.work 0 0) = some t₂ := by
    simp only [system, step, work, here₁, taken, front, ht₂, popped]
  have here₂ : t₂.partitions 0 = popped := by rw [ht₂, put_partitions, Function.update_self]
  obtain ⟨t₃, ht₃⟩ : ∃ t, t = t₂.put 0 holding [] := ⟨_, rfl⟩
  have release : (system overrunConfig).step t₂ (.work 0 0) = some t₃ := by
    simp only [system, step, work, here₂, popped, ht₃, holding, overrunConfig, Nat.lt_irrefl, if_false]
  have here₃ : t₃.partitions 0 = holding := by rw [ht₃, put_partitions, Function.update_self]
  obtain ⟨t₄, ht₄⟩ : ∃ t, t = { t₃.put 0 written [.start 0 e.number, .write 0 e.number] with
    storage := t₃.storage.write overrunConfig.compresser e.message.key e.message.args } := ⟨_, rfl⟩
  have type : e.message.type = .WRITE := by rw [write]; rfl
  have execute : (system overrunConfig).step t₃ (.work 0 0) = some t₄ := by
    simp only [system, step, work, here₃, holding, handle, type, ht₄, written]
  have here₄ : t₄.partitions 0 = written := by rw [ht₄, put_partitions, Function.update_self]
  have count : (system overrunConfig).step t₄ (.work 0 0) =
      some (t₄.put 0 done [.finish 0 e.number e.message.args]) := by
    simp only [system, step, work, here₄, written, done]
  have same : t₄.mapping = s.mapping ∧ t₄.stage = s.stage ∧ t₄.todo = s.todo ∧ t₄.dispatched = s.dispatched := by
    rw [ht₄, ht₃, ht₂, ht₁]
    exact ⟨rfl, rfl, rfl, rfl⟩
  have reached := ((((reach.step acquire).step dequeue).step release).step execute).step count
  have here₅ : (t₄.put 0 done [.finish 0 e.number e.message.args]).partitions 0 = done := by
    rw [put_partitions, Function.update_self]
  refine ⟨_, reached, same.2.2.2, same.1.trans mapping, same.2.1.trans ready, same.2.2.1.trans todo, ?_, ?_, ?_,
    fun f mem => writes f ?_⟩
  · rw [here₅]
  · rw [here₅]
  · rw [front, List.length_cons] at length
    rw [here₅]
    exact Nat.succ_inj.mp length
  · rw [here₅] at mem
    rw [front]
    exact List.mem_cons_of_mem _ mem

end Overrun

end KvPaxos.Pool
