import KvPaxos.Scheduler.Replica
import KvPaxos.Scheduler.TearDown

/-!
# Every run can be completed

A worker's process ends at a READ of a missing key, which nothing catches, and at a SCAN of the empty
storage. A workload that reads stored keys only is `Answerable`: the storage a READ meets is ordered
behind the WRITE of its key, so no worker ever gets there. What then goes on while work is left
(`Outstanding.enabled`) comes to an end, by the statements that are left.

A worker is sent at most three messages for a request. As long as these fit into its semaphore with what it
has been sent before (`Room`), no post is lost on the way.
-/

namespace KvPaxos.Pool

open Lib

variable {n : Nat} {cfg : Config n} {s s' : State n} {p : Fin n} {k : Nat}

/-- Every READ is of a key that is populated or written by an earlier request, and there is something to scan. -/
structure Answerable (cfg : Config n) : Prop where
  reads : ∀ k m, cfg.requests[k]? = some m → m.type = .READ → m.key ∈ met cfg k
  scans : ∀ m ∈ cfg.requests, m.type = .SCAN → UnorderedMap.size cfg.storage ≠ 0

/-- The storage only grows. -/
theorem Stored.size_ne_zero (stored : Stored cfg s) (some : UnorderedMap.size cfg.storage ≠ 0) :
    UnorderedMap.size s.storage ≠ 0 := by
  obtain ⟨x, mem⟩ := Finset.card_ne_zero.mp some
  exact Storage.size_ne_zero ((stored.keys x).mpr (Or.inl (Finmap.mem_keys.mp mem)))

/-- **No worker ends the process** on an answerable workload. -/
theorem Answerable.alive (answerable : Answerable cfg) (requests : ∀ m ∈ cfg.requests, m.IsRequest)
    (uniform : cfg.storage.Uniform cfg.compresser) (reach : (system cfg).Reachable s) (p : Fin n) : ¬Terminates s p := by
  obtain ⟨sound, ordered, rec⟩ := reachable_recorded requests reach
  have stored := reachable_stored requests uniform reach
  have typed := (sound.accounted p).typed
  unfold Terminates
  cases place : (s.partitions p).worker with
  | handling e =>
    have hold : (s.partitions p).worker.entry = some e := by rw [place]; rfl
    rintro (⟨type, missing⟩ | ⟨type, none⟩)
    · have request : e.barrier = none := Entry.barrier_eq_none.mpr (by rw [type]; decide)
      have here := current_message sound hold request
      have own : e.message.key ∈ e.message.keys := by
        rw [ClientMessage.keys_of_not_scan (by rw [type]; decide)]
        exact List.mem_singleton.mpr rfl
      refine missing ((present_iff sound ordered rec stored hold request (by rw [type]; decide) own).mpr ?_)
      exact answerable.reads e.number e.message here type
    · have here := current_message sound hold (Entry.barrier_eq_none.mpr (by rw [type]; decide))
      obtain ⟨length, range, -⟩ := (requests _ (List.mem_of_getElem? here)).range
      rw [none] at range
      cases range
  | scanning e length i values =>
    rw [place] at typed
    rintro ⟨-, empty⟩
    have hold : (s.partitions p).worker.entry = some e := by rw [place]; rfl
    have here := current_message sound hold (Entry.barrier_eq_none.mpr (by rw [typed.1]; decide))
    exact stored.size_ne_zero (answerable.scans _ (List.mem_of_getElem? here) typed.1) empty
  | _ => exact id

/-! ### The statements that are left -/

/-- Of a worker: its semaphore, its queue and the message in its hand. -/
def left (part : Partition) : Nat := TearDown.load .inside part

theorem left_work (move : Work cfg s p s') : left (s'.partitions p) < left (s.partitions p) := by
  refine Nat.lt_of_le_of_lt ?_ (TearDown.load_work move)
  unfold left TearDown.load
  refine Nat.add_le_add_left ?_ _
  cases move <;> simp_all [TearDown.Gate.after, TearDown.remaining]
  omega

/-- Of the scheduling thread's place in `push_request`. -/
def stageLeft : Stage n → Nat
  | .ready => 1
  | .reserved => 0
  | .posting _ => 3

/-- Of the calls it has still to make. -/
def callsLeft (todo : List (Fin n × Entry)) : Nat := (todo.map fun call => TearDown.cost call.2 + 4).sum

/-- Of a request before its dispatch: two SYNC messages to each partition and the request itself. -/
def requestLeft (n : Nat) (m : ClientMessage) : Nat := 28 * n + 2 * (m.range.getD 0).toNat + 13

/-- All that is left. -/
def effort (cfg : Config n) (s : State n) : Nat :=
  ((cfg.requests.drop s.dispatched).map (requestLeft n)).sum + callsLeft s.todo + stageLeft s.stage + ∑ p, left (s.partitions p)

/-- Only one partition's share changes. -/
theorem sum_left_put (part : Partition) (events : List (Event n)) :
    ∑ q, left ((s.put p part events).partitions q) + left (s.partitions p) = ∑ q, left (s.partitions q) + left part := by
  have others : ∀ q ∈ Finset.univ.erase p, left ((s.put p part events).partitions q) = left (s.partitions q) := by
    intro q mem
    rw [put_partitions, Function.update_of_ne (Finset.ne_of_mem_erase mem)]
  rw [← Finset.add_sum_erase Finset.univ _ (Finset.mem_univ p), Finset.sum_congr rfl others,
    ← Finset.add_sum_erase Finset.univ (fun q => left (s.partitions q)) (Finset.mem_univ p), put_partitions,
    Function.update_self]
  omega

theorem effort_work (move : Work cfg s p s') : effort cfg s' < effort cfg s := by
  have same := move.sameCalls
  have less : ∑ q, left (s'.partitions q) < ∑ q, left (s.partitions q) := by
    refine Finset.sum_lt_sum (fun q _ => ?_) ⟨p, Finset.mem_univ p, left_work move⟩
    by_cases eq : q = p
    · subst eq
      exact (left_work move).le
    · rw [move.others eq]
  unfold effort
  rw [same.dispatched, same.todo, same.stage]
  omega

/-- Each of the three statements of a push brings the end nearer: the last two pay for what the entry costs its
worker. -/
theorem effort_push (move : Push cfg s s') : effort cfg s' < effort cfg s := by
  cases move with
  | skip stage todo =>
    simp only [effort, stage, stageLeft]
    omega
  | @reserve p e rest stage todo =>
    have sum := sum_left_put (s := s) (p := p) { s.partitions p with remainingSpace := (s.partitions p).remainingSpace - 1 } []
    simp only [effort, stage, stageLeft, put_todo, put_dispatched]
    simp only [left, TearDown.load] at sum ⊢
    omega
  | @enqueue p e rest stage todo =>
    have sum := sum_left_put (s := s) (p := p) { s.partitions p with
      requestsQueue := (s.partitions p).requestsQueue ++ [e]
      log := (s.partitions p).log ++ [e] } []
    simp only [effort, stage, stageLeft, put_dispatched, todo, callsLeft, List.map_cons, List.sum_cons]
    simp only [left, TearDown.load, List.map_append, List.sum_append, List.map_cons, List.map_nil, List.sum_cons,
      List.sum_nil] at sum ⊢
    omega
  | @post p stage =>
    have sum := sum_left_put (s := s) (p := p) { s.partitions p with
      semaphore := semPost (some SEM_VALUE_MAX) (s.partitions p).semaphore } []
    have post := semPost_le (some SEM_VALUE_MAX) (s.partitions p).semaphore
    simp only [effort, stage, stageLeft, put_todo, put_dispatched]
    simp only [left, TearDown.load] at sum ⊢
    omega

/-- The next request can be dispatched when nothing is under way. -/
theorem exists_dispatch (requests : ∀ m ∈ cfg.requests, m.IsRequest) (quiet : Quiescent s)
    (more : s.dispatched < cfg.requests.length) : ∃ first rest s', dispatch cfg s first rest = some s' := by
  have next := List.getElem?_eq_getElem more
  have request := requests _ (List.getElem_mem more)
  obtain ⟨length, range, pos⟩ := request.range
  obtain ⟨⟨mapping, partitions⟩, involved⟩ : ∃ r, s.mapping.involvedPartitions cfg.requests[s.dispatched] = some r := by
    unfold Mapping.involvedPartitions
    rw [range]
    exact ⟨_, rfl⟩
  have first : cfg.requests[s.dispatched].key ∈ cfg.requests[s.dispatched].keys :=
    (ClientMessage.mem_keys range).mpr (by omega)
  obtain ⟨q, mem, -⟩ := (Mapping.involvedPartitions_spec involved).covered _ first
  cases order : partitions.toList with
  | nil =>
    rw [Finset.toList_eq_nil.mp order] at mem
    cases mem
  | cons first rest =>
    have listing : (first :: rest).Nodup ∧ (first :: rest).toFinset = partitions := by
      rw [← order]
      exact ⟨partitions.nodup_toList, partitions.toList_toFinset⟩
    have step : (dispatch cfg s first rest).isSome := by
      simp only [dispatch, quiet.stage, quiet.todo, next, involved, Option.bind_some, if_pos listing, Option.isSome_some]
    exact ⟨first, rest, Option.isSome_iff_exists.mp step⟩

/-! ### Room in the semaphores -/

/-- What each worker has been sent, is being sent and can be sent for the requests still to come fits into its
semaphore. -/
def Room (cfg : Config n) (s : State n) : Prop :=
  ∀ p, (plan s p).length + 3 * (cfg.requests.length - s.dispatched) ≤ SEM_VALUE_MAX

theorem Room.paid (room : Room cfg s) (sound : Sound cfg s) (p : Fin n) : Paid s p := by
  refine sound.short p ?_
  have fits := room p
  unfold plan at fits
  rw [List.length_append] at fits
  omega

/-- Queuing and executing messages keeps the room. -/
theorem Room.of_same (room : Room cfg s) (plans : ∀ p, plan s' p = plan s p) (same : s'.dispatched = s.dispatched) :
    Room cfg s' := by
  intro p
  rw [plans p, same]
  exact room p

/-- A dispatch uses the room kept for its request. -/
theorem Room.dispatch (room : Room cfg s) (requests : ∀ m ∈ cfg.requests, m.IsRequest) {first : Fin n}
    {rest : List (Fin n)} (h : Dispatch cfg s first rest s') (more : s.dispatched < cfg.requests.length) :
    Room cfg s' := by
  intro p
  have fits := room p
  have setUp := h.setUp requests
  have calls := setUp.pending_length p
  have next : s'.dispatched = s.dispatched + 1 := by
    cases h
    rfl
  rw [setUp.plan_eq, List.length_append, next]
  omega

end KvPaxos.Pool
