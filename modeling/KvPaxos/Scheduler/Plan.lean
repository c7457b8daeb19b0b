import Mathlib.Order.Interval.Finset.Nat
import Mathlib.Data.Fintype.BigOperators
import KvPaxos.Scheduler.Accounts

/-!
# The lines of messages the scheduler lays out

`plan s p` is everything that has been or will be queued on partition `p` by the calls
under way: it grows when `dispatch` or a repartition sets up its calls and does not change
while the calls and the workers run. So what the scheduler guarantees about order is a
fact about plans (`Planned`): issue numbers increase along each of them, a SYNC message
carries its own issue number as its barrier, and each dispatched request has one place.
-/

namespace KvPaxos

theorem Entry.barrier_eq_some {e : Entry} {b : Nat} :
    e.barrier = some b ↔ e.message.type = .SYNC ∧ e.message.sAddr = b := by
  unfold Entry.barrier
  split <;> simp_all

theorem Entry.barrier_eq_none {e : Entry} : e.barrier = none ↔ e.message.type ≠ .SYNC := by
  unfold Entry.barrier
  split <;> simp_all

namespace Pool

variable {n : Nat} {cfg : Config n} {s s' : State n} {p : Fin n}

/-- How many of the messages are requests whose number meets `P`. -/
def countWhere (P : Nat → Bool) (l : List Entry) : Nat :=
  l.countP fun e => e.message.type ≠ .SYNC && P e.number

theorem countWhere_true (l : List Entry) : countWhere (fun _ => true) l = countRequests l := by
  simp [countWhere, countRequests]

/-- The calls of `todo` for partition `p`. -/
def pending (todo : List (Fin n × Entry)) (p : Fin n) : List Entry :=
  todo.filterMap fun call => if call.1 = p then some call.2 else none

/-- The messages of partition `p`, queued or still to be queued. -/
def plan (s : State n) (p : Fin n) : List Entry :=
  (s.partitions p).log ++ pending s.todo p

theorem pending_cons (q : Fin n) (e : Entry) (todo : List (Fin n × Entry)) (p : Fin n) :
    pending ((q, e) :: todo) p = (if q = p then [e] else []) ++ pending todo p := by
  by_cases h : q = p <;> simp [pending, h]

theorem pending_append (l l' : List (Fin n × Entry)) (p : Fin n) :
    pending (l ++ l') p = pending l p ++ pending l' p :=
  List.filterMap_append

theorem mem_pending {todo : List (Fin n × Entry)} {e : Entry} :
    e ∈ pending todo p ↔ (p, e) ∈ todo := by
  unfold pending
  rw [List.mem_filterMap]
  constructor
  · rintro ⟨⟨q, f⟩, mem, h⟩
    split at h
    · rename_i eq
      cases eq
      cases h
      exact mem
    · cases h
  · intro mem
    exact ⟨(p, e), mem, by simp⟩

/-- The message of one SYNC round, for each of its partitions. -/
def syncEntry (syncCounter : Int) (issue number : Nat) : Entry :=
  ⟨issue, number, createSyncRequest syncCounter issue⟩

theorem syncEntry_barrier (syncCounter : Int) (issue number : Nat) :
    (syncEntry syncCounter issue number).barrier = some issue := rfl

theorem pending_sync {order : List (Fin n)} (nodup : order.Nodup) (c : Int) (issue number : Nat)
    (p : Fin n) :
    pending (syncPartitions c issue number order) p =
      if p ∈ order then [syncEntry c issue number] else [] := by
  induction order with
  | nil => rfl
  | cons q order ih =>
    obtain ⟨fresh, nodup⟩ := List.nodup_cons.mp nodup
    simp only [syncPartitions, List.map_cons] at ih ⊢
    rw [pending_cons, ih nodup]
    by_cases eq : q = p
    · subst eq
      rw [if_pos rfl, if_neg fresh, if_pos List.mem_cons_self]
      rfl
    · rw [if_neg eq, List.nil_append]
      by_cases mem : p ∈ order
      · rw [if_pos mem, if_pos (List.mem_cons_of_mem _ mem)]
      · rw [if_neg mem, if_neg (by simp [mem, Ne.symm eq])]

/-- The request of a dispatch as it stands on a queue. -/
def requestEntry (s : State n) (request : ClientMessage) : Entry :=
  ⟨s.issue + 1, s.dispatched, request⟩

/-- What one `dispatch` adds to the plan of `p`: the request alone on its only partition, or
between the two SYNC messages on every involved one. -/
theorem pending_dispatch {first : Fin n} {rest : List (Fin n)} (nodup : (first :: rest).Nodup)
    (request : ClientMessage) (p : Fin n) :
    pending (dispatchCalls s.syncCounter s.issue s.dispatched request first rest) p =
      if rest = [] then if first = p then [requestEntry s request] else []
      else if p ∈ first :: rest then
        syncEntry s.syncCounter s.issue s.dispatched ::
          ((if first = p then [requestEntry s request] else []) ++
            [syncEntry s.syncCounter (s.issue + 2) s.dispatched])
      else [] := by
  unfold dispatchCalls
  by_cases single : rest = []
  · rw [if_pos single, if_pos single, pending_cons]
    simp [pending, requestEntry]
  · rw [if_neg single, if_neg single, pending_append, pending_append, pending_sync nodup,
      pending_sync nodup, pending_cons]
    by_cases mem : p ∈ first :: rest
    · rw [if_pos mem, if_pos mem, if_pos mem]
      simp [pending, requestEntry]
    · have ne : first ≠ p := fun h => mem (h ▸ List.mem_cons_self)
      rw [if_neg mem, if_neg mem, if_neg mem, if_neg ne]
      rfl

theorem Work.plan_eq (h : Work cfg s p s') (q : Fin n) : plan s' q = plan s q := by
  unfold plan
  rw [h.log q, h.sameCalls.todo]

/-- Making a call moves its message from the pending part of the plan to the log. -/
theorem Push.plan_eq (h : Push cfg s s') (q : Fin n) : plan s' q = plan s q := by
  unfold plan
  cases h with
  | skip => rfl
  | @reserve p =>
    by_cases eq : q = p
    · subst eq
      simp
    · simp [Function.update_of_ne eq]
  | @enqueue p e rest stage todo =>
    rw [todo, pending_cons]
    by_cases eq : q = p
    · subst eq
      simp
    · simp [Function.update_of_ne eq, Ne.symm eq]
  | @post p =>
    by_cases eq : q = p
    · subst eq
      simp
    · simp [Function.update_of_ne eq]

/-- What setting up calls does, by `dispatch` or by a repartition: fresh increasing issue numbers, a
barrier for every SYNC group, and at most one request, on one partition. -/
structure SetUp (cfg : Config n) (s s' : State n) : Prop where
  ready : s.stage = .ready
  empty : s.todo = []
  stage : s'.stage = .ready
  partitions : s'.partitions = s.partitions
  storage : s'.storage = s.storage
  trace : s'.trace = s.trace
  issue : s'.issue = s.issue + 3
  lower : ∀ c ∈ s'.todo, s.issue ≤ c.2.issue
  upper : ∀ c ∈ s'.todo, c.2.issue < s'.issue
  ordered : s'.todo.Pairwise fun a b => a.2.issue ≤ b.2.issue
  sorted : ∀ p, (pending s'.todo p).Pairwise fun a b => a.issue < b.issue
  address : ∀ c ∈ s'.todo, ∀ b, c.2.barrier = some b → b = c.2.issue
  barriers : ∀ b, (s'.barriers b = s.barriers b ∧ ∀ c ∈ s'.todo, c.2.barrier ≠ some b) ∨
    (s.issue ≤ b ∧ ∃ order : List (Fin n), order.Nodup ∧ order ≠ [] ∧ s'.barriers b = Barrier.create order ∧
      ∀ p, p ∈ order ↔ ∃ e ∈ pending s'.todo p, e.barrier = some b)
  request : (s'.dispatched = s.dispatched ∧ ∀ c ∈ s'.todo, c.2.barrier ≠ none) ∨
    (s'.dispatched = s.dispatched + 1 ∧ ∃ first m, cfg.requests[s.dispatched]? = some m ∧
      (first, requestEntry s m) ∈ s'.todo ∧ m.type ≠ .SYNC ∧
      ∀ c ∈ s'.todo, c.2.barrier = none → c = (first, requestEntry s m))
  total : ∀ P, (List.range s.dispatched).countP P + ∑ p, countWhere P (pending s'.todo p) =
    (List.range s'.dispatched).countP P

theorem mem_syncPartitions {c : Int} {issue number : Nat} {order : List (Fin n)} {call : Fin n × Entry}
    (mem : call ∈ syncPartitions c issue number order) : call.2 = syncEntry c issue number := by
  obtain ⟨p, -, rfl⟩ := List.mem_map.mp mem
  rfl

/-- A repartition sends one SYNC message to every partition. -/
theorem pending_repartition {order : List (Fin n)} (nodup : order.Nodup)
    (listing : order.toFinset = Finset.univ) (p : Fin n) :
    pending (syncPartitions s.syncCounter s.issue s.dispatched order) p =
      [syncEntry s.syncCounter s.issue s.dispatched] := by
  have mem : p ∈ order := by
    rw [← List.mem_toFinset, listing]
    exact Finset.mem_univ p
  rw [pending_sync nodup, if_pos mem]

/-- A repartition plans one SYNC for every partition, over a barrier of its own. -/
theorem Repartition.setUp {scheme : Lib.UnorderedMap Int (Fin n)} {order : List (Fin n)}
    (h : Repartition s scheme order s') (some_partition : 0 < n) : SetUp cfg s s' := by
  cases h with
  | mk stage todo nodup listing =>
    have adds := pending_repartition (s := s) nodup listing
    have each : ∀ c ∈ syncPartitions s.syncCounter s.issue s.dispatched order,
        c.2 = syncEntry s.syncCounter s.issue s.dispatched := fun c mem => mem_syncPartitions mem
    refine ⟨stage, todo, stage, rfl, rfl, rfl, rfl, ?_, ?_, ?_, ?_, ?_, ?_, ?_, ?_⟩
    · intro c mem
      rw [each c mem]
      exact Nat.le_refl _
    · intro c mem
      rw [each c mem]
      simp only [syncEntry]
      omega
    · apply List.pairwise_of_forall_mem_list
      intro a ha b hb
      rw [each a ha, each b hb]
    · intro p
      dsimp only
      rw [adds]
      exact List.pairwise_singleton _ _
    · intro c mem b hb
      rw [each c mem, syncEntry_barrier] at hb
      rw [each c mem]
      exact (Option.some.inj hb).symm
    · intro b
      by_cases eq : b = s.issue
      · subst eq
        refine Or.inr ⟨Nat.le_refl _, order, nodup, ?_, by simp, fun p => ?_⟩
        · rintro rfl
          have mem := Finset.mem_univ (⟨0, some_partition⟩ : Fin n)
          rw [← listing] at mem
          simp at mem
        · have mem : p ∈ order := by
            rw [← List.mem_toFinset, listing]
            exact Finset.mem_univ p
          refine ⟨fun _ => ⟨_, ?_, syncEntry_barrier s.syncCounter s.issue s.dispatched⟩, fun _ => mem⟩
          dsimp only
          rw [adds]
          exact List.mem_singleton.mpr rfl
      · refine Or.inl ⟨by simp [eq], fun c mem hb => ?_⟩
        rw [each c mem, syncEntry_barrier] at hb
        exact eq (Option.some.inj hb).symm
    · refine Or.inl ⟨rfl, fun c mem => ?_⟩
      rw [each c mem, syncEntry_barrier]
      exact Option.some_ne_none _
    · intro P
      have none : ∀ p, countWhere P (pending (syncPartitions s.syncCounter s.issue s.dispatched order) p) = 0 := by
        intro p
        rw [adds]
        rfl
      simp [none]

/-- Every message of a dispatch is the request, on its partition, or one of the two SYNC
messages. -/
theorem mem_dispatchCalls {first : Fin n} {rest : List (Fin n)} {request : ClientMessage}
    {c : Fin n × Entry}
    (mem : c ∈ dispatchCalls s.syncCounter s.issue s.dispatched request first rest) :
    c = (first, requestEntry s request) ∨
    rest ≠ [] ∧ (c.2 = syncEntry s.syncCounter s.issue s.dispatched ∨
      c.2 = syncEntry s.syncCounter (s.issue + 2) s.dispatched) := by
  unfold dispatchCalls at mem
  split at mem
  · rw [List.mem_singleton] at mem
    exact Or.inl mem
  · rename_i cross
    rcases List.mem_append.mp mem with mem | mem
    · rcases List.mem_append.mp mem with mem | mem
      · exact Or.inr ⟨cross, Or.inl (mem_syncPartitions mem)⟩
      · rw [List.mem_singleton] at mem
        exact Or.inl mem
    · exact Or.inr ⟨cross, Or.inr (mem_syncPartitions mem)⟩

/-- The calls of a dispatch come in the order of their issue numbers. -/
theorem dispatchCalls_ordered {first : Fin n} {rest : List (Fin n)} {request : ClientMessage} :
    (dispatchCalls s.syncCounter s.issue s.dispatched request first rest).Pairwise
      fun a b => a.2.issue ≤ b.2.issue := by
  have each : ∀ issue, (syncPartitions s.syncCounter issue s.dispatched (first :: rest)).Pairwise
      fun a b => a.2.issue ≤ b.2.issue := by
    intro issue
    apply List.pairwise_of_forall_mem_list
    intro a ha b hb
    rw [mem_syncPartitions ha, mem_syncPartitions hb]
  unfold dispatchCalls
  split
  · exact List.pairwise_singleton _ _
  · refine List.pairwise_append.mpr ⟨List.pairwise_append.mpr ⟨each _, List.pairwise_singleton _ _, ?_⟩,
      each _, ?_⟩
    · intro a ha b hb
      rw [List.mem_singleton] at hb
      rw [mem_syncPartitions ha, hb]
      exact Nat.le_succ _
    · intro a ha b hb
      rw [mem_syncPartitions hb]
      rcases List.mem_append.mp ha with ha | ha
      · rw [mem_syncPartitions ha]
        exact Nat.le_add_right _ _
      · rw [List.mem_singleton] at ha
        rw [ha]
        exact Nat.le_succ _

/-- The messages of a dispatch with barrier `b` stand on every involved partition, if the
dispatch is over several and `b` is one of its two barriers. -/
theorem dispatch_barrier {first : Fin n} {rest : List (Fin n)} (nodup : (first :: rest).Nodup)
    {request : ClientMessage} (notSync : request.type ≠ .SYNC) {b : Nat} :
    (∃ e ∈ pending (dispatchCalls s.syncCounter s.issue s.dispatched request first rest) p,
      e.barrier = some b) ↔ rest ≠ [] ∧ p ∈ first :: rest ∧ (b = s.issue ∨ b = s.issue + 2) := by
  have none : (requestEntry s request).barrier = none := Entry.barrier_eq_none.mpr notSync
  rw [pending_dispatch nodup]
  constructor
  · rintro ⟨e, mem, hb⟩
    by_cases single : rest = []
    · rw [if_pos single] at mem
      split at mem
      · rw [List.mem_singleton] at mem
        rw [mem, none] at hb
        cases hb
      · cases mem
    · rw [if_neg single] at mem
      split at mem
      · rename_i involved
        refine ⟨single, involved, ?_⟩
        rcases List.mem_cons.mp mem with rfl | mem
        · rw [syncEntry_barrier] at hb
          exact Or.inl (Option.some.inj hb).symm
        · rcases List.mem_append.mp mem with mem | mem
          · split at mem
            · rw [List.mem_singleton] at mem
              rw [mem, none] at hb
              cases hb
            · cases mem
          · rw [List.mem_singleton] at mem
            rw [mem, syncEntry_barrier] at hb
            exact Or.inr (Option.some.inj hb).symm
      · cases mem
  · rintro ⟨cross, involved, rfl | rfl⟩
    · rw [if_neg cross, if_pos involved]
      exact ⟨_, List.mem_cons_self, syncEntry_barrier _ _ _⟩
    · rw [if_neg cross, if_pos involved]
      exact ⟨_, List.mem_cons_of_mem _ (List.mem_append_right _ (List.mem_singleton.mpr rfl)),
        syncEntry_barrier _ _ _⟩

theorem requestEntry_mem {first : Fin n} {rest : List (Fin n)} {request : ClientMessage} :
    (first, requestEntry s request) ∈
      dispatchCalls s.syncCounter s.issue s.dispatched request first rest := by
  unfold dispatchCalls requestEntry
  split <;> simp

theorem countWhere_dispatch {first : Fin n} {rest : List (Fin n)} (nodup : (first :: rest).Nodup)
    {request : ClientMessage} (notSync : request.type ≠ .SYNC) (P : Nat → Bool) (p : Fin n) :
    countWhere P (pending (dispatchCalls s.syncCounter s.issue s.dispatched request first rest) p) =
      if first = p then [s.dispatched].countP P else 0 := by
  rw [pending_dispatch nodup]
  by_cases eq : first = p
  · subst eq
    by_cases single : rest = [] <;>
      simp [single, countWhere, requestEntry, syncEntry, createSyncRequest, notSync, List.countP_cons]
  · by_cases single : rest = [] <;> by_cases involved : p ∈ rest <;>
      simp [single, eq, involved, countWhere, syncEntry, createSyncRequest, Ne.symm eq]

/-- A dispatch plans its request at one partition, and around it two SYNCs at each of the involved ones where there is
more than one, over two barriers of their own. -/
theorem Dispatch.setUp {first : Fin n} {rest : List (Fin n)} (h : Dispatch cfg s first rest s')
    (requests : ∀ m ∈ cfg.requests, m.IsRequest) : SetUp cfg s s' := by
  cases h with
  | @mk request mapping partitions stage todo next involved nodup listing =>
    have notSync : request.type ≠ .SYNC := (requests request (List.mem_of_getElem? next)).not_sync
    have none : (requestEntry s request).barrier = none := Entry.barrier_eq_none.mpr notSync
    have issues : ∀ c ∈ dispatchCalls s.syncCounter s.issue s.dispatched request first rest,
        s.issue ≤ c.2.issue ∧ c.2.issue < s.issue + 3 := by
      intro c mem
      rcases mem_dispatchCalls mem with rfl | ⟨-, eq | eq⟩
      · simp only [requestEntry]
        omega
      · rw [eq]
        simp only [syncEntry]
        omega
      · rw [eq]
        simp only [syncEntry]
        omega
    refine ⟨stage, todo, stage, rfl, rfl, rfl, rfl, fun c mem => (issues c mem).1,
      fun c mem => (issues c mem).2, dispatchCalls_ordered, fun p => ?_, fun c mem b hb => ?_, fun b => ?_,
      Or.inr ⟨rfl, first, request, next, requestEntry_mem, notSync, fun c mem hb => ?_⟩, ?_⟩
    · dsimp only
      rw [pending_dispatch nodup]
      split
      · split <;> simp
      · split
        · split <;> simp [syncEntry, requestEntry]
        · exact List.Pairwise.nil
    · rcases mem_dispatchCalls mem with rfl | ⟨-, eq | eq⟩
      · rw [none] at hb
        cases hb
      · rw [eq, syncEntry_barrier] at hb
        rw [eq]
        exact (Option.some.inj hb).symm
      · rw [eq, syncEntry_barrier] at hb
        rw [eq]
        exact (Option.some.inj hb).symm
    · have members := fun p => dispatch_barrier (p := p) (s := s) nodup notSync (b := b)
      dsimp only
      by_cases new : rest ≠ [] ∧ (b = s.issue ∨ b = s.issue + 2)
      · refine Or.inr ⟨by omega, first :: rest, nodup, List.cons_ne_nil _ _, ?_, fun p => ?_⟩
        · rw [if_neg new.1]
          rcases new.2 with rfl | rfl
          · rw [Function.update_of_ne (by omega), Function.update_self]
          · rw [Function.update_self]
        · rw [members p]
          exact ⟨fun mem => ⟨new.1, mem, new.2⟩, fun h => h.2.1⟩
      · refine Or.inl ⟨?_, fun c mem hb => new ?_⟩
        · by_cases single : rest = []
          · rw [if_pos single]
          · rw [if_neg single, Function.update_of_ne (fun h => new ⟨single, Or.inr h⟩),
              Function.update_of_ne (fun h => new ⟨single, Or.inl h⟩)]
        · obtain ⟨q, e⟩ := c
          obtain ⟨cross, -, hb⟩ := (members q).mp ⟨e, mem_pending.mpr mem, hb⟩
          exact ⟨cross, hb⟩
    · rcases mem_dispatchCalls mem with eq | ⟨-, eq | eq⟩
      · exact eq
      · rw [eq, syncEntry_barrier] at hb
        cases hb
      · rw [eq, syncEntry_barrier] at hb
        cases hb
    · intro P
      simp only [countWhere_dispatch nodup notSync, Finset.sum_ite_eq, Finset.mem_univ, if_true,
        List.range_succ, List.countP_append]

/-- What the scheduler keeps true of the plans, its open calls and the barriers it creates. -/
structure Planned (cfg : Config n) (s : State n) : Prop where
  sorted : ∀ p, (plan s p).Pairwise fun a b => a.issue < b.issue
  calls : s.todo.Pairwise fun a b => a.2.issue ≤ b.2.issue
  logged : ∀ p, ∀ e ∈ (s.partitions p).log, ∀ c ∈ s.todo, e.issue ≤ c.2.issue
  below : ∀ p, ∀ e ∈ plan s p, e.issue < s.issue
  address : ∀ p, ∀ e ∈ plan s p, ∀ b, e.barrier = some b → b = e.issue
  members : ∀ b p, p ∈ (s.barriers b).members ↔ ∃ e ∈ plan s p, e.barrier = some b
  membersNodup : ∀ b, (s.barriers b).members.Nodup
  count : ∀ b, (s.barriers b).count = (s.barriers b).members.length
  reserved : s.stage = .reserved → s.todo ≠ []
  dispatched : s.dispatched ≤ cfg.requests.length
  request : ∀ p, ∀ e ∈ plan s p, e.barrier = none →
    e.number < s.dispatched ∧ cfg.requests[e.number]? = some e.message
  placed : ∀ k, k < s.dispatched → ∃ p, ∃ e ∈ plan s p, e.barrier = none ∧ e.number = k
  single : ∀ p, ∀ e ∈ plan s p, ∀ q, ∀ f ∈ plan s q, e.barrier = none → f.barrier = none →
    e.number = f.number → p = q ∧ e.issue = f.issue
  total : ∀ P, ∑ p, countWhere P (plan s p) = (List.range s.dispatched).countP P

theorem init_planned : Planned cfg (init cfg) := by
  have empty : ∀ p e, e ∉ plan (init cfg) p := fun p e mem => List.not_mem_nil mem
  have fresh : ∀ b, (init cfg).barriers b = {} := fun b => rfl
  constructor
  case sorted => exact fun _ => List.Pairwise.nil
  case calls => exact List.Pairwise.nil
  case logged | below | address | request | single => exact fun p e mem => absurd mem (empty p e)
  case members => simp [empty, fresh]
  case membersNodup | count => simp [fresh]
  case reserved => exact fun h => nomatch h
  case dispatched => exact Nat.zero_le _
  case placed => exact fun k lt => absurd lt (Nat.not_lt_zero k)
  case total => exact fun P => Finset.sum_eq_zero fun p _ => rfl

/-- Messages in order of their issues are no more than there are issues. -/
theorem length_le_of_sorted {l : List Entry} {lo hi : Nat} (sorted : l.Pairwise fun a b => a.issue < b.issue)
    (lower : ∀ e ∈ l, lo ≤ e.issue) (upper : ∀ e ∈ l, e.issue < hi) : l.length ≤ hi - lo := by
  have nodup : (l.map Entry.issue).Nodup := List.pairwise_map.mpr (sorted.imp Nat.ne_of_lt)
  have within : (l.map Entry.issue).toFinset ⊆ Finset.Ico lo hi := by
    intro b mem
    obtain ⟨e, he, rfl⟩ := List.mem_map.mp (List.mem_toFinset.mp mem)
    exact Finset.mem_Ico.mpr ⟨lower e he, upper e he⟩
  have card := Finset.card_le_card within
  rwa [List.toFinset_card_of_nodup nodup, List.length_map, Nat.card_Ico] at card

/-- A worker has been sent at most one message for each issue. -/
theorem Planned.length_le (planned : Planned cfg s) (p : Fin n) : (plan s p).length ≤ s.issue :=
  length_le_of_sorted (planned.sorted p) (fun e _ => Nat.zero_le e.issue) (planned.below p)

/-- The calls for one request or one repartition hold at most three messages for a worker. -/
theorem SetUp.pending_length (h : SetUp cfg s s') (p : Fin n) : (pending s'.todo p).length ≤ 3 := by
  have le := length_le_of_sorted (h.sorted p) (fun e mem => h.lower (p, e) (mem_pending.mp mem))
    fun e mem => h.upper (p, e) (mem_pending.mp mem)
  rw [h.issue] at le
  omega

/-- With no call open the plan is the log. -/
theorem plan_of_nil (todo : s.todo = []) (p : Fin n) : plan s p = (s.partitions p).log := by
  simp [plan, todo, pending]

/-- Setting up calls appends to the plans. -/
theorem SetUp.plan_eq (h : SetUp cfg s s') (p : Fin n) : plan s' p = plan s p ++ pending s'.todo p := by
  rw [plan_of_nil h.empty, plan, h.partitions]

/-- A message of the new plan is an old one or one of the new calls. -/
theorem SetUp.mem_plan (h : SetUp cfg s s') {e : Entry} :
    e ∈ plan s' p ↔ e ∈ plan s p ∨ (p, e) ∈ s'.todo := by
  rw [h.plan_eq, List.mem_append, mem_pending]

/-- No message carries a barrier that is still to be created. -/
theorem fresh_barrier (planned : Planned cfg s) {b : Nat} (new : s.issue ≤ b) (p : Fin n) :
    ¬ ∃ e ∈ plan s p, e.barrier = some b := by
  rintro ⟨e, mem, hb⟩
  have addr := planned.address p e mem b hb
  have low := planned.below p e mem
  omega

/-- **Setting up calls** keeps the plans in order. -/
theorem SetUp.planned (h : SetUp cfg s s') (planned : Planned cfg s) : Planned cfg s' := by
  have notReady : s'.stage ≠ .reserved := by
    rw [h.stage]
    exact fun h => nomatch h
  have old : ∀ {p e}, e ∈ plan s p → e ∈ plan s' p := fun mem => h.mem_plan.mpr (Or.inl mem)
  constructor
  case sorted =>
    intro p
    rw [h.plan_eq]
    refine List.pairwise_append.mpr ⟨planned.sorted p, h.sorted p, fun a ha b hb => ?_⟩
    have low := planned.below p a ha
    have high := h.lower _ (mem_pending.mp hb)
    exact Nat.lt_of_lt_of_le low high
  case calls => exact h.ordered
  case logged =>
    intro p e mem c hc
    rw [h.partitions, ← plan_of_nil h.empty] at mem
    have low := planned.below p e mem
    have high := h.lower c hc
    omega
  case below =>
    intro p e mem
    rcases h.mem_plan.mp mem with mem | mem
    · have := planned.below p e mem
      have := h.issue
      omega
    · exact h.upper _ mem
  case address =>
    intro p e mem b hb
    rcases h.mem_plan.mp mem with mem | mem
    · exact planned.address p e mem b hb
    · exact h.address _ mem b hb
  case members =>
    intro b p
    rcases h.barriers b with ⟨same, others⟩ | ⟨new, order, -, -, created, listed⟩
    · rw [same, planned.members b p]
      constructor
      · rintro ⟨e, mem, hb⟩
        exact ⟨e, old mem, hb⟩
      · rintro ⟨e, mem, hb⟩
        rcases h.mem_plan.mp mem with mem | mem
        · exact ⟨e, mem, hb⟩
        · exact absurd hb (others _ mem)
    · rw [created]
      refine (listed p).trans ⟨?_, ?_⟩
      · rintro ⟨e, mem, hb⟩
        exact ⟨e, h.mem_plan.mpr (Or.inr (mem_pending.mp mem)), hb⟩
      · rintro ⟨e, mem, hb⟩
        rcases h.mem_plan.mp mem with mem | mem
        · exact absurd ⟨e, mem, hb⟩ (fresh_barrier planned new p)
        · exact ⟨e, mem_pending.mpr mem, hb⟩
  case membersNodup =>
    intro b
    rcases h.barriers b with ⟨same, -⟩ | ⟨-, order, nodup, -, created, -⟩
    · rw [same]
      exact planned.membersNodup b
    · rw [created]
      exact nodup
  case count =>
    intro b
    rcases h.barriers b with ⟨same, -⟩ | ⟨-, order, -, -, created, -⟩
    · rw [same]
      exact planned.count b
    · rw [created]
      rfl
  case reserved => exact fun reserved => absurd reserved notReady
  case dispatched =>
    have le := planned.dispatched
    rcases h.request with ⟨same, -⟩ | ⟨succ, first, m, next, -⟩
    · omega
    · have := (List.getElem?_eq_some_iff.mp next).1
      omega
  case request =>
    intro p e mem none
    rcases h.mem_plan.mp mem with mem | mem
    · obtain ⟨lt, req⟩ := planned.request p e mem none
      exact ⟨by rcases h.request with ⟨same, -⟩ | ⟨succ, -⟩ <;> omega, req⟩
    · rcases h.request with ⟨-, syncs⟩ | ⟨succ, first, m, next, -, -, only⟩
      · exact absurd none (syncs _ mem)
      · cases only _ mem none
        exact ⟨by simp only [requestEntry]; omega, next⟩
  case placed =>
    intro k lt
    by_cases before : k < s.dispatched
    · obtain ⟨p, e, mem, none, number⟩ := planned.placed k before
      exact ⟨p, e, old mem, none, number⟩
    · rcases h.request with ⟨same, -⟩ | ⟨succ, first, m, -, mem, notSync, -⟩
      · omega
      · refine ⟨first, requestEntry s m, h.mem_plan.mpr (Or.inr mem), ?_, ?_⟩
        · exact Entry.barrier_eq_none.mpr notSync
        · simp only [requestEntry]
          omega
  case single =>
    intro p e he q f hf hne hnf same
    rcases h.mem_plan.mp he with he | he
    · have lt := (planned.request p e he hne).1
      rcases h.mem_plan.mp hf with hf | hf
      · exact planned.single p e he q f hf hne hnf same
      · rcases h.request with ⟨-, syncs⟩ | ⟨-, first, m, -, -, -, only⟩
        · exact absurd hnf (syncs _ hf)
        · cases only _ hf hnf
          simp only [requestEntry] at same
          omega
    · rcases h.request with ⟨-, syncs⟩ | ⟨-, first, m, -, -, -, only⟩
      · exact absurd hne (syncs _ he)
      · cases only _ he hne
        rcases h.mem_plan.mp hf with hf | hf
        · have lt := (planned.request q f hf hnf).1
          simp only [requestEntry] at same
          omega
        · cases only _ hf hnf
          exact ⟨rfl, rfl⟩
  case total =>
    intro P
    have each : ∀ p, countWhere P (plan s' p) = countWhere P (plan s p) + countWhere P (pending s'.todo p) := by
      intro p
      rw [h.plan_eq]
      exact List.countP_append
    simp only [each, Finset.sum_add_distrib, planned.total]
    exact h.total P

/-- Steps that leave the plans, the open calls and what the barriers were created for keep
the plans in order. -/
theorem Planned.of_same (planned : Planned cfg s) (plans : ∀ p, plan s' p = plan s p)
    (issue : s'.issue = s.issue) (dispatched : s'.dispatched = s.dispatched)
    (members : ∀ b, (s'.barriers b).members = (s.barriers b).members)
    (count : ∀ b, (s'.barriers b).count = (s.barriers b).count)
    (calls : s'.todo.Pairwise fun a b => a.2.issue ≤ b.2.issue)
    (logged : ∀ p, ∀ e ∈ (s'.partitions p).log, ∀ c ∈ s'.todo, e.issue ≤ c.2.issue)
    (reserved : s'.stage = .reserved → s'.todo ≠ []) : Planned cfg s' := by
  constructor
  case calls => exact calls
  case logged => exact logged
  case reserved => exact reserved
  all_goals simp only [plans, issue, dispatched, members, count]
  case sorted => exact planned.sorted
  case below => exact planned.below
  case address => exact planned.address
  case members => exact planned.members
  case membersNodup => exact planned.membersNodup
  case count => exact planned.count
  case dispatched => exact planned.dispatched
  case request => exact planned.request
  case placed => exact planned.placed
  case single => exact planned.single
  case total => exact planned.total

/-- Entering a barrier leaves what it was created for. -/
theorem arrive_same {bar bar' : Barrier n} {serial : Fin n} (h : arrive bar p serial = some bar') :
    bar'.members = bar.members ∧ bar'.count = bar.count := by
  unfold arrive at h
  split at h
  · split at h
    · cases h
      exact ⟨rfl, rfl⟩
    · cases h
  · cases h
    exact ⟨rfl, rfl⟩

/-- A worker's step leaves what the barriers were created for. -/
theorem Work.barriers_same (h : Work cfg s p s') (b : Nat) :
    (s'.barriers b).members = (s.barriers b).members ∧ (s'.barriers b).count = (s.barriers b).count := by
  cases h with
  | @arrive e bar serial place type entered =>
    by_cases eq : b = e.message.sAddr
    · subst eq
      simpa using arrive_same entered
    · simp [Function.update_of_ne eq]
  | @destroy e place =>
    by_cases eq : b = e.message.sAddr
    · subst eq
      simp
    · simp [Function.update_of_ne eq]
  | _ => exact ⟨rfl, rfl⟩

theorem Work.planned (h : Work cfg s p s') (planned : Planned cfg s) : Planned cfg s' := by
  have same := h.sameCalls
  refine planned.of_same h.plan_eq same.issue same.dispatched (fun b => (h.barriers_same b).1)
    (fun b => (h.barriers_same b).2) ?_ ?_ ?_
  · rw [same.todo]
    exact planned.calls
  · intro q e mem
    rw [h.log] at mem
    rw [same.todo]
    exact planned.logged q e mem
  · rw [same.stage, same.todo]
    exact planned.reserved

/-- A push moves an entry from what is to be pushed to what has been; the plan is the same. -/
theorem Push.planned (h : Push cfg s s') (planned : Planned cfg s) : Planned cfg s' := by
  have plans := h.plan_eq
  cases h with
  | @skip call rest stage todo =>
    refine planned.of_same plans rfl rfl (fun b => rfl) (fun b => rfl) planned.calls planned.logged ?_
    intro _
    simp [todo]
  | @reserve q e rest stage todo =>
    refine planned.of_same plans rfl rfl (fun b => rfl) (fun b => rfl) planned.calls ?_ ?_
    · intro p f mem
      have logs : ((Function.update s.partitions q { s.partitions q with
          remainingSpace := (s.partitions q).remainingSpace - 1 }) p).log = (s.partitions p).log := by
        by_cases eq : p = q
        · subst eq
          simp
        · simp [Function.update_of_ne eq]
      exact planned.logged p f (logs ▸ mem)
    · intro _
      simp [todo]
  | @enqueue q e rest stage todo =>
    have calls := planned.calls
    have logged := planned.logged
    rw [todo] at calls logged
    obtain ⟨first, later⟩ := List.pairwise_cons.mp calls
    refine planned.of_same plans rfl rfl (fun b => rfl) (fun b => rfl) later ?_ (fun h => nomatch h)
    intro p f mem c hc
    by_cases eq : p = q
    · subst eq
      simp only [put_partitions, Function.update_self] at mem
      rcases List.mem_append.mp mem with mem | mem
      · exact logged p f mem c (List.mem_cons_of_mem _ hc)
      · rw [List.mem_singleton] at mem
        subst mem
        exact first c hc
    · simp only [put_partitions, Function.update_of_ne eq] at mem
      exact logged p f mem c (List.mem_cons_of_mem _ hc)
  | @post q stage =>
    refine planned.of_same plans rfl rfl (fun b => rfl) (fun b => rfl) planned.calls ?_ (fun h => nomatch h)
    intro p f mem
    have logs : ((Function.update s.partitions q { s.partitions q with
        semaphore := semPost (some SEM_VALUE_MAX) (s.partitions q).semaphore }) p).log = (s.partitions p).log := by
      by_cases eq : p = q
      · subst eq
        simp
      · simp [Function.update_of_ne eq]
    exact planned.logged p f (logs ▸ mem)

/-- **The plans stay in order** along every run of requests. -/
theorem planned_step {l : Label n} (requests : ∀ m ∈ cfg.requests, m.IsRequest) (some_partition : 0 < n)
    (planned : Planned cfg s) (h : step cfg s l = some s') : Planned cfg s' := by
  cases l with
  | dispatch first rest => exact ((dispatch_cases h).setUp requests).planned planned
  | repartition scheme order => exact ((repartition_cases h).setUp some_partition).planned planned
  | push => exact (push_cases h).planned planned
  | work p serial => exact (work_cases h).planned planned

end Pool

end KvPaxos
