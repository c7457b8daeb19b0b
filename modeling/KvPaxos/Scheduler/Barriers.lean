import KvPaxos.Scheduler.Plan

/-!
# The barriers of the SYNC groups

A worker has `Reached` a barrier when it is inside its wait or done with it. `Synced` ties
that to the barrier's own state: the arrived threads are exactly those, the count is
reached when and only when the barrier releases, and the one destroy call belongs to the
serial thread's way out. With the plans this gives the property the order of requests
rests on: no worker is past a barrier that another one has still in front of it
(`fenced`).
-/

namespace KvPaxos.Pool

open Lib.Lanes

variable {n : Nat} {cfg : Config n} {s s' : State n} {p q : Fin n} {b : Nat}

/-- Worker `p` is done with its message for barrier `b`. -/
def Passed (s : State n) (b : Nat) (p : Fin n) : Prop :=
  ∃ e ∈ (s.partitions p).log.take (s.partitions p).handled, e.barrier = some b

/-- Worker `p` has called wait on barrier `b`. -/
def Reached (s : State n) (b : Nat) (p : Fin n) : Prop :=
  Passed s b p ∨ (s.partitions p).worker.barrier = some b

/-- What the state of the barriers says about the workers. -/
structure Synced (s : State n) : Prop where
  nodup : ∀ b, (s.barriers b).arrived.Nodup
  arrived : ∀ b p, p ∈ (s.barriers b).arrived ↔ Reached s b p
  waiting : ∀ b, (s.barriers b).serial = none → (s.barriers b).arrived ≠ [] →
    (s.barriers b).arrived.length < (s.barriers b).count
  released : ∀ b q, (s.barriers b).serial = some q →
    q ∈ (s.barriers b).arrived ∧ (s.barriers b).arrived.length = (s.barriers b).count
  passed : ∀ b p, Passed s b p → (s.barriers b).serial ≠ none
  destroying : ∀ p e, (s.partitions p).worker = .destroying e → (s.barriers e.message.sAddr).serial = some p
  atMost : ∀ b, (s.barriers b).destroyed ≤ 1
  destroyed : ∀ b, (s.barriers b).destroyed = 1 ↔ ∃ q, (s.barriers b).serial = some q ∧ Passed s b q
  events : ∀ b q, .destroy q b ∈ s.trace → (s.barriers b).serial ≠ none
  ordered : s.trace.Pairwise fun a a' => ∀ b q r, a = .destroy q b → a' ≠ .wait r b

theorem init_synced : Synced (init cfg) := by
  have fresh : ∀ b, (init cfg).barriers b = {} := fun b => rfl
  have none : ∀ b p, ¬ Passed (init cfg) b p := by
    rintro b p ⟨e, mem, -⟩
    exact List.not_mem_nil mem
  have off : ∀ b p, ¬ Reached (init cfg) b p := by
    rintro b p (h | h)
    · exact none b p h
    · cases h
  constructor
  case arrived => simp [fresh, off]
  case destroying => exact fun p e h => nomatch h
  case events => exact fun b q mem => absurd mem List.not_mem_nil
  case ordered => exact List.Pairwise.nil
  all_goals simp [fresh, none]

section Members

/-- A worker at a barrier holds a message for it. -/
theorem entry_of_barrier (acc : Accounted cfg s) (h : (s.partitions p).worker.barrier = some b) :
    ∃ e, (s.partitions p).worker.entry = some e ∧ e.barrier = some b := by
  have typed := (acc p).typed
  cases place : (s.partitions p).worker with
  | atBarrier e | destroying e =>
    rw [place] at h typed
    exact ⟨e, rfl, Entry.barrier_eq_some.mpr ⟨typed, Option.some.inj h⟩⟩
  | _ =>
    rw [place] at h
    cases h

/-- Who reaches a barrier has a message for it. -/
theorem reached_member (acc : Accounted cfg s) (planned : Planned cfg s) (h : Reached s b p) :
    p ∈ (s.barriers b).members := by
  rw [planned.members b p]
  rcases h with ⟨e, mem, hb⟩ | h
  · exact ⟨e, List.mem_append_left _ (List.mem_of_mem_take mem), hb⟩
  · obtain ⟨e, hold, hb⟩ := entry_of_barrier acc h
    exact ⟨e, List.mem_append_left _ (List.mem_of_getElem? ((acc p).current hold)), hb⟩

/-- A released barrier has been reached by all its members. -/
theorem released_members (acc : Accounted cfg s) (planned : Planned cfg s) (synced : Synced s)
    (full : (s.barriers b).arrived.length = (s.barriers b).count) (h : p ∈ (s.barriers b).members) :
    p ∈ (s.barriers b).arrived := by
  have sub : (s.barriers b).arrived ⊆ (s.barriers b).members := fun r mem =>
    reached_member acc planned ((synced.arrived b r).mp mem)
  have le : (s.barriers b).members.length ≤ (s.barriers b).arrived.length := by
    rw [full, planned.count]
  have perm := (List.subperm_of_subset (synced.nodup b) sub).perm_of_length_le le
  exact perm.mem_iff.mpr h

/-- The places of one barrier in a plan. -/
theorem fence_unique (planned : Planned cfg s) {i j : Nat} (hi : fenceAt Entry.barrier (plan s p) i = some b)
    (hj : fenceAt Entry.barrier (plan s p) j = some b) : i = j := by
  obtain ⟨e, he, hbe⟩ := Option.bind_eq_some_iff.mp hi
  obtain ⟨f, hf, hbf⟩ := Option.bind_eq_some_iff.mp hj
  have ae := planned.address p e (List.mem_of_getElem? he) b hbe
  have af := planned.address p f (List.mem_of_getElem? hf) b hbf
  exact position_unique (planned.sorted p) he hf (ae.symm.trans af)

theorem plan_log {i : Nat} (h : i < (s.partitions p).log.length) :
    (plan s p)[i]? = (s.partitions p).log[i]? :=
  List.getElem?_append_left h

/-- A passed barrier stands in the handled part of the plan. -/
theorem passed_iff (acc : Accounted cfg s) :
    Passed s b p ↔ ∃ i < (s.partitions p).handled, fenceAt Entry.barrier (plan s p) i = some b := by
  have bound := (acc p).bound
  constructor
  · rintro ⟨e, mem, hb⟩
    obtain ⟨i, lt, rfl⟩ := List.mem_take_iff_getElem.mp mem
    have less : i < (s.partitions p).handled := by omega
    refine ⟨i, less, ?_⟩
    rw [fenceAt, plan_log (by omega), List.getElem?_eq_getElem (by omega)]
    exact hb
  · rintro ⟨i, lt, h⟩
    rw [fenceAt, plan_log (by omega), List.getElem?_eq_getElem (by omega)] at h
    exact ⟨_, List.mem_take_iff_getElem.mpr ⟨i, by omega, rfl⟩, h⟩

/-- The message in the worker's hand stands behind the handled ones. -/
theorem current_fence (acc : Accounted cfg s) {e : Entry}
    (hold : (s.partitions p).worker.entry = some e) (hb : e.barrier = some b) :
    fenceAt Entry.barrier (plan s p) (s.partitions p).handled = some b := by
  have here := (acc p).current hold
  rw [fenceAt, plan_log (List.getElem?_eq_some_iff.mp here).1, here]
  exact hb

/-- A worker that holds a message of a barrier has not passed it. -/
theorem not_passed (acc : Accounted cfg s) (planned : Planned cfg s) {e : Entry}
    (hold : (s.partitions p).worker.entry = some e) (hb : e.barrier = some b) : ¬ Passed s b p := by
  intro h
  obtain ⟨i, lt, hi⟩ := (passed_iff acc).mp h
  have := fence_unique planned hi (current_fence acc hold hb)
  omega

/-- **No worker is past a barrier that another has not reached.** -/
theorem fenced (acc : Accounted cfg s) (planned : Planned cfg s) (synced : Synced s) (r : Fin n) (c b : Nat)
    (here : fenceAt Entry.barrier (plan s r) c = some b) (done : c < (s.partitions r).handled)
    (q : Fin n) (a : Nat) (there : fenceAt Entry.barrier (plan s q) a = some b) :
    a ≤ (s.partitions q).handled := by
  have passed := (passed_iff acc).mpr ⟨c, done, here⟩
  obtain ⟨serial, hs⟩ := Option.ne_none_iff_exists'.mp (synced.passed b r passed)
  have member : q ∈ (s.barriers b).members := by
    obtain ⟨e, he, hb⟩ := Option.bind_eq_some_iff.mp there
    exact (planned.members b q).mpr ⟨e, List.mem_of_getElem? he, hb⟩
  have full := (synced.released b serial hs).2
  have reached := (synced.arrived b q).mp (released_members acc planned synced full member)
  rcases reached with h | h
  · obtain ⟨i, lt, hi⟩ := (passed_iff acc).mp h
    have := fence_unique planned there hi
    omega
  · obtain ⟨e, hold, hb⟩ := entry_of_barrier acc h
    have := fence_unique planned there (current_fence acc hold hb)
    omega

end Members

section Steps

/-- What of a step matters to the barriers: each worker's progress past them, and how the
state of each barrier changes. -/
theorem Synced.of_same (synced : Synced s) (barriers : s'.barriers = s.barriers)
    (passed : ∀ b p, Passed s' b p ↔ Passed s b p)
    (at_barrier : ∀ p, (s'.partitions p).worker.barrier = (s.partitions p).worker.barrier)
    (destroying : ∀ p e, (s'.partitions p).worker = .destroying e →
      (s.barriers e.message.sAddr).serial = some p)
    (events : List (Event n)) (trace : s'.trace = s.trace ++ events)
    (silent : ∀ q b, .wait q b ∉ events ∧ .destroy q b ∉ events) : Synced s' := by
  constructor
  case arrived =>
    intro b p
    rw [barriers, synced.arrived b p, Reached, Reached, passed, at_barrier]
  case destroying =>
    rw [barriers]
    exact destroying
  case events =>
    intro b q mem
    rw [trace] at mem
    rw [barriers]
    rcases List.mem_append.mp mem with mem | mem
    · exact synced.events b q mem
    · exact absurd mem (silent q b).2
  case ordered =>
    rw [trace]
    refine List.pairwise_append.mpr ⟨synced.ordered, ?_, ?_⟩
    · apply List.pairwise_of_forall_mem_list
      rintro a ha a' ha' b q r rfl rfl
      exact (silent q b).2 ha
    · rintro a - a' ha' b q r - rfl
      exact (silent r b).1 ha'
  all_goals simp only [barriers, passed]
  case nodup => exact synced.nodup
  case waiting => exact synced.waiting
  case released => exact synced.released
  case passed => exact synced.passed
  case atMost => exact synced.atMost
  case destroyed => exact synced.destroyed

/-- A step of worker `p` that keeps its barrier and its handled messages. -/
theorem Synced.of_worker (synced : Synced s) {part : Partition} (events : List (Event n))
    (partitions : s'.partitions = Function.update s.partitions p part) (barriers : s'.barriers = s.barriers)
    (trace : s'.trace = s.trace ++ events) (log : part.log = (s.partitions p).log)
    (handled : part.handled = (s.partitions p).handled)
    (barrier : part.worker.barrier = (s.partitions p).worker.barrier)
    (destroying : ∀ e, part.worker = .destroying e → (s.barriers e.message.sAddr).serial = some p)
    (silent : ∀ q b, .wait q b ∉ events ∧ .destroy q b ∉ events) : Synced s' := by
  refine synced.of_same barriers (fun b q => ?_) (fun q => ?_) (fun q e h => ?_) events trace silent
  · by_cases eq : q = p
    · subst eq
      simp only [Passed, partitions, Function.update_self, log, handled]
    · simp only [Passed, partitions, Function.update_of_ne eq]
  · by_cases eq : q = p
    · subst eq
      rw [partitions, Function.update_self, barrier]
    · rw [partitions, Function.update_of_ne eq]
  · rw [partitions] at h
    by_cases eq : q = p
    · subst eq
      rw [Function.update_self] at h
      exact destroying e h
    · rw [Function.update_of_ne eq] at h
      exact synced.destroying q e h

/-- Whether a barrier is passed after worker `p` is done with the message in its hand. -/
theorem passed_finish (acc : Accounted cfg s) {e : Entry} (hold : (s.partitions p).worker.entry = some e)
    {part : Partition} (log : part.log = (s.partitions p).log)
    (handled : part.handled = (s.partitions p).handled + 1)
    (partitions : s'.partitions = Function.update s.partitions p part) (b : Nat) (q : Fin n) :
    Passed s' b q ↔ Passed s b q ∨ q = p ∧ e.barrier = some b := by
  by_cases eq : q = p
  · subst eq
    simp only [Passed, partitions, Function.update_self, log, handled, (acc q).take_succ hold]
    simp [or_and_right, exists_or]
  · simp only [Passed, partitions, Function.update_of_ne eq, eq, false_and, or_false]

/-- Being done with a message that is no SYNC. -/
theorem Synced.count (synced : Synced s) (acc : Accounted cfg s) {e : Entry}
    (hold : (s.partitions p).worker.entry = some e) (request : e.barrier = none)
    (off : (s.partitions p).worker.barrier = none) {part : Partition} {number : Nat} {answer : List Char}
    (partitions : s'.partitions = Function.update s.partitions p part) (barriers : s'.barriers = s.barriers)
    (trace : s'.trace = s.trace ++ [.finish p number answer])
    (log : part.log = (s.partitions p).log) (handled : part.handled = (s.partitions p).handled + 1)
    (worker : part.worker = .waiting) : Synced s' := by
  refine synced.of_same barriers (fun b q => ?_) (fun q => ?_) (fun q e' h => ?_) _ trace (by simp)
  · rw [passed_finish acc hold log handled partitions, request]
    simp
  · by_cases eq : q = p
    · subst eq
      rw [partitions, Function.update_self, worker, off]
      rfl
    · rw [partitions, Function.update_of_ne eq]
  · rw [partitions] at h
    by_cases eq : q = p
    · subst eq
      rw [Function.update_self, worker] at h
      cases h
    · rw [Function.update_of_ne eq] at h
      exact synced.destroying q e' h

/-- The state of a barrier a worker may still enter. -/
theorem before_arrive (acc : Accounted cfg s) (planned : Planned cfg s) (synced : Synced s) {e : Entry}
    (place : (s.partitions p).worker = .handling e) (hb : e.barrier = some b) :
    p ∉ (s.barriers b).arrived ∧ (s.barriers b).serial = none := by
  have hold : (s.partitions p).worker.entry = some e := by rw [place]; rfl
  have notYet : p ∉ (s.barriers b).arrived := by
    rw [synced.arrived b p]
    rintro (h | h)
    · exact not_passed acc planned hold hb h
    · rw [place] at h
      cases h
  refine ⟨notYet, ?_⟩
  by_contra released
  obtain ⟨q, hq⟩ := Option.ne_none_iff_exists'.mp released
  have member : p ∈ (s.barriers b).members := (planned.members b p).mpr
    ⟨e, List.mem_append_left _ (List.mem_of_getElem? ((acc p).current hold)), hb⟩
  exact notYet (released_members acc planned synced (synced.released b q hq).2 member)

theorem arrive_cases {bar bar' : Barrier n} {serial : Fin n} (h : arrive bar p serial = some bar') :
    bar'.arrived = p :: bar.arrived ∧ bar'.count = bar.count ∧ bar'.destroyed = bar.destroyed ∧
    ((p :: bar.arrived).length = bar.count ∧ serial ∈ p :: bar.arrived ∧ bar'.serial = some serial ∨
      (p :: bar.arrived).length ≠ bar.count ∧ bar'.serial = bar.serial) := by
  unfold arrive at h
  split at h
  · split at h
    · cases h
      exact ⟨rfl, rfl, rfl, Or.inl ⟨‹_›, ‹_›, rfl⟩⟩
    · cases h
  · cases h
    exact ⟨rfl, rfl, rfl, Or.inr ⟨‹_›, rfl⟩⟩

/-- A worker enters its barrier. -/
theorem Work.synced_arrive (acc : Accounted cfg s) (planned : Planned cfg s) (synced : Synced s) {e : Entry}
    {bar : Barrier n} {serial : Fin n} (place : (s.partitions p).worker = .handling e)
    (type : e.message.type = .SYNC) (entered : Pool.arrive (s.barriers e.message.sAddr) p serial = some bar) :
    Synced { s.put p { s.partitions p with worker := .atBarrier e } [.wait p e.message.sAddr] with
      barriers := Function.update s.barriers e.message.sAddr bar } := by
  have hb : e.barrier = some e.message.sAddr := Entry.barrier_eq_some.mpr ⟨type, rfl⟩
  obtain ⟨notYet, closed⟩ := before_arrive acc planned synced place hb
  obtain ⟨arrived, count, same, outcome⟩ := arrive_cases entered
  have unpassed : ∀ q, ¬ Passed s e.message.sAddr q := fun q h => synced.passed _ q h closed
  have undestroyed : (s.barriers e.message.sAddr).destroyed ≠ 1 := by
    intro h
    obtain ⟨q, hq, -⟩ := (synced.destroyed _).mp h
    rw [closed] at hq
    cases hq
  have quiet : ∀ q, .destroy q e.message.sAddr ∉ s.trace := fun q mem => synced.events _ q mem closed
  set after : State n := { s.put p { s.partitions p with worker := .atBarrier e } [.wait p e.message.sAddr] with
      barriers := Function.update s.barriers e.message.sAddr bar } with hafter
  have passed : ∀ b q, Passed after b q ↔ Passed s b q := by
    intro b q
    by_cases eq : q = p
    · subst eq
      simp [Passed, hafter]
    · simp [Passed, hafter, eq]
  have reached : ∀ b q, Reached after b q ↔ Reached s b q ∨ q = p ∧ b = e.message.sAddr := by
    intro b q
    unfold Reached
    rw [passed, or_assoc]
    by_cases eq : q = p
    · subst eq
      simp [hafter, place, Worker.barrier, eq_comm]
    · simp [hafter, eq]
  have there : after.barriers e.message.sAddr = bar := Function.update_self _ _ _
  have elsewhere : ∀ {b}, b ≠ e.message.sAddr → after.barriers b = s.barriers b :=
    fun ne => Function.update_of_ne ne _ _
  constructor
  case nodup =>
    intro b
    by_cases eq : b = e.message.sAddr
    · subst eq
      rw [there, arrived]
      exact List.nodup_cons.mpr ⟨notYet, synced.nodup _⟩
    · rw [elsewhere eq]
      exact synced.nodup b
  case arrived =>
    intro b q
    rw [reached, ← synced.arrived]
    by_cases eq : b = e.message.sAddr
    · subst eq
      rw [there, arrived, List.mem_cons]
      tauto
    · rw [elsewhere eq]
      simp [eq]
  case waiting =>
    intro b none some
    by_cases eq : b = e.message.sAddr
    · subst eq
      rw [there] at none ⊢
      rw [arrived, count]
      rcases outcome with ⟨-, -, hs⟩ | ⟨short, -⟩
      · rw [hs] at none
        cases none
      · have member : p ∈ (s.barriers e.message.sAddr).members := (planned.members _ p).mpr
          ⟨e, List.mem_append_left _ (List.mem_of_getElem? ((acc p).current (by rw [place]; rfl))), hb⟩
        have sub : p :: (s.barriers e.message.sAddr).arrived ⊆ (s.barriers e.message.sAddr).members := by
          intro r mem
          rcases List.mem_cons.mp mem with rfl | mem
          · exact member
          · exact reached_member acc planned ((synced.arrived _ r).mp mem)
        have le := (List.subperm_of_subset (List.nodup_cons.mpr ⟨notYet, synced.nodup _⟩) sub).length_le
        rw [← planned.count] at le
        exact Nat.lt_of_le_of_ne le short
    · rw [elsewhere eq] at none some ⊢
      exact synced.waiting b none some
  case released =>
    intro b q hq
    by_cases eq : b = e.message.sAddr
    · subst eq
      rw [there] at hq ⊢
      rw [arrived, count]
      rcases outcome with ⟨full, mem, hs⟩ | ⟨-, hs⟩
      · rw [hs] at hq
        cases hq
        exact ⟨mem, full⟩
      · rw [hs, closed] at hq
        cases hq
    · rw [elsewhere eq] at hq ⊢
      exact synced.released b q hq
  case passed =>
    intro b q h
    rw [passed] at h
    by_cases eq : b = e.message.sAddr
    · subst eq
      exact absurd h (unpassed q)
    · rw [elsewhere eq]
      exact synced.passed b q h
  case destroying =>
    intro q f h
    by_cases eq : q = p
    · subst eq
      simp [hafter] at h
    · simp only [hafter, put_partitions, Function.update_of_ne eq] at h
      have hs := synced.destroying q f h
      rw [elsewhere]
      · exact hs
      · intro same
        rw [same, closed] at hs
        cases hs
  case atMost =>
    intro b
    by_cases eq : b = e.message.sAddr
    · subst eq
      rw [there, same]
      exact synced.atMost _
    · rw [elsewhere eq]
      exact synced.atMost b
  case destroyed =>
    intro b
    by_cases eq : b = e.message.sAddr
    · subst eq
      rw [there, same]
      exact ⟨fun h => absurd h undestroyed, fun ⟨q, _, h⟩ => absurd ((passed _ q).mp h) (unpassed q)⟩
    · rw [elsewhere eq]
      simp only [passed]
      exact synced.destroyed b
  case events =>
    intro b q mem
    have mem : .destroy q b ∈ s.trace := by simpa [hafter] using mem
    by_cases eq : b = e.message.sAddr
    · subst eq
      exact absurd mem (quiet q)
    · rw [elsewhere eq]
      exact synced.events b q mem
  case ordered =>
    refine List.pairwise_append.mpr ⟨synced.ordered, List.pairwise_singleton _ _, ?_⟩
    rintro a mem a' mem' b q r rfl rfl
    cases List.mem_singleton.mp mem'
    exact quiet q mem

/-- A worker leaves its released barrier, destroying it if it is the serial thread. -/
theorem Work.synced_leave (acc : Accounted cfg s) (planned : Planned cfg s) (synced : Synced s) {e : Entry}
    {part : Partition} {q : Fin n} (destroys : Nat) {events : List (Event n)}
    (hold : (s.partitions p).worker.entry = some e) (hb : e.barrier = some b)
    (inside : (s.partitions p).worker.barrier = some b) (released : (s.barriers b).serial = some q)
    (partitions : s'.partitions = Function.update s.partitions p part)
    (barriers : s'.barriers = Function.update s.barriers b
      { s.barriers b with destroyed := (s.barriers b).destroyed + destroys })
    (trace : s'.trace = s.trace ++ events) (log : part.log = (s.partitions p).log)
    (handled : part.handled = (s.partitions p).handled + 1) (worker : part.worker = .waiting)
    (once : destroys = if q = p then 1 else 0)
    (noted : ∀ a ∈ events, a = .destroy p b) : Synced s' := by
  have unpassed := not_passed acc planned hold hb
  have passed : ∀ b' r, Passed s' b' r ↔ Passed s b' r ∨ r = p ∧ b = b' := by
    intro b' r
    rw [passed_finish acc hold log handled partitions, hb, Option.some.injEq]
  have reached : ∀ b' r, Reached s' b' r ↔ Reached s b' r := by
    intro b' r
    unfold Reached
    rw [passed]
    by_cases eq : r = p
    · subst eq
      rw [partitions, Function.update_self, worker, inside, Option.some.injEq]
      simp [Worker.barrier]
    · rw [partitions, Function.update_of_ne eq]
      simp [eq]
  have there : ∀ b', (s'.barriers b').arrived = (s.barriers b').arrived ∧
      (s'.barriers b').serial = (s.barriers b').serial ∧ (s'.barriers b').count = (s.barriers b').count := by
    intro b'
    rw [barriers]
    by_cases eq : b' = b
    · subst eq
      simp
    · simp [Function.update_of_ne eq]
  have elsewhere : ∀ {b'}, b' ≠ b → s'.barriers b' = s.barriers b' := by
    intro b' ne
    rw [barriers, Function.update_of_ne ne]
  have here : (s'.barriers b).destroyed = (s.barriers b).destroyed + destroys := by
    rw [barriers, Function.update_self]
  constructor
  case nodup =>
    intro b'
    rw [(there b').1]
    exact synced.nodup b'
  case arrived =>
    intro b' r
    rw [(there b').1, reached]
    exact synced.arrived b' r
  case waiting =>
    intro b'
    rw [(there b').1, (there b').2.1, (there b').2.2]
    exact synced.waiting b'
  case released =>
    intro b'
    rw [(there b').1, (there b').2.1, (there b').2.2]
    exact synced.released b'
  case passed =>
    intro b' r h
    rw [(there b').2.1]
    rcases (passed b' r).mp h with h | ⟨-, rfl⟩
    · exact synced.passed b' r h
    · rw [released]
      exact Option.some_ne_none q
  case destroying =>
    intro r f h
    rw [(there _).2.1]
    rw [partitions] at h
    by_cases eq : r = p
    · subst eq
      rw [Function.update_self, worker] at h
      cases h
    · rw [Function.update_of_ne eq] at h
      exact synced.destroying r f h
  case atMost =>
    intro b'
    by_cases eq : b' = b
    · subst eq
      rw [here, once]
      split
      · rename_i serial
        subst serial
        have := synced.atMost b'
        have : (s.barriers b').destroyed ≠ 1 := by
          intro h
          obtain ⟨r, hr, hpass⟩ := (synced.destroyed b').mp h
          rw [released] at hr
          cases hr
          exact unpassed hpass
        omega
      · exact synced.atMost b'
    · rw [elsewhere eq]
      exact synced.atMost b'
  case destroyed =>
    intro b'
    by_cases eq : b' = b
    · subst eq
      have before := synced.destroyed b'
      have most := synced.atMost b'
      rw [here, (there b').2.1, once]
      simp only [released, Option.some.injEq, exists_eq_left', passed] at before ⊢
      split
      · rename_i serial
        subst serial
        have : (s.barriers b').destroyed ≠ 1 := fun h => unpassed (before.mp h)
        simp
        omega
      · rename_i other
        simpa [other] using before
    · rw [elsewhere eq, synced.destroyed b']
      simp [passed, Ne.symm eq]
  case events =>
    intro b' r mem
    rw [(there b').2.1]
    rw [trace] at mem
    rcases List.mem_append.mp mem with mem | mem
    · exact synced.events b' r mem
    · cases noted _ mem
      rw [released]
      exact Option.some_ne_none q
  case ordered =>
    rw [trace]
    refine List.pairwise_append.mpr ⟨synced.ordered, ?_, ?_⟩
    · apply List.pairwise_of_forall_mem_list
      rintro a - a' ha' b' r t - rfl
      cases noted _ ha'
    · rintro a - a' ha' b' r t - rfl
      cases noted _ ha'

/-- Three statements of a worker are about barriers: it enters one, it leaves it, and the serial thread destroys it.
All others keep each worker where it stands. -/
theorem Work.synced (h : Work cfg s p s') (acc : Accounted cfg s) (planned : Planned cfg s)
    (synced : Synced s) : Synced s' := by
  have typed := (acc p).typed
  cases h with
  | acquire place =>
    exact synced.of_worker [] rfl rfl rfl rfl rfl (by rw [place]; rfl) (fun e h => nomatch h) (by simp)
  | dequeue place | release place | read place | write place | scan place | other place
  | key place | scanned place | hit place | miss place =>
    exact synced.of_worker _ rfl rfl rfl rfl rfl (by rw [place]; rfl) (fun e h => nomatch h) (by simp)
  | arrive serial place type entered => exact Work.synced_arrive acc planned synced place type entered
  | @elect e place released =>
    refine synced.of_worker _ rfl rfl rfl rfl rfl (by rw [place]; rfl) (fun f h => ?_) (by simp)
    cases h
    exact released
  | @leave e q place released other =>
    rw [place] at typed
    refine Work.synced_leave acc planned synced 0 (e := e) (by rw [place]; rfl)
      (Entry.barrier_eq_some.mpr ⟨typed, rfl⟩) (by rw [place]; rfl) released rfl ?_ rfl rfl rfl rfl
      (if_neg other).symm (fun a mem => absurd mem List.not_mem_nil)
    exact (Function.update_eq_self _ _).symm
  | @destroy e place =>
    rw [place] at typed
    exact Work.synced_leave acc planned synced 1 (e := e) (by rw [place]; rfl)
      (Entry.barrier_eq_some.mpr ⟨typed, rfl⟩) (by rw [place]; rfl) (synced.destroying p e place) rfl rfl rfl
      rfl rfl rfl (if_pos rfl).symm (fun a mem => List.mem_singleton.mp mem)
  | @count e answer place =>
    rw [place] at typed
    exact synced.count acc (e := e) (by rw [place]; rfl) (Entry.barrier_eq_none.mpr typed)
      (by rw [place]; rfl) rfl rfl rfl rfl rfl rfl

/-- A push moves no worker, and the entry it adds is behind all that the worker has passed. -/
theorem Push.synced (h : Push cfg s s') (acc : Accounted cfg s) (synced : Synced s) : Synced s' := by
  cases h with
  | skip =>
    exact synced.of_same rfl (fun _ _ => Iff.rfl) (fun _ => rfl) synced.destroying []
      (List.append_nil _).symm (by simp)
  | reserve | post =>
    exact synced.of_worker _ rfl rfl rfl rfl rfl rfl (synced.destroying _) (by simp)
  | @enqueue q e rest stage todo =>
    refine synced.of_same rfl (fun b r => ?_) (fun r => ?_) (fun r f h => ?_) _ rfl (by simp)
    · by_cases eq : r = q
      · subst eq
        simp only [Passed, put_partitions, Function.update_self]
        rw [List.take_append_of_le_length (acc r).bound]
      · simp only [Passed, put_partitions, Function.update_of_ne eq]
    · by_cases eq : r = q
      · subst eq
        simp
      · simp [Function.update_of_ne eq]
    · apply synced.destroying r f
      by_cases eq : r = q
      · subst eq
        simpa using h
      · simpa [Function.update_of_ne eq] using h

/-- New barriers have been reached by nobody. -/
theorem SetUp.synced (h : SetUp cfg s s') (acc : Accounted cfg s) (planned : Planned cfg s)
    (synced : Synced s) : Synced s' := by
  have passed : ∀ b p, Passed s' b p ↔ Passed s b p := fun b p => by simp only [Passed, h.partitions]
  have reached : ∀ b p, Reached s' b p ↔ Reached s b p := fun b p => by simp only [Reached, passed, h.partitions]
  have trace := h.trace
  have fresh : ∀ {b}, s.issue ≤ b → ∀ p, ¬ Reached s b p := by
    intro b new p hr
    exact fresh_barrier planned new p ((planned.members b p).mp (reached_member acc planned hr))
  have unused : ∀ {b}, s.issue ≤ b → (s.barriers b).serial = none := by
    intro b new
    by_contra released
    obtain ⟨q, hq⟩ := Option.ne_none_iff_exists'.mp released
    exact fresh new q ((synced.arrived b q).mp (synced.released b q hq).1)
  constructor
  case destroying =>
    intro p e place
    rw [h.partitions] at place
    have hs := synced.destroying p e place
    rcases h.barriers e.message.sAddr with ⟨same, -⟩ | ⟨new, -⟩
    · rw [same]
      exact hs
    · rw [unused new] at hs
      cases hs
  case events =>
    intro b q mem
    rw [trace] at mem
    rcases h.barriers b with ⟨same, -⟩ | ⟨new, -⟩
    · rw [same]
      exact synced.events b q mem
    · exact absurd (unused new) (synced.events b q mem)
  case ordered =>
    rw [trace]
    exact synced.ordered
  case arrived =>
    intro b p
    rw [reached]
    rcases h.barriers b with ⟨same, -⟩ | ⟨new, order, -, -, created, -⟩
    · rw [same]
      exact synced.arrived b p
    · rw [created]
      simp [Barrier.create, fresh new p]
  case passed =>
    intro b p hp
    rw [passed] at hp
    rcases h.barriers b with ⟨same, -⟩ | ⟨new, -⟩
    · rw [same]
      exact synced.passed b p hp
    · exact absurd (Or.inl hp) (fresh new p)
  all_goals
    intro b
    rcases h.barriers b with ⟨same, -⟩ | ⟨-, order, -, -, created, -⟩
  case nodup.inl => exact same ▸ synced.nodup b
  case waiting.inl => exact same ▸ synced.waiting b
  case released.inl => exact same ▸ synced.released b
  case atMost.inl => exact same ▸ synced.atMost b
  case destroyed.inl =>
    simp only [same, passed]
    exact synced.destroyed b
  all_goals
    rw [created]
    simp [Barrier.create]

/-- **The barriers agree with the workers** along every run of requests. -/
theorem synced_step {l : Label n} (requests : ∀ m ∈ cfg.requests, m.IsRequest) (some_partition : 0 < n)
    (acc : Accounted cfg s) (planned : Planned cfg s) (synced : Synced s) (h : step cfg s l = some s') :
    Synced s' := by
  cases l with
  | dispatch first rest => exact ((dispatch_cases h).setUp requests).synced acc planned synced
  | repartition scheme order => exact ((repartition_cases h).setUp some_partition).synced acc planned synced
  | push => exact (push_cases h).synced acc synced
  | work p serial => exact (work_cases h).synced acc planned synced

end Steps

/-- What holds in every state of a run of requests. -/
structure Sound (cfg : Config n) (s : State n) : Prop where
  accounted : Accounted cfg s
  planned : Planned cfg s
  synced : Synced s
  short : ShortPaid s

theorem sound_step {l : Label n} (requests : ∀ m ∈ cfg.requests, m.IsRequest) (sound : Sound cfg s)
    (h : step cfg s l = some s') : Sound cfg s' :=
  have some_partition := s.mapping.roundRobinCounter.pos
  ⟨accounted_step sound.accounted h, planned_step requests some_partition sound.planned h,
    synced_step requests some_partition sound.accounted sound.planned sound.synced h,
    shortPaid_step sound.accounted sound.short h⟩

/-- **The invariants of the pool** hold in every reachable state. -/
theorem reachable_sound (requests : ∀ m ∈ cfg.requests, m.IsRequest) (h : (system cfg).Reachable s) :
    Sound cfg s :=
  h.invariant ⟨init_accounted, init_planned, init_synced, init_shortPaid⟩
    fun _ _ _ sound step => sound_step requests sound step

end KvPaxos.Pool
