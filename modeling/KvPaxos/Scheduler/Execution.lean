import Mathlib.Data.List.Perm.Subperm
import KvPaxos.Scheduler.Order

/-!
# Which requests a run has executed

The trace of a run against the messages the workers have handled: a request is started
once, by the worker that holds it, its accesses lie between its start and its finish, and
its start comes after the finish of every earlier request that shares a key. A run that
has nothing under way has executed every dispatched request exactly once.
-/

namespace KvPaxos

namespace Event

variable {n : Nat}

/-- The request whose execution starts. -/
def started : Event n → Option Nat
  | .start _ k => some k
  | _ => none

/-- The request whose execution finishes. -/
def finished : Event n → Option Nat
  | .finish _ k _ => some k
  | _ => none

/-- The worker and the request of an event inside an execution, its finish included. -/
def inside : Event n → Option (Fin n × Nat)
  | .write p k | .lookup p k _ | .error p k | .finish p k _ => some (p, k)
  | _ => none

end Event

namespace Pool

open Lib Lib.Lanes

variable {n : Nat} {cfg : Config n} {s s' : State n} {p q : Fin n} {k : Nat}

/-- Worker `p` is done with request `k`. -/
def Done (s : State n) (p : Fin n) (k : Nat) : Prop :=
  ∃ e ∈ (s.partitions p).log.take (s.partitions p).handled, e.barrier = none ∧ e.number = k

/-- Worker `p` has begun to execute request `k`. -/
def Begun (s : State n) (p : Fin n) (k : Nat) : Prop :=
  Done s p k ∨ ∃ e, (s.partitions p).worker.running = some e ∧ e.number = k

/-- What holds of an event and the events before it. -/
structure Scheduled (cfg : Config n) (pre : List (Event n)) (a : Event n) : Prop where
  once : ∀ k, a.started = some k → k ∉ pre.filterMap Event.started
  inside : ∀ p k, a.inside = some (p, k) → .start p k ∈ pre ∧ k ∉ pre.filterMap Event.finished
  order : ∀ k, a.started = some k → ∀ j < k, ∀ r r', cfg.requests[j]? = some r → cfg.requests[k]? = some r' →
    r.Conflict r' → j ∈ pre.filterMap Event.finished

/-- The trace tells which requests have been started and finished, and by whom. -/
structure Recorded (cfg : Config n) (s : State n) : Prop where
  started : ∀ p k, .start p k ∈ s.trace ↔ Begun s p k
  finished : ∀ p k, (∃ answer, .finish p k answer ∈ s.trace) ↔ Done s p k
  scheduled : EachAfter (Scheduled cfg) s.trace

theorem mem_started {l : List (Event n)} : k ∈ l.filterMap Event.started ↔ ∃ p, .start p k ∈ l := by
  rw [List.mem_filterMap]
  constructor
  · rintro ⟨a, mem, h⟩
    cases a <;> cases h
    exact ⟨_, mem⟩
  · rintro ⟨p, mem⟩
    exact ⟨_, mem, rfl⟩

theorem mem_finished {l : List (Event n)} :
    k ∈ l.filterMap Event.finished ↔ ∃ p answer, .finish p k answer ∈ l := by
  rw [List.mem_filterMap]
  constructor
  · rintro ⟨a, mem, h⟩
    cases a <;> cases h
    exact ⟨_, _, mem⟩
  · rintro ⟨p, answer, mem⟩
    exact ⟨_, mem, rfl⟩

theorem init_recorded : Recorded cfg (init cfg) := by
  have undone : ∀ p k, ¬ Done (init cfg) p k := by
    rintro p k ⟨e, mem, -⟩
    exact List.not_mem_nil mem
  refine ⟨fun p k => ?_, fun p k => ?_, EachAfter.nil⟩
  · refine iff_of_false List.not_mem_nil ?_
    rintro (h | ⟨e, h, -⟩)
    · exact undone p k h
    · cases h
  · exact iff_of_false (fun ⟨_, mem⟩ => List.not_mem_nil mem) (undone p k)

section Uniqueness

/-- The message in the worker's hand has a place in the plan. -/
theorem current_place (acc : Accounted cfg s) {e : Entry} (hold : (s.partitions p).worker.entry = some e)
    (request : e.barrier = none) : Place s p (s.partitions p).handled e := by
  have here := (acc p).current hold
  exact ⟨by rw [plan_log (List.getElem?_eq_some_iff.mp here).1, here], request⟩

/-- What a worker is done with has a place among its handled messages. -/
theorem done_place (acc : Accounted cfg s) : Done s p k ↔
    ∃ i < (s.partitions p).handled, ∃ e, Place s p i e ∧ e.number = k := by
  have bound := (acc p).bound
  constructor
  · rintro ⟨e, mem, request, number⟩
    obtain ⟨i, lt, rfl⟩ := List.mem_take_iff_getElem.mp mem
    refine ⟨i, by omega, _, ⟨?_, request⟩, number⟩
    rw [plan_log (by omega), List.getElem?_eq_getElem]
  · rintro ⟨i, lt, e, place, number⟩
    have at_ := place.at_
    rw [plan_log (by omega), List.getElem?_eq_getElem (by omega)] at at_
    refine ⟨e, ?_, place.request, number⟩
    exact List.mem_take_iff_getElem.mpr ⟨i, by omega, Option.some.inj at_⟩

/-- A request has one place. -/
theorem place_unique (planned : Planned cfg s) {i j : Nat} {e f : Entry} (he : Place s p i e)
    (hf : Place s q j f) (same : e.number = f.number) : p = q ∧ i = j := by
  obtain ⟨rfl, issue⟩ := planned.single p e (List.mem_of_getElem? he.at_) q f
    (List.mem_of_getElem? hf.at_) he.request hf.request same
  exact ⟨rfl, position_unique (planned.sorted p) he.at_ hf.at_ issue⟩

/-- Nobody is done with a request that is in a worker's hand. -/
theorem not_done (acc : Accounted cfg s) (planned : Planned cfg s) {e : Entry}
    (hold : (s.partitions p).worker.entry = some e) (request : e.barrier = none) (q : Fin n) :
    ¬ Done s q e.number := by
  intro h
  obtain ⟨i, lt, f, place, number⟩ := (done_place acc).mp h
  obtain ⟨rfl, rfl⟩ := place_unique planned place (current_place acc hold request) number
  exact Nat.lt_irrefl _ lt

/-- A request a worker executes is in its hand and is no SYNC. -/
theorem running_request (acc : Accounted cfg s) {e : Entry} (h : (s.partitions p).worker.running = some e) :
    (s.partitions p).worker.entry = some e ∧ e.barrier = none := by
  have typed := (acc p).typed
  cases place : (s.partitions p).worker with
  | scanning f | reading f =>
    rw [place] at h typed
    cases h
    refine ⟨rfl, Entry.barrier_eq_none.mpr ?_⟩
    rw [typed.1]
    decide
  | counting f =>
    rw [place] at h typed
    cases h
    exact ⟨rfl, Entry.barrier_eq_none.mpr typed⟩
  | _ =>
    rw [place] at h
    cases h

/-- Nobody has begun a request that a worker is about to execute. -/
theorem not_begun (acc : Accounted cfg s) (planned : Planned cfg s) {e : Entry}
    (place : (s.partitions p).worker = .handling e) (request : e.barrier = none) (q : Fin n) :
    ¬ Begun s q e.number := by
  have hold : (s.partitions p).worker.entry = some e := by rw [place]; rfl
  rintro (h | ⟨f, h, number⟩)
  · exact not_done acc planned hold request q h
  · obtain ⟨hold', request'⟩ := running_request acc h
    obtain ⟨rfl, -⟩ := place_unique planned (current_place acc hold' request')
      (current_place acc hold request) number
    rw [place] at h
    cases h

/-- The message in the worker's hand is the dispatched one. -/
theorem current_message (sound : Sound cfg s) {e : Entry} (hold : (s.partitions p).worker.entry = some e)
    (request : e.barrier = none) : cfg.requests[e.number]? = some e.message :=
  (sound.planned.request p e (List.mem_of_getElem? (current_place sound.accounted hold request).at_) request).2

/-- Every dispatched request has a place. -/
theorem exists_place (planned : Planned cfg s) (lt : k < s.dispatched) :
    ∃ q i f, Place s q i f ∧ f.number = k ∧ cfg.requests[k]? = some f.message := by
  obtain ⟨q, f, mem, request, number⟩ := planned.placed k lt
  obtain ⟨i, at_⟩ := List.mem_iff_getElem?.mp mem
  exact ⟨q, i, f, ⟨at_, request⟩, number, number ▸ (planned.request q f mem request).2⟩

/-- When a worker has a request in its hand, every earlier one in conflict with it is done. -/
theorem earlier_done (sound : Sound cfg s) (ordered : Ordered s) {e : Entry}
    (hold : (s.partitions p).worker.entry = some e) (request : e.barrier = none) {r : ClientMessage}
    (lt : k < e.number) (hr : cfg.requests[k]? = some r) (conflict : r.Conflict e.message) :
    ∃ q, Done s q k := by
  have here := current_place sound.accounted hold request
  have dispatched := (sound.planned.request p e (List.mem_of_getElem? here.at_) request).1
  obtain ⟨q, i, f, place, rfl, message⟩ := exists_place sound.planned (Nat.lt_trans lt dispatched)
  cases hr.symm.trans message
  have before := earlier_handled sound ordered place here lt conflict (Nat.le_refl _)
  exact ⟨q, (done_place sound.accounted).mpr ⟨i, before, f, place, rfl⟩⟩

/-- When a worker has a request in its hand, no later one in conflict with it has begun. -/
theorem later_not_begun (sound : Sound cfg s) (ordered : Ordered s) {e : Entry}
    (hold : (s.partitions p).worker.entry = some e) (request : e.barrier = none) {r : ClientMessage}
    (lt : e.number < k) (hr : cfg.requests[k]? = some r) (conflict : e.message.Conflict r) (q : Fin n) :
    ¬ Begun s q k := by
  have here := current_place sound.accounted hold request
  have begunPlace : Begun s q k → ∃ i ≤ (s.partitions q).handled, ∃ f, Place s q i f ∧ f.number = k := by
    rintro (done | ⟨f, running, number⟩)
    · obtain ⟨i, le, f, place, number⟩ := (done_place sound.accounted).mp done
      exact ⟨i, Nat.le_of_lt le, f, place, number⟩
    · obtain ⟨hold', request'⟩ := running_request sound.accounted running
      exact ⟨_, Nat.le_refl _, f, current_place sound.accounted hold' request', number⟩
  intro begun
  obtain ⟨i, le, f, place, rfl⟩ := begunPlace begun
  have message := (sound.planned.request q f (List.mem_of_getElem? place.at_) place.request).2
  cases hr.symm.trans message
  exact Nat.lt_irrefl _ (earlier_handled sound ordered here place lt conflict le)

end Uniqueness

section Steps

/-- Steps that execute nothing. -/
theorem Recorded.of_same (rec : Recorded cfg s) (begun : ∀ p k, Begun s' p k ↔ Begun s p k)
    (done : ∀ p k, Done s' p k ↔ Done s p k) (events : List (Event n))
    (trace : s'.trace = s.trace ++ events)
    (silent : events = [] ∨ ∃ a, events = [a] ∧ a.started = none ∧ a.inside = none) : Recorded cfg s' := by
  rcases silent with rfl | ⟨a, rfl, start, inside⟩
  · rw [List.append_nil] at trace
    refine ⟨fun p k => ?_, fun p k => ?_, ?_⟩
    · rw [trace, begun]
      exact rec.started p k
    · rw [trace, done]
      exact rec.finished p k
    · rw [trace]
      exact rec.scheduled
  · refine ⟨fun p k => ?_, fun p k => ?_, ?_⟩
    · rw [trace, begun, ← rec.started p k, List.mem_append, List.mem_singleton]
      refine or_iff_left ?_
      rintro rfl
      cases start
    · rw [trace, done, ← rec.finished p k]
      refine exists_congr fun answer => ?_
      rw [List.mem_append, List.mem_singleton]
      refine or_iff_left ?_
      rintro rfl
      cases inside
    · rw [trace]
      refine rec.scheduled.snoc ⟨fun k h => ?_, fun p k h => ?_, fun k h => ?_⟩
      · rw [start] at h
        cases h
      · rw [inside] at h
        cases h
      · rw [start] at h
        cases h

/-- The progress of the workers after `p` has moved to `part`. -/
theorem done_put {part : Partition} (partitions : s'.partitions = Function.update s.partitions p part)
    (log : part.log = (s.partitions p).log) (handled : part.handled = (s.partitions p).handled) (q : Fin n)
    (k : Nat) : Done s' q k ↔ Done s q k := by
  by_cases eq : q = p
  · subst eq
    simp only [Done, partitions, Function.update_self, log, handled]
  · simp only [Done, partitions, Function.update_of_ne eq]

theorem begun_put {part : Partition} (partitions : s'.partitions = Function.update s.partitions p part)
    (log : part.log = (s.partitions p).log) (handled : part.handled = (s.partitions p).handled)
    (running : part.worker.running = (s.partitions p).worker.running) (q : Fin n)
    (k : Nat) : Begun s' q k ↔ Begun s q k := by
  unfold Begun
  rw [done_put partitions log handled]
  by_cases eq : q = p
  · subst eq
    rw [partitions, Function.update_self, running]
  · rw [partitions, Function.update_of_ne eq]

/-- Worker `p` starts executing the request in its hand. -/
theorem Recorded.start (rec : Recorded cfg s) (sound : Sound cfg s) (ordered : Ordered s) {e : Entry}
    {part : Partition} (place : (s.partitions p).worker = .handling e) (request : e.barrier = none)
    (partitions : s'.partitions = Function.update s.partitions p part)
    (log : part.log = (s.partitions p).log) (handled : part.handled = (s.partitions p).handled)
    (running : part.worker.running = some e) (trace : s'.trace = s.trace ++ [.start p e.number]) :
    Recorded cfg s' := by
  have hold : (s.partitions p).worker.entry = some e := by rw [place]; rfl
  have fresh := not_begun sound.accounted sound.planned place request
  refine ⟨fun q k => ?_, fun q k => ?_, ?_⟩
  · rw [trace, List.mem_append, List.mem_singleton, rec.started, Begun, Begun,
      done_put partitions log handled, or_assoc]
    refine or_congr_right ?_
    by_cases eq : q = p
    · subst eq
      rw [partitions, Function.update_self, running, place]
      simp [Worker.running, eq_comm]
    · rw [partitions, Function.update_of_ne eq]
      simp [eq]
  · rw [trace, done_put partitions log handled, ← rec.finished]
    simp
  · rw [trace]
    refine rec.scheduled.snoc ⟨?_, fun q k h => (nomatch h), ?_⟩
    · rintro _ ⟨⟩ mem
      obtain ⟨q, mem⟩ := mem_started.mp mem
      exact fresh q ((rec.started q _).mp mem)
    · rintro _ ⟨⟩ j lt r r' hr hr' conflict
      cases (current_message sound hold request).symm.trans hr'
      obtain ⟨q, done⟩ := earlier_done sound ordered hold request lt hr conflict
      obtain ⟨answer, mem⟩ := (rec.finished q j).mpr done
      exact mem_finished.mpr ⟨q, answer, mem⟩

/-- A request in a worker's hand has not been finished. -/
theorem Recorded.unfinished (rec : Recorded cfg s) (acc : Accounted cfg s) (planned : Planned cfg s)
    {e : Entry} (hold : (s.partitions p).worker.entry = some e) (request : e.barrier = none) :
    e.number ∉ s.trace.filterMap Event.finished := by
  intro mem
  obtain ⟨q, answer, mem⟩ := mem_finished.mp mem
  exact not_done acc planned hold request q ((rec.finished q _).mp ⟨answer, mem⟩)

/-- An event inside an execution that is going on. -/
theorem scheduled_inside {pre : List (Event n)} {a : Event n} (begun : .start p k ∈ pre)
    (unfinished : k ∉ pre.filterMap Event.finished) (start : a.started = none)
    (inside : a.inside = some (p, k)) : Scheduled cfg pre a := by
  refine ⟨fun j h => ?_, fun q j h => ?_, fun j h => ?_⟩
  · rw [start] at h
    cases h
  · rw [inside] at h
    cases h
    exact ⟨begun, unfinished⟩
  · rw [start] at h
    cases h

/-- A storage access of an execution that is going on. -/
theorem Recorded.access (rec : Recorded cfg s) (begun : ∀ p k, Begun s' p k ↔ Begun s p k)
    (done : ∀ p k, Done s' p k ↔ Done s p k) {a : Event n} (now : .start p k ∈ s.trace)
    (unfinished : k ∉ s.trace.filterMap Event.finished) (start : a.started = none)
    (finish : a.finished = none) (inside : a.inside = some (p, k)) (trace : s'.trace = s.trace ++ [a]) :
    Recorded cfg s' := by
  refine ⟨fun q j => ?_, fun q j => ?_, ?_⟩
  · rw [trace, begun, ← rec.started q j, List.mem_append, List.mem_singleton]
    refine or_iff_left ?_
    rintro rfl
    cases start
  · rw [trace, done, ← rec.finished q j]
    refine exists_congr fun answer => ?_
    rw [List.mem_append, List.mem_singleton]
    refine or_iff_left ?_
    rintro rfl
    cases finish
  · rw [trace]
    exact rec.scheduled.snoc (scheduled_inside now unfinished start inside)

/-- Worker `p` finishes the request it is running. -/
theorem Recorded.finish (rec : Recorded cfg s) (acc : Accounted cfg s) (planned : Planned cfg s) {e : Entry}
    {part : Partition} {answer : List Char} (running : (s.partitions p).worker.running = some e)
    (partitions : s'.partitions = Function.update s.partitions p part)
    (log : part.log = (s.partitions p).log) (handled : part.handled = (s.partitions p).handled + 1)
    (worker : part.worker = .waiting) (trace : s'.trace = s.trace ++ [.finish p e.number answer]) :
    Recorded cfg s' := by
  obtain ⟨hold, request⟩ := running_request acc running
  have done : ∀ q k, Done s' q k ↔ Done s q k ∨ q = p ∧ e.number = k := by
    intro q k
    by_cases eq : q = p
    · subst eq
      simp only [Done, partitions, Function.update_self, log, handled, (acc q).take_succ hold,
        List.mem_append, List.mem_singleton, or_and_right, exists_or, exists_eq_left, request, true_and]
    · simp only [Done, partitions, Function.update_of_ne eq, eq, false_and, or_false]
  refine ⟨fun q k => ?_, fun q k => ?_, ?_⟩
  · rw [trace, List.mem_append, rec.started, Begun, Begun, done]
    have : Event.start q k ∉ [Event.finish p e.number answer] := by simp
    rw [or_iff_left this, or_assoc]
    refine or_congr_right ?_
    by_cases eq : q = p
    · subst eq
      rw [partitions, Function.update_self, worker, running]
      simp [Worker.running]
    · rw [partitions, Function.update_of_ne eq]
      simp [eq]
  · rw [trace, done, ← rec.finished]
    simp only [List.mem_append, List.mem_singleton, Event.finish.injEq, exists_or, exists_and_left,
      exists_eq, and_true]
    refine or_congr_right (and_congr_right fun _ => eq_comm)
  · rw [trace]
    refine rec.scheduled.snoc (scheduled_inside ?_ (rec.unfinished acc planned hold request) rfl rfl)
    exact (rec.started p _).mpr (Or.inr ⟨e, running, rfl⟩)

/-- Being done with a SYNC message. -/
theorem Recorded.leave (rec : Recorded cfg s) (acc : Accounted cfg s) {e : Entry} {part : Partition}
    (hold : (s.partitions p).worker.entry = some e) (sync : e.barrier ≠ none)
    (idle : (s.partitions p).worker.running = none)
    (partitions : s'.partitions = Function.update s.partitions p part)
    (log : part.log = (s.partitions p).log) (handled : part.handled = (s.partitions p).handled + 1)
    (worker : part.worker = .waiting) (events : List (Event n)) (trace : s'.trace = s.trace ++ events)
    (silent : events = [] ∨ ∃ a, events = [a] ∧ a.started = none ∧ a.inside = none) : Recorded cfg s' := by
  have done : ∀ q k, Done s' q k ↔ Done s q k := by
    intro q k
    by_cases eq : q = p
    · subst eq
      simp only [Done, partitions, Function.update_self, log, handled, (acc q).take_succ hold,
        List.mem_append, List.mem_singleton, or_and_right, exists_or, exists_eq_left, sync, false_and, or_false]
    · simp only [Done, partitions, Function.update_of_ne eq]
  refine rec.of_same (fun q k => ?_) done events trace silent
  unfold Begun
  rw [done]
  by_cases eq : q = p
  · subst eq
    rw [partitions, Function.update_self, worker, idle]
    rfl
  · rw [partitions, Function.update_of_ne eq]

theorem Work.recorded (h : Work cfg s p s') (sound : Sound cfg s) (ordered : Ordered s)
    (rec : Recorded cfg s) : Recorded cfg s' := by
  have typed := (sound.accounted p).typed
  have acc := sound.accounted
  have planned := sound.planned
  -- the request the worker is running, if any, has been started and not finished
  have live : ∀ {e : Entry}, (s.partitions p).worker.running = some e →
      .start p e.number ∈ s.trace ∧ e.number ∉ s.trace.filterMap Event.finished := by
    intro e running
    obtain ⟨hold, request⟩ := running_request acc running
    exact ⟨(rec.started p _).mpr (Or.inr ⟨e, running, rfl⟩), rec.unfinished acc planned hold request⟩
  cases h with
  | acquire place | dequeue place | release place | key place | scanned place | elect place =>
    exact rec.of_same (begun_put rfl rfl rfl (by rw [place]; rfl)) (done_put rfl rfl rfl) [] rfl (Or.inl rfl)
  | arrive serial place type entered =>
    exact rec.of_same (begun_put rfl rfl rfl (by rw [place]; rfl)) (done_put rfl rfl rfl) _ rfl
      (Or.inr ⟨_, rfl, rfl, rfl⟩)
  | read place type | scan place type =>
    exact rec.start sound ordered place (Entry.barrier_eq_none.mpr (by rw [type]; decide)) rfl rfl rfl rfl rfl
  | other place type =>
    exact rec.start sound ordered place (Entry.barrier_eq_none.mpr type.2.2.2) rfl rfl rfl rfl rfl
  | @write e place type =>
    have request : e.barrier = none := Entry.barrier_eq_none.mpr (by rw [type]; decide)
    have hold : (s.partitions p).worker.entry = some e := by rw [place]; rfl
    set part : Partition := { s.partitions p with worker := .counting e e.message.args }
    have started : Recorded cfg (s.put p part [.start p e.number]) :=
      rec.start sound ordered place request rfl rfl rfl rfl rfl
    refine started.access (a := .write p e.number) (fun _ _ => Iff.rfl) (fun _ _ => Iff.rfl)
      (List.mem_append_right _ (List.mem_singleton.mpr rfl)) ?_ rfl rfl rfl ?_
    · simpa [Event.finished] using rec.unfinished acc planned hold request
    · simp
  | @hit e length i values key value place found =>
    obtain ⟨now, unfinished⟩ := live (e := e) (by rw [place]; rfl)
    exact rec.access (begun_put rfl rfl rfl (by rw [place]; rfl)) (done_put rfl rfl rfl) now unfinished
      rfl rfl rfl rfl
  | @miss e length i values key place absent =>
    obtain ⟨now, unfinished⟩ := live (e := e) (by rw [place]; rfl)
    set part : Partition := { s.partitions p with
      worker := .counting e errorAnswer, errorCount := (s.partitions p).errorCount + 1 }
    have looked : Recorded cfg (s.put p part [.lookup p e.number key]) :=
      rec.access (begun_put rfl rfl rfl (by rw [place]; rfl)) (done_put rfl rfl rfl) now unfinished
        rfl rfl rfl rfl
    refine looked.access (a := .error p e.number) (fun _ _ => Iff.rfl) (fun _ _ => Iff.rfl)
      (List.mem_append_left _ now) ?_ rfl rfl rfl ?_
    · simpa [Event.finished] using unfinished
    · simp
  | @leave e q place released other =>
    rw [place] at typed
    exact rec.leave acc (e := e) (by rw [place]; rfl) (fun h => Entry.barrier_eq_none.mp h typed)
      (by rw [place]; rfl) rfl rfl rfl rfl [] rfl (Or.inl rfl)
  | @destroy e place =>
    rw [place] at typed
    exact rec.leave acc (e := e) (by rw [place]; rfl) (fun h => Entry.barrier_eq_none.mp h typed)
      (by rw [place]; rfl) rfl rfl rfl rfl _ rfl (Or.inr ⟨_, rfl, rfl, rfl⟩)
  | @count e answer place =>
    exact rec.finish acc planned (by rw [place]; rfl) rfl rfl rfl rfl rfl

/-- A push starts nothing and finishes nothing. -/
theorem Push.recorded (h : Push cfg s s') (acc : Accounted cfg s) (rec : Recorded cfg s) : Recorded cfg s' := by
  cases h with
  | skip =>
    exact rec.of_same (fun _ _ => Iff.rfl) (fun _ _ => Iff.rfl) [] (List.append_nil _).symm (Or.inl rfl)
  | reserve | post =>
    exact rec.of_same (begun_put rfl rfl rfl rfl) (done_put rfl rfl rfl) [] rfl (Or.inl rfl)
  | @enqueue q e rest stage todo =>
    have done : ∀ r k, Done { s.put q { s.partitions q with
          requestsQueue := (s.partitions q).requestsQueue ++ [e]
          log := (s.partitions q).log ++ [e] } [] with todo := rest, stage := .posting q } r k ↔ Done s r k := by
      intro r k
      by_cases eq : r = q
      · subst eq
        simp only [Done, put_partitions, Function.update_self]
        rw [List.take_append_of_le_length (acc r).bound]
      · simp only [Done, put_partitions, Function.update_of_ne eq]
    refine rec.of_same (fun r k => ?_) done [] rfl (Or.inl rfl)
    unfold Begun
    rw [done]
    by_cases eq : r = q
    · subst eq
      simp
    · simp [Function.update_of_ne eq]

theorem SetUp.recorded (h : SetUp cfg s s') (rec : Recorded cfg s) : Recorded cfg s' := by
  refine rec.of_same (fun p k => ?_) (fun p k => ?_) [] ?_ (Or.inl rfl)
  · simp only [Begun, Done, h.partitions]
  · simp only [Done, h.partitions]
  · rw [h.trace, List.append_nil]

theorem recorded_step {l : Label n} (requests : ∀ m ∈ cfg.requests, m.IsRequest) (sound : Sound cfg s)
    (ordered : Ordered s) (rec : Recorded cfg s) (h : step cfg s l = some s') : Recorded cfg s' := by
  cases l with
  | dispatch first rest => exact ((dispatch_cases h).setUp requests).recorded rec
  | repartition scheme order =>
    have setUp : SetUp cfg s s' := (repartition_cases h).setUp s.mapping.roundRobinCounter.pos
    exact setUp.recorded rec
  | push => exact (push_cases h).recorded sound.accounted rec
  | work p serial => exact (work_cases h).recorded sound ordered rec

/-- The trace invariants hold along every run. -/
theorem reachable_recorded (requests : ∀ m ∈ cfg.requests, m.IsRequest) (h : (system cfg).Reachable s) :
    Sound cfg s ∧ Ordered s ∧ Recorded cfg s :=
  h.invariant (P := fun s => Sound cfg s ∧ Ordered s ∧ Recorded cfg s)
    ⟨⟨init_accounted, init_planned, init_synced, init_shortPaid⟩, init_ordered, init_recorded⟩
    fun _ _ _ ⟨sound, ordered, rec⟩ step => ⟨sound_step requests sound step,
      ordered_step requests sound ordered step, recorded_step requests sound ordered rec step⟩

end Steps

section Runs

/-- With nothing under way every plan has been handled. -/
theorem Quiescent.handled (quiet : Quiescent s) (acc : Accounted cfg s) (p : Fin n) :
    (s.partitions p).log.take (s.partitions p).handled = plan s p := by
  have line := (acc p).line
  obtain ⟨worker, queue⟩ := quiet.workers p
  rw [worker, queue] at line
  have all : (s.partitions p).log.length ≤ (s.partitions p).handled := List.drop_eq_nil_iff.mp line
  rw [plan_of_nil quiet.todo, List.take_of_length_le all]

/-- With nothing under way the dispatched requests are the executed ones. -/
theorem Quiescent.done (quiet : Quiescent s) (sound : Sound cfg s) (k : Nat) :
    (∃ p, Done s p k) ↔ k < s.dispatched := by
  constructor
  · rintro ⟨p, e, mem, request, rfl⟩
    exact (sound.planned.request p e (List.mem_append_left _ (List.mem_of_mem_take mem)) request).1
  · intro lt
    obtain ⟨p, e, mem, request, number⟩ := sound.planned.placed k lt
    exact ⟨p, e, by rw [quiet.handled sound.accounted]; exact mem, request, number⟩

/-- **The workers' counters** add up to the dispatched requests when nothing is under way. -/
theorem Quiescent.executed (quiet : Quiescent s) (sound : Sound cfg s) :
    ∑ p, (s.partitions p).nExecutedRequests = s.dispatched := by
  have total := sound.planned.total fun _ => true
  simp only [countWhere_true, List.countP_true, List.length_range] at total
  rw [← total]
  refine Finset.sum_congr rfl fun p _ => ?_
  rw [(sound.accounted p).executed, quiet.handled sound.accounted]

/-- **The order of execution.** Over every run of requests, repartitions included, in which `dispatch` pushes them one
by one and the workers take them as they come: no request is executed twice, and none by two workers; requests that
conflict, on a key or within a range, are executed one after the other in dispatch order; and a run that has nothing
under way has executed each dispatched request once, which is what the workers' counters come to together. -/
theorem dispatch_order (cfg : Config n) (requests : ∀ m ∈ cfg.requests, m.IsRequest) {s : State n}
    (h : (system cfg).Reachable s) :
    (s.trace.filterMap Event.started).Nodup ∧ (s.trace.filterMap Event.finished).Nodup ∧
    (∀ pre a post p k, s.trace = pre ++ a :: post → a.inside = some (p, k) →
      .start p k ∈ pre ∧ k ∉ pre.filterMap Event.finished) ∧
    (∀ j k r r', j < k → cfg.requests[j]? = some r → cfg.requests[k]? = some r' → r.Conflict r' →
      ∀ pre p post, s.trace = pre ++ .start p k :: post → j ∈ pre.filterMap Event.finished) ∧
    (Quiescent s → (s.trace.filterMap Event.started).Perm (List.range s.dispatched) ∧
      (s.trace.filterMap Event.finished).Perm (List.range s.dispatched) ∧
      ∑ p, (s.partitions p).nExecutedRequests = s.dispatched) := by
  obtain ⟨sound, -, rec⟩ := reachable_recorded requests h
  have startedOnce : (s.trace.filterMap Event.started).Nodup :=
    (rec.scheduled.mono fun _ _ ok => ok.once).nodup
  have finishedOnce : (s.trace.filterMap Event.finished).Nodup := by
    refine (rec.scheduled.mono fun pre a ok k fin => ?_).nodup
    cases a with
    | finish p j answer =>
      cases fin
      exact (ok.inside p _ rfl).2
    | _ => cases fin
  refine ⟨startedOnce, finishedOnce, fun pre a post p k eq => (rec.scheduled pre a post eq).inside p k, ?_,
    fun quiet => ⟨?_, ?_, quiet.executed sound⟩⟩
  · intro j k r r' lt hr hr' conflict pre p post eq
    exact (rec.scheduled pre _ post eq).order k rfl j lt r r' hr hr' conflict
  · refine (List.perm_ext_iff_of_nodup startedOnce List.nodup_range).mpr fun k => ?_
    rw [mem_started, List.mem_range, ← quiet.done sound k]
    refine exists_congr fun p => (rec.started p k).trans (or_iff_left ?_)
    rintro ⟨e, running, -⟩
    rw [(quiet.workers p).1] at running
    cases running
  · refine (List.perm_ext_iff_of_nodup finishedOnce List.nodup_range).mpr fun k => ?_
    rw [mem_finished, List.mem_range, ← quiet.done sound k]
    exact exists_congr fun p => rec.finished p k

/-- Two partitions with queues of one place, a WRITE of key 0 and a SCAN of the keys 0 and 1. -/
def crossConfig : Config 2 where
  capacity := 1
  compresser := ⟨id, some⟩
  storage := Storage.populated ⟨id, some⟩ [0, 1]
  mapping := ⟨Finmap.insert 0 0 (Finmap.insert 1 1 ∅), 0⟩
  requests := [{ key := 0, type := .WRITE }, { key := 0, type := .SCAN, args := ['2'] }]

/-- The WRITE goes to partition 0, a repartition moves key 0 and drops key 1, and the SCAN goes
to both partitions. -/
def crossRun : List (Label 2) :=
  let push (k : Nat) : List (Label 2) := List.replicate k .push
  let work (p : Fin 2) (k : Nat) : List (Label 2) := List.replicate k (.work p 0)
  [.dispatch 0 []] ++ push 3 ++ work 0 5 ++
  [.repartition (Finmap.insert 0 1 ∅) [0, 1]] ++ push 6 ++ work 0 4 ++ work 1 4 ++ work 0 2 ++ work 1 1 ++
  [.dispatch 1 [0]] ++ push 6 ++ work 0 4 ++ work 1 3 ++ push 3 ++ work 1 1 ++ work 0 2 ++ work 1 4 ++
  push 6 ++ work 0 4 ++ work 1 11 ++ work 0 2 ++ work 1 1

theorem dispatch_order_cross : ∃ s, (system crossConfig).Reachable s ∧ s.dispatched = 2 ∧
    (s.trace.filterMap Event.finished).Perm (List.range s.dispatched) ∧
    ∑ p, (s.partitions p).nExecutedRequests = s.dispatched := by
  obtain ⟨s, reach, quiet, two⟩ := System.exists_reachable (M := system crossConfig)
    (P := fun s => Quiescent s ∧ s.dispatched = 2) crossRun (by decide +kernel)
  obtain ⟨-, -, -, -, complete⟩ := dispatch_order crossConfig (by decide) reach
  exact ⟨s, reach, two, (complete quiet).2⟩

end Runs

end Pool

end KvPaxos
