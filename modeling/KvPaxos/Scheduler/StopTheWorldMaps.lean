import KvPaxos.Scheduler.Lineage
import KvPaxos.Scheduler.StopTheWorldProcess

/-!
# By which map a stop-the-world scheduler dispatches

Every live map descends from a copy of the workload graph that was made when the graph had all requests dispatched
so far but one. So with an interval of `k` requests the map that a request is dispatched by knows all those up to the
last multiple of `k` before it, but one: `stopTheWorld_informed`.
-/

namespace KvPaxos

open Lib UnorderedMap

namespace StopTheWorld

variable {n : Nat} {method : CutMethod} {cfg : Config n} {s s' : State n} {l : Label}

/-- The map that is to be installed. -/
def Scheduling.result : Scheduling n → Option (UnorderedMap Int (Fin n))
  | .installing temp => some temp
  | _ => none

/-- The graph of a copy that has all dispatched requests but one. -/
def Recent (method : CutMethod) (cfg : Config n) (s : State n) (d : InputGraph) : Prop :=
  ∃ k, s.nDispatchedRequests ≤ k + 1 ∧ CopiedAt cfg.TL (method.counted cfg) s.processed k d

/-- The map is not older than the last interval. -/
def Renewed (cfg : Config n) (s : State n) (mark : Option Nat) : Prop :=
  ∀ i pos, cfg.interval = .operations i pos → s.scheduling.plain = true → i ≤ s.nDispatchedRequests →
    ∃ k, mark = some k ∧ s.nDispatchedRequests / i * i ≤ k + 1

/-- What the threads know of the requests, each by its place. -/
structure Informed (method : CutMethod) (cfg : Config n) (s : State n) : Prop where
  workload : Workload.run cfg.TL (method.counted cfg ++ s.processed) = some s.workload
  answering : s.Answering → s.nDispatchedRequests ≤ s.processed.length + 1
  copied : ∀ d, s.scheduling.input = some d → Recent method cfg s d
  made : ∀ temp, s.scheduling.result = some temp → ∃ d, Recent method cfg s d ∧ CutOf d temp
  live : ∃ mark, Descends cfg.TL (method.counted cfg) cfg.populatedMapping.dataToPartition s.processed
    s.mapping.dataToPartition mark ∧ (method ≠ .ROUND_ROBIN → Renewed cfg s mark)

theorem Recent.kept {d : InputGraph} (h : Recent method cfg s d) (more : s.processed <+: s'.processed)
    (dispatched : s'.nDispatchedRequests = s.nDispatchedRequests) : Recent method cfg s' d := by
  obtain ⟨k, recent, copied⟩ := h
  exact ⟨k, dispatched ▸ recent, copied.later more⟩

/-- A step of the scheduling thread in a round, or of one of the other two. -/
theorem Renewed.kept {mark : Option Nat} (h : Renewed cfg s mark)
    (plain : s'.scheduling.plain = true → s.scheduling.plain = true)
    (dispatched : s'.nDispatchedRequests = s.nDispatchedRequests) : Renewed cfg s' mark := by
  intro i pos interval after enough
  rw [dispatched] at enough ⊢
  exact h i pos interval (plain after) enough

/-- The interval is not over, so its last multiple stays. -/
theorem Renewed.count {mark : Option Nat} (h : Renewed cfg s mark) (place : s.scheduling = .counting)
    (allowed : cfg.interval.allows (s.nDispatchedRequests + 1) false = true) (next : Scheduling n) :
    Renewed cfg { s with nDispatchedRequests := s.nDispatchedRequests + 1, scheduling := next } mark := by
  intro i pos interval _ enough
  have inside : (s.nDispatchedRequests + 1) % i ≠ 0 := by
    rw [interval, Interval.allows] at allowed
    simpa using allowed
  have same : (s.nDispatchedRequests + 1) / i = s.nDispatchedRequests / i :=
    Nat.succ_div_of_not_dvd fun divides => inside (Nat.mod_eq_zero_of_dvd divides)
  have before : i ≤ s.nDispatchedRequests := by
    have enough : i ≤ s.nDispatchedRequests + 1 := enough
    rcases Nat.lt_or_eq_of_le enough with less | eq
    · omega
    · rw [← eq, Nat.mod_self] at inside
      exact absurd rfl inside
  obtain ⟨k, marked, recent⟩ := h i pos interval (by rw [place]; rfl) before
  refine ⟨k, marked, ?_⟩
  show (s.nDispatchedRequests + 1) / i * i ≤ k + 1
  rw [same]
  exact recent

/-- A map made in this round is as new as can be. -/
theorem renewed_of_recent {k : Nat} (recent : s.nDispatchedRequests ≤ k + 1) : Renewed cfg s (some k) :=
  fun i _ _ _ _ => ⟨k, rfl, (Nat.div_mul_le_self s.nDispatchedRequests i).trans recent⟩

/-- Under any method a step is a move, and the interval's test is the source's. -/
theorem exists_allowed_move (h : methodStep method cfg s l = some s') :
    ∃ l', Move cfg s l' s' ∧ l'.submits = l.submits ∧ (method ≠ .ROUND_ROBIN → ∀ b, l' = .schedule b →
      s.scheduling = .counting → cfg.interval.allows (s.nDispatchedRequests + 1) b = true) := by
  rcases methodStep_move h with ⟨move, -⟩ | ⟨roundRobin, place, ⟨b, rfl⟩, rfl⟩
  · refine ⟨l, move, rfl, fun other b eq place => ?_⟩
    subst eq
    have step : step cfg s (.schedule b) = some s' := by
      unfold methodStep at h
      split at h
      · exact absurd rfl other
      · exact h
    simp only [StopTheWorld.step, schedule, place] at step
    exact (Option.ite_none_right_eq_some.mp step).1
  · exact ⟨.schedule false, Move.count place, rfl, fun other => absurd roundRobin other⟩

/-- **Each step keeps what is known.** -/
theorem informed_move {A : Nat} (joint : Joint A s) (h : Informed method cfg s) (move : Move cfg s l s')
    (allowed : method ≠ .ROUND_ROBIN → ∀ b, l = .schedule b → s.scheduling = .counting →
      cfg.interval.allows (s.nDispatchedRequests + 1) b = true) : Informed method cfg s' := by
  obtain ⟨workload, answering, copied, made, mark, descends, renewed⟩ := id h
  have outside : s.scheduling.round s.barrier.generation = 0 → ¬s.Answering :=
    fun zero inside => joint.phases.answering inside zero
  have later := fun inside => GraphThread.round_succ joint.phases.pastGraph inside
  cases move with
  | submit | push | notify0 | notify1 =>
    exact ⟨workload, answering, copied, made, mark, descends, fun other => (renewed other).kept id rfl⟩
  | item0 place | ahead0 place | pop0 place | release0 place | finish place =>
    refine ⟨workload, answering, absent rfl, absent rfl, mark, descends, fun other => (renewed other).kept (fun _ => ?_) rfl⟩
    rw [place]
    rfl
  | raise place | freeItem place | freeAhead place | resume1 place =>
    exact ⟨workload, answering, absent rfl, absent rfl, mark, descends, fun other => (renewed other).kept (fun on => by cases on) rfl⟩
  | dispatch place type involved =>
    refine ⟨workload, answering, absent rfl, absent rfl, mark, descends.extend (Mapping.keeps_involved involved),
      fun other => (renewed other).kept (fun _ => ?_) rfl⟩
    rw [place]
    rfl
  | count place =>
    have idle := outside (by rw [place]; rfl)
    exact ⟨workload, fun inside => absurd inside idle, absent rfl, absent rfl, mark, descends, fun other =>
      (renewed other).count place (allowed other false rfl place) _⟩
  | start place =>
    have idle := outside (by rw [place]; rfl)
    exact ⟨workload, fun inside => absurd inside idle, absent rfl, absent rfl, mark, descends, fun _ _ _ _ on => by cases on⟩
  | park1 place =>
    exact ⟨workload, fun inside => answering (inside.imp id id), absent rfl, absent rfl, mark, descends,
      fun other => (renewed other).kept (fun on => by cases on) rfl⟩
  | open1 place =>
    exact ⟨workload, fun inside => answering (inside.imp id later), absent rfl, absent rfl, mark, descends,
      fun other => (renewed other).kept (fun on => by cases on) rfl⟩
  | copy place copies =>
    have between : s.Answering := by
      rcases joint.phases.between place with ⟨g, at_, opened⟩ | at_ | at_
      · exact Or.inr (by rw [at_, GraphThread.round, if_neg opened]; decide)
      · exact Or.inr (by rw [at_]; exact Nat.succ_ne_zero 1)
      · exact Or.inr (by rw [at_, GraphThread.round, if_pos rfl]; decide)
    refine ⟨workload, answering, fun d eq => ?_, absent rfl, mark, descends, fun other => (renewed other).kept (fun on => by cases on) rfl⟩
    cases eq
    exact ⟨s.processed.length, answering between, .last ⟨s.workload, workload, copies⟩⟩
  | park2 place =>
    rw [place] at copied
    exact ⟨workload, fun inside => answering (inside.imp id id), copied, absent rfl, mark, descends,
      fun other => (renewed other).kept (fun on => by cases on) rfl⟩
  | open2 place =>
    rw [place] at copied
    exact ⟨workload, fun inside => answering (inside.imp id later), copied, absent rfl, mark, descends,
      fun other => (renewed other).kept (fun on => by cases on) rfl⟩
  | resume2 place =>
    rw [place] at copied
    exact ⟨workload, answering, copied, absent rfl, mark, descends, fun other => (renewed other).kept (fun on => by cases on) rfl⟩
  | @cut d scheme temp place length inRange built =>
    rw [place] at copied
    refine ⟨workload, answering, absent rfl, fun made eq => ?_, mark, descends, fun other => (renewed other).kept (fun on => by cases on) rfl⟩
    cases eq
    exact ⟨d, copied d rfl, scheme, length, inRange, built⟩
  | install place =>
    obtain ⟨d, ⟨k, recent, copy⟩, cut⟩ := made _ (by rw [place]; rfl)
    exact ⟨workload, answering, absent rfl, absent rfl, some k, .cut copy cut (.refl _), fun _ => renewed_of_recent recent⟩
  | @agree place enough =>
    have processed := joint.tokens.processed
    have length := congrArg List.length joint.contents.popped1
    rw [place] at processed length
    simp only [GraphThread.held, GraphThread.inHand, List.append_nil] at processed length
    exact ⟨workload, fun _ => by show s.nDispatchedRequests ≤ s.processed.length + 1; omega, copied, made, mark, descends,
      fun other => (renewed other).kept id rfl⟩
  | answer place =>
    exact ⟨workload, fun _ => answering (Or.inl place), copied, made, mark, descends, fun other => (renewed other).kept id rfl⟩
  | graphPark1 place | graphOpen1 place | graphPark2 place =>
    refine ⟨workload, fun _ => answering (Or.inr ?_), copied, made, mark, descends, fun other => (renewed other).kept id rfl⟩
    rw [place]
    exact Nat.succ_ne_zero _
  | graphResume1 place =>
    refine ⟨workload, fun _ => answering (Or.inr ?_), copied, made, mark, descends, fun other => (renewed other).kept id rfl⟩
    rw [place, GraphThread.round]
    split <;> decide
  | @update request _ place observed =>
    have more := List.prefix_append s.processed [request]
    refine ⟨?_, ?_, fun d eq => (copied d eq).kept more rfl, fun temp eq => ?_, mark, descends.later more,
      fun other => (renewed other).kept id rfl⟩
    · rw [← List.append_assoc, Workload.run_snoc, workload]
      exact observed
    · rintro (eq | round) <;> contradiction
    · obtain ⟨d, recent, cut⟩ := made temp eq
      exact ⟨d, recent.kept more rfl, cut⟩
  | item1 | ahead1 | pass | hear | refuse | graphOpen2 | graphResume2 | pop1 | release1 | tally =>
    refine ⟨workload, ?_, copied, made, mark, descends, fun other => (renewed other).kept id rfl⟩
    rintro (eq | round) <;> contradiction

theorem via_informed (via : (methodSystem method cfg).Via (fun _ l => ∀ m ∈ l.submits, m.IsClient) s) :
    Informed method cfg s := by
  refine via.invariant (P := Informed method cfg) ?_ fun s l s' via informed _ step => ?_
  · obtain ⟨w, ran, same⟩ := methodInit_eq method cfg
    show Informed method cfg (methodInit method cfg)
    rw [same]
    refine ⟨?_, ?_, absent rfl, absent rfl, none, .populated (.refl _), fun _ i pos _ _ none => ?_⟩
    · rw [← ran]
      exact congrArg _ (List.append_nil _)
    · rintro (eq | round) <;> contradiction
    · exact absurd none (Nat.not_le_of_lt pos)
  · obtain ⟨l', move, -, allowed⟩ := exists_allowed_move step
    exact informed_move (via_fed via).joint informed move allowed

/-! ### The process -/

/-- A dispatched message is a request: the scheduling thread leaves its loop at an END. -/
theorem via_dispatched (via : (methodSystem method cfg).Via (fun _ l => ∀ m ∈ l.submits, m.IsClient) s) :
    ∀ m ∈ s.dispatched, m.type ≠ .END := by
  refine via.invariant (P := fun s => ∀ m ∈ s.dispatched, m.type ≠ .END) ?_ fun s l s' _ held _ step => ?_
  · obtain ⟨w, -, same⟩ := methodInit_eq method cfg
    show ∀ m ∈ (methodInit method cfg).dispatched, m.type ≠ .END
    rw [same]
    exact fun m mem => absurd mem List.not_mem_nil
  · obtain ⟨l', move, -, -⟩ := exists_move step
    cases move with
    | dispatch place type =>
      intro m mem
      rcases List.mem_append.mp mem with old | new
      · exact held m old
      · exact List.mem_singleton.mp new ▸ type
    | _ => exact held

variable {capacity : Nat} {z : Compresser} {t : Process.State (State n) n}

/-- The request at hand is number `n_dispatched_requests_`. -/
theorem dispatching_number
    (via : (Process.system (process method cfg capacity z)).Via (Process.FromClients (process method cfg capacity z)) t)
    {message : ClientMessage} (place : t.front.scheduling = .dispatching message) :
    t.front.nDispatchedRequests = t.pool.dispatched := by
  have linked := Process.via_linked via
  have joint := (via_fed linked.front).joint
  have pushed := (via_pushed via).symm.trans joint.contents.head0
  have popped0 := joint.contents.popped0
  have number := joint.tokens.dispatched
  have backlog : (process method cfg capacity z).frontend.backlog t.front = [message] ++ t.front.queue.queues 0 := by
    show StopTheWorld.backlog t.front = _
    rw [StopTheWorld.backlog, place]
    rfl
  rw [place] at popped0 number
  have taken : t.taken = t.front.dispatched := by
    have order := linked.inOrder
    rw [pushed, popped0, backlog, ← List.append_assoc] at order
    exact (List.append_cancel_right (List.append_cancel_right order)).symm
  have requests : Process.requests t.taken = t.front.dispatched := by
    rw [taken]
    exact List.filter_eq_self.mpr fun m mem => decide_eq_true (via_dispatched linked.front m mem)
  have length := congrArg List.length popped0
  rw [List.length_append] at length
  rw [linked.dispatched, requests]
  simp only [Scheduling.held, Scheduling.inHand, List.length_singleton] at number length
  omega

/-- **By which map a request is dispatched**: in every run of the process, by the populated one or by a cut of the
graph after a prefix of the submitted messages, with the keys mapped since. That map has all keys of its window.
With an interval of `i` requests it is made after all but one of those up to the last multiple of `i`, as long as
fewer than `2 ^ 31` requests have been dispatched: up to there `n_dispatched_requests_`, an `int`, is the count that
`start_repartitioning` tests and that `update_graph_loop` compares (`CounterWidths.decisions_right`), and from there
on its multiples are no longer those of the count. -/
theorem stopTheWorld_informed (method : CutMethod) (cfg : Config n) (capacity : Nat) (compresser : Compresser)
    {s : Process.State (State n) n}
    (via : (Process.system (process method cfg capacity compresser)).Via (Process.FromClients (process method cfg capacity compresser)) s) :
    ∃ mark, Descends cfg.TL (method.counted cfg) cfg.populatedMapping.dataToPartition s.submitted
        s.pool.mapping.dataToPartition mark ∧
      (∀ k, mark = some k → ∀ key, (∃ m ∈ Workload.window cfg.TL (method.counted cfg ++ s.submitted.take k), key ∈ m.keys) →
        key ∈ s.pool.mapping.dataToPartition) ∧
      (method ≠ .ROUND_ROBIN → ∀ i pos, cfg.interval = .operations i pos →
        ∀ message, s.front.scheduling = .dispatching message → i ≤ s.pool.dispatched →
          s.pool.dispatched < 2 ^ 31 → ∃ k, mark = some k ∧ s.pool.dispatched / i * i ≤ k + 1) := by
  have linked := Process.via_linked via
  have contents := (via_fed linked.front).joint.contents
  obtain ⟨mark, descends, renewed⟩ := (via_informed linked.front).live
  obtain ⟨mapping, live, -, same⟩ := linked.shared
  have mapping : s.front.mapping = s.pool.mapping := (Option.some.inj live).trans (same rfl)
  have seen : s.front.processed <+: s.submitted := by
    rw [← via_pushed via, contents.head1, contents.popped1, List.append_assoc, List.append_assoc]
    exact List.prefix_append _ _
  have descends := descends.later seen
  rw [mapping] at descends
  refine ⟨mark, descends, fun k marked key covered => ?_, fun other i pos interval message place enough _ => ?_⟩
  · subst marked
    exact descends.maps_window (CutMethod.counted_real linked.clients) covered
  · rw [← dispatching_number via place] at enough ⊢
    exact renewed other i pos interval (by rw [place]; rfl) enough

/-- No populated key, and a repartition after every request. -/
def bareConfig : Config 2 := { laggingConfig with populated := [] }

abbrev bareProcess : Process.Config (State 2) Label 2 := process .METIS bareConfig 0 ⟨id, some⟩

/-- A request with its repartition, and the next one up to its dispatch. -/
def roundRun : List (Process.Label Label 2) :=
  let submit : List (Process.Label Label 2) :=
    [.front (.submit { type := .WRITE, key := 0 }) [], .front .produce [], .front .produce [], .front .produce []]
  let schedule (k : Nat) : List (Process.Label Label 2) := List.replicate k (.front (.schedule false) [])
  let graph (k : Nat) : List (Process.Label Label 2) := List.replicate k (.front .graph [])
  submit ++ schedule 4 ++ [.front (.schedule false) [0]] ++ List.replicate 3 .push ++
    List.replicate 5 (.front (.schedule true) []) ++ graph 6 ++ schedule 3 ++ graph 1 ++ schedule 1 ++
    [.front (.cut []) [], .front (.schedule false) [0, 1]] ++ List.replicate 6 .push ++ submit ++ graph 5 ++ schedule 4

theorem stopTheWorld_informed_round : ∃ s k, (Process.system bareProcess).Via (Process.FromClients bareProcess) s ∧
    s.pool.dispatched = 1 ∧ Descends 0 [] bareConfig.populatedMapping.dataToPartition s.submitted
      s.pool.mapping.dataToPartition (some k) := by
  obtain ⟨s, via, one, hand, posted⟩ := System.exists_via (M := Process.system bareProcess) (Process.FromClients bareProcess)
    (P := fun s => s.pool.dispatched = 1 ∧ s.front.scheduling.hand ≠ [] ∧ s.front.scheduling.held.owes = 0) roundRun
    (by decide +kernel)
  obtain ⟨mark, descends, -, renewed⟩ := stopTheWorld_informed .METIS bareConfig 0 ⟨id, some⟩ via
  have place : ∃ message, s.front.scheduling = .dispatching message := by
    cases place : s.front.scheduling with
    | dispatching message => exact ⟨message, rfl⟩
    | releasing message =>
      rw [place] at posted
      cases posted
    | _ =>
      rw [place] at hand
      exact absurd rfl hand
  obtain ⟨message, place⟩ := place
  obtain ⟨k, marked, -⟩ := renewed (by decide) 1 Nat.one_pos rfl message place one.ge (by rw [one]; decide)
  exact ⟨s, k, via, one, marked ▸ descends⟩

end StopTheWorld

end KvPaxos
