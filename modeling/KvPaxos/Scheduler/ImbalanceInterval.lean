import KvPaxos.Scheduler.CrossPartition

/-!
# How often AsyncImbScheduler looks for imbalance

Under an interval of `N` operations the graph thread compares the messages it has taken with
`operation_start_`. It stores there the messages it had taken at its last check, and then the test is
that of `N` messages since. But an install stores the requests dispatched, which count the other head
of the queue: where that head is ahead the `size_t` difference wraps and the test is true at once, and
where it is `N` or more behind the test is true as well.
-/

namespace KvPaxos

open Lib

namespace AsyncImb

open StopTheWorld (Config)
open FreeScheduler (Label)
open Storage (toInt)

variable {n k : Nat} {positive : 0 < k} {method : CutMethod} {cfg : Config n} {s s' : State n} {l : Label}

/-- What `operation_start_` stands for. -/
structure Since (s : State n) : Prop where
  checked : checking s.threads.graphThread = true → lastMark s.checks = s.threads.nProcessedRequests
  taken : lastMark s.checks ≤ s.threads.nProcessedRequests
  kept : s.restarted = none → checking s.threads.graphThread = false → s.operationStart = lastMark s.checks
  installed : ∀ d, s.restarted = some d → s.operationStart = d ∧ d ≤ s.threads.nDispatchedRequests

/-- A step of another thread. -/
theorem Since.frame (h : Since s) {t : FreeScheduler.State n}
    (dispatched : s.threads.nDispatchedRequests ≤ t.nDispatchedRequests)
    (processed : t.nProcessedRequests = s.threads.nProcessedRequests)
    (graph : checking t.graphThread = checking s.threads.graphThread)
    (threads : s'.threads = t) (checks : s'.checks = s.checks) (restarted : s'.restarted = s.restarted)
    (start : s'.operationStart = s.operationStart) : Since s' := by
  obtain ⟨checked, taken, kept, installed⟩ := h
  refine ⟨?_, ?_, ?_, ?_⟩ <;> rw [threads]
  · rw [graph, checks, processed]
    exact checked
  · rw [checks, processed]
    exact taken
  · rw [graph, checks, restarted, start]
    exact kept
  · rw [restarted, start]
    exact fun d eq => ⟨(installed d eq).1, (installed d eq).2.trans dispatched⟩

/-- **Each step keeps what `operation_start_` stands for**, as long as the counters fit. -/
theorem Since.move (h : Since s) (fits : Fits s) (interval : cfg.interval = .operations k positive)
    (move : Move method cfg s l s') : Since s' := by
  obtain ⟨checked, taken, kept, installed⟩ := id h
  cases move with
  | other same _ graph => exact h.frame same.dispatched.ge same.processed graph rfl rfl rfl rfl
  | dispatch same _ _ graph | settle same _ _ _ graph =>
    exact h.frame same.dispatched.ge same.processed (congrArg checking graph) rfl rfl rfl rfl
  | count counted processed _ _ graph =>
    exact h.frame (by omega) processed (congrArg checking graph) rfl rfl rfl rfl
  | assign => exact h.frame (Nat.le_refl _) rfl rfl rfl rfl rfl rfl
  | evaluate same place after =>
    refine h.frame same.dispatched.ge same.processed ?_ rfl rfl rfl rfl
    rw [place, after]
    rfl
  | skip same place _ after =>
    refine h.frame same.dispatched.ge same.processed ?_ rfl rfl rfl rfl
    rw [place, after]
    rfl
  | restart same _ _ graph =>
    refine ⟨?_, taken.trans_eq same.processed.symm, nofun, fun d eq => ?_⟩
    · rw [graph, same.processed]
      exact checked
    · cases eq
      refine ⟨?_, same.dispatched.ge⟩
      dsimp only
      exact toInt_of_lt fits.dispatched
  | tally dispatched tallied before after =>
    refine ⟨fun at_ => ?_, ?_, fun none _ => kept none before, fun d eq => ?_⟩
    · rw [after] at at_
      cases at_
    · rw [tallied]
      exact taken.trans (Nat.le_succ _)
    · exact ⟨(installed d eq).1, (installed d eq).2.trans_eq dispatched.symm⟩
  | check same place _ after =>
    refine ⟨fun _ => ?_, ?_, fun _ off => ?_, fun d eq => ?_⟩
    · rw [lastMark_snoc, same.processed]
    · rw [lastMark_snoc, same.processed]
    · rw [after] at off
      cases off
    · exact ⟨(installed d eq).1, (installed d eq).2.trans_eq same.dispatched.symm⟩
  | graphRestart same _ before after =>
    refine ⟨fun at_ => ?_, taken.trans_eq same.processed.symm, fun _ _ => ?_, nofun⟩
    · rw [after] at at_
      cases at_
    · dsimp only
      rw [toInt_of_lt fits.processed, checked before]
  | graphDone _ clock =>
    rw [interval] at clock
    cases clock

theorem since_init (method : CutMethod) (cfg : Config n) : Since (init method cfg) := by
  obtain ⟨w, -, start⟩ := FreeScheduler.methodInit_eq method (threadsConfig cfg)
  unfold init
  rw [start]
  exact ⟨nofun, Nat.le_refl _, fun _ _ => rfl, nofun⟩

theorem via_since {guard : State n → Label → Prop} (fits : ∀ s l, guard s l → Fits s)
    (interval : cfg.interval = .operations k positive) (via : (system method cfg).Via guard s) : Since s := by
  refine via.invariant (P := Since) (since_init method cfg) ?_
  intro s l s' via since met step
  exact since.move (fits s l met) interval (step_move (via_own via) step)

/-- If an install was the last to write `operation_start_`, the requests dispatched then are between the
messages taken at the last check and the messages taken now: the installing head is not behind the
graph thread's as it was at its check, and the graph thread's head has come up with it since. -/
def WithinReach (s : State n) : Prop :=
  ∀ d, s.restarted = some d → lastMark s.checks ≤ d ∧ d ≤ s.threads.nProcessedRequests

instance (s : State n) : Decidable (WithinReach s) :=
  inferInstanceAs (Decidable (∀ d ∈ s.restarted, lastMark s.checks ≤ d ∧ d ≤ s.threads.nProcessedRequests))

/-- An install was the last to write `operation_start_`, and the difference to the messages taken wraps, or
is an interval although there is none since the last check. -/
def TooEarly (k : Nat) (s : State n) : Prop :=
  s.threads.nProcessedRequests < lastMark s.checks + k ∧
    ∃ d, s.restarted = some d ∧ (s.threads.nProcessedRequests < d ∨ d + k ≤ s.threads.nProcessedRequests)

theorem intervalAchieved_iff : intervalAchieved (.operations k positive) s true = true ↔
    (k : Int) ≤ (s.threads.nProcessedRequests - s.operationStart) % 2 ^ 64 := by
  simp only [intervalAchieved, decide_eq_true_eq]
  exact ⟨fun h => of_decide_eq_true h.symm, fun h => (decide_eq_true h).symm⟩

/-- The difference the test compares is that to the last check, or to the install. -/
theorem Since.difference (h : Since s) (fits : Fits s) (place : s.threads.graphThread = .testingInterval) :
    s.operationStart = lastMark s.checks ∨ ∃ d, s.restarted = some d ∧ s.operationStart = d ∧ d < 2 ^ 31 := by
  cases restarted : s.restarted with
  | none => exact Or.inl (h.kept restarted (by rw [place]; rfl))
  | some d =>
    obtain ⟨start, most⟩ := h.installed d restarted
    exact Or.inr ⟨d, rfl, start, most.trans_lt fits.dispatched⟩

/-- **Where the installs are within reach, the test finds an interval only where there is one.** -/
theorem Since.keeps_interval (h : Since s) (fits : Fits s) (reach : WithinReach s)
    (place : s.threads.graphThread = .testingInterval)
    (achieved : intervalAchieved (.operations k positive) s true = true) :
    lastMark s.checks + k ≤ s.threads.nProcessedRequests := by
  have := fits.processed
  have taken := h.taken
  rw [intervalAchieved_iff] at achieved
  rcases h.difference fits place with checked | ⟨d, restarted, start, -⟩
  · rw [checked] at achieved
    omega
  · obtain ⟨ahead, behind⟩ := reach d restarted
    rw [start] at achieved
    -- the difference does not wrap, and the install is at the last check or after it
    omega

/-- **The test finds an interval too early exactly if an install has moved the start so.** -/
theorem Since.tooEarly_iff (h : Since s) (fits : Fits s) (small : k < 2 ^ 31)
    (place : s.threads.graphThread = .testingInterval) :
    (intervalAchieved (.operations k positive) s true = true ∧
      s.threads.nProcessedRequests < lastMark s.checks + k) ↔ TooEarly k s := by
  have := fits.processed
  have taken := h.taken
  rw [intervalAchieved_iff]
  constructor
  · rintro ⟨achieved, early⟩
    refine ⟨early, ?_⟩
    rcases h.difference fits place with checked | ⟨d, restarted, start, -⟩
    · rw [checked] at achieved
      omega
    · rw [start] at achieved
      exact ⟨d, restarted, by omega⟩
  · rintro ⟨early, d, restarted, wrong⟩
    obtain ⟨start, most⟩ := h.installed d restarted
    have := fits.dispatched
    rw [start]
    exact ⟨by omega, early⟩

/-- The graph thread makes the test in this step. -/
def tests (s : State n) (l : Label) : Bool :=
  match l, s.threads.graphThread with
  | .graph _, .testingInterval => true
  | _, _ => false

/-- A check is made where the test is true. -/
theorem checks_move (move : Move method cfg s l s') :
    s'.checks = s.checks ∨
      (s.threads.graphThread = .testingInterval ∧ tests s l = true ∧ intervalAchieved cfg.interval s true = true ∧
        s'.checks = s.checks ++ [s.threads.nProcessedRequests]) := by
  cases move with
  | check same place achieved =>
    refine Or.inr ⟨place, ?_, achieved, rfl⟩
    simp only [tests, place]
  | _ => exact Or.inl rfl

/-- **How often the check for imbalance is made** under an interval of `k` operations, for every
interleaving of `schedule_and_answer` and `update_graph_loop`. In every run whose installs are within
reach of the graph thread whenever it makes the test, the checks are `k` messages apart, the first one
`k` messages after the start, and so there is at most one in `k` messages. A single test of any run is
true too early exactly if an install has stored a count that the messages taken have not reached, or
are `k` or more past. -/
theorem imbalance_interval (n : Nat) (method : CutMethod) (cfg : Config n) (k : Nat) (positive : 0 < k)
    (interval : cfg.interval = .operations k positive) (small : k < 2 ^ 31) :
    (∀ s, (system method cfg).Via (fun s l => Fits s ∧ (tests s l = true → WithinReach s)) s →
      Spaced k s.checks ∧ s.checks.length * k ≤ s.threads.nProcessedRequests) ∧
    (∀ s, (system method cfg).Via (fun s _ => Fits s) s → Fits s → s.threads.graphThread = .testingInterval →
      ((intervalAchieved cfg.interval s true = true ∧ s.threads.nProcessedRequests < lastMark s.checks + k) ↔
        TooEarly k s)) := by
  refine ⟨fun s via => ?_, fun s via fits place => ?_⟩
  · have spaced : Spaced k s.checks := by
      refine via.invariant (P := fun s => Spaced k s.checks) spaced_nil ?_
      rintro s l s' via spaced ⟨fits, reach⟩ step
      have since := via_since (fun s l met => met.1) interval via
      rcases checks_move (step_move (via_own via) step) with same | ⟨place, tested, achieved, eq⟩
      · rw [same]
        exact spaced
      · rw [eq]
        rw [interval] at achieved
        exact spaced_snoc.mpr ⟨spaced, since.keeps_interval fits (reach tested) place achieved⟩
    have taken := (via_since (fun s l met => met.1) interval via).taken
    exact ⟨spaced, spaced.length_mul_le.trans taken⟩
  · rw [interval]
    exact (via_since (fun s l met => met) interval via).tooEarly_iff fits small place

/-- Two partitions, and a check after every two messages. -/
def twoConfig : Config 2 where
  positive := Nat.two_pos
  TL := 0
  queueHeadDistance := 4
  interval := .operations 2 Nat.two_pos
  populated := [0]

/-- A WRITE is submitted, and the scheduling thread dispatches one. -/
def submitWrite : List Label := [.submit { type := .WRITE, key := 0 }, .produce, .produce, .produce]

/-- The graph thread takes a message, up to the test of the interval. -/
def takeMessage : List Label := List.replicate 7 (.graph true)

/-- Two messages are dispatched and taken, and the second is followed by a check. -/
def firstCheck : List Label :=
  submitWrite ++ submitWrite ++ submitWrite ++ submitWrite ++ dispatchScan ++ dispatchScan ++
    takeMessage ++ [.graph false] ++ takeMessage ++ [.graph true]

/-- The graph thread finds an imbalance and orders a map, which is made. -/
def orderMap : List Label :=
  List.replicate 7 (.graph true) ++ [.partition, .partition, .partition, .cut [0], .partition, .partition]

/-- The map is installed with the third message, which the graph thread takes before
`repartitioning_.store(false)`; the fourth is one message past the install, the fifth two. -/
theorem imbalance_interval_two : ∃ s, (system .METIS twoConfig).Reachable s ∧
    (s.restarted = some 3 ∧ s.checks = [2, 5]) ∧
    Spaced 2 s.checks ∧ s.checks.length * 2 ≤ s.threads.nProcessedRequests := by
  obtain ⟨s, via, eq⟩ := System.exists_via (M := system .METIS twoConfig)
    (fun s l => Fits s ∧ (tests s l = true → WithinReach s))
    (P := fun s => s.restarted = some 3 ∧ s.checks = [2, 5])
    (firstCheck ++ orderMap ++ dispatchScan ++ List.replicate 7 (.schedule true) ++ takeMessage ++
      [.schedule true] ++ dispatchScan ++ takeMessage ++ [.graph false] ++ submitWrite ++ dispatchScan ++
      takeMessage ++ [.graph true]) (by decide +kernel)
  exact ⟨s, via.reachable, eq,
    (imbalance_interval 2 .METIS twoConfig 2 Nat.two_pos rfl (by decide)).1 s via⟩

/-- The check finds an imbalance, the map is made while a third and a fourth message are dispatched,
and the install stores 4 in `operation_start_`. The third message is checked after the second. -/
theorem install_ahead_checks : ∃ s, (system .METIS twoConfig).Reachable s ∧ s.checks = [2, 3] ∧ ¬ Spaced 2 [2, 3] := by
  obtain ⟨s, reachable, eq⟩ := System.exists_reachable (M := system .METIS twoConfig) (P := fun s => s.checks = [2, 3])
    (firstCheck ++ List.replicate 7 (.graph true) ++ dispatchScan ++
      [.partition, .partition, .partition, .cut [0], .partition, .partition] ++ dispatchScan ++
      List.replicate 8 (.schedule true) ++ takeMessage ++ [.graph true]) (by decide +kernel)
  refine ⟨s, reachable, eq, fun spaced => ?_⟩
  have := (@spaced_snoc 2 3 [2]).mp spaced
  exact absurd this.2 (by decide)

end AsyncImb

end KvPaxos
