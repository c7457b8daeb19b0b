import KvPaxos.Lib.Spacing
import KvPaxos.Scheduler.ControlMessages

/-!
# How often FreeScheduler orders a repartition

Under an interval of `N` operations the graph thread orders a repartition where it finds
`n_dispatched_requests_` a multiple of `N` and no round in flight. It reads the counter once in each
iteration of its loop, while the scheduling thread moves it: the graph thread can find the same multiple
twice, or find 0 before anything is dispatched, and then orders too early; and it can find the counter
past a multiple, and then the order due is not made.

`State` keeps the count at each order, whether an order is owed, since a multiple was reached with no
round in flight, whether it was owed already when the iteration began, and whether such an iteration
ended without it. Of the schedule it keeps the count that the graph thread has last looked at, and the
last one that it has looked at or could not, for a round in flight. `InStep` is a condition on these and
on the next step alone: where the threads keep to it, `once_per_interval` says that a repartition is ordered
once in each interval.
-/

namespace KvPaxos

open Lib

namespace Orders

open StopTheWorld (Config)
open FreeScheduler (Label methodStep Places)

variable {n : Nat}

def threadsConfig (cfg : Config n) : FreeScheduler.Config n := { cfg with variant := .free }

/-- The threads with what is noted of the orders: the counts at which `order_partitioning` was called, whether a
multiple has been reached since (`owed`), whether it had been when the iteration began (`begun`), and whether an
iteration that began so has ended without an order (`missed`). -/
structure State (n : Nat) where
  threads : FreeScheduler.State n
  orderedAt : List Nat := []
  owed : Bool := false
  begun : Bool := false
  missed : Bool := false
  /-- The count at the last test of the interval. -/
  tested : Nat := 0
  /-- The count there, or the last one reached with a round in flight. -/
  since : Nat := 0

def init (method : CutMethod) (cfg : Config n) : State n where
  threads := FreeScheduler.methodInit method (threadsConfig cfg)

/-- The count is a multiple of the interval. -/
def isMultiple (cfg : Config n) (count : Nat) : Bool := cfg.interval.allows count true

/-- `n_dispatched_requests_++` may reach a multiple. -/
def scheduled (cfg : Config n) (s : State n) (threads : FreeScheduler.State n) : State n :=
  match s.threads.scheduling with
  | .counting =>
    { s with
      threads := threads
      owed := s.owed || (!s.threads.repartitioning && isMultiple cfg threads.nDispatchedRequests)
      since := if s.threads.repartitioning then threads.nDispatchedRequests else s.since }
  | _ => { s with threads := threads }

/-- The test of the interval looks at the count. -/
def looked (s : State n) : State n :=
  match s.threads.graphThread with
  | .testingInterval => { s with tested := s.threads.nDispatchedRequests, since := s.threads.nDispatchedRequests }
  | _ => s

/-- An iteration begins at `wait<1>()`, calls `order_partitioning` or not, and ends back there. -/
def graphed (s : State n) (threads : FreeScheduler.State n) : State n :=
  match s.threads.graphThread, threads.graphThread with
  | .waitingItem, _ => { s with threads := threads, begun := s.owed }
  | .copying, _ =>
    { s with
      threads := threads
      orderedAt := s.orderedAt ++ [s.threads.nDispatchedRequests]
      owed := false
      begun := false }
  | _, .waitingItem => { looked s with threads := threads, missed := s.missed || (s.begun && s.owed) }
  | _, _ => { looked s with threads := threads }

/-- What a step of the threads means for the orders. -/
def noted (cfg : Config n) (s : State n) (l : Label) (threads : FreeScheduler.State n) : State n :=
  match l with
  | .schedule _ => scheduled cfg s threads
  | .graph _ => graphed s threads
  | _ => { s with threads := threads }

/-- One statement of the threads of `FreeScheduler`, with what it means for the orders. The threads themselves are as
they were, so every run of theirs is one with the notes taken. -/
def step (method : CutMethod) (cfg : Config n) (s : State n) (l : Label) : Option (State n) :=
  (methodStep method (threadsConfig cfg) s.threads l).map (noted cfg s l)

def system (method : CutMethod) (cfg : Config n) : System (State n) Label := ⟨init method cfg, step method cfg⟩

variable {k : Nat} {positive : 0 < k} {method : CutMethod} {cfg : Config n} {s s' : State n} {l : Label}

/-- The graph thread is on its way from the test to `order_partitioning`. -/
def orders : FreeScheduler.GraphThread → Bool
  | .raisingRepartitioning | .sizing | .copying => true
  | _ => false

/-- It comes to `order_partitioning`. -/
def atOrder : FreeScheduler.GraphThread → Bool
  | .copying => true
  | _ => false

/-- It is in `order_partitioning`. -/
def ordering : FreeScheduler.GraphThread → Bool
  | .assigning _ | .posting => true
  | _ => false

/-- The places of the other schedulers. -/
def ofOthers : FreeScheduler.GraphThread → Bool
  | .tallying | .testingImbalance | .loadingRepartition | .loweringRepartition | .restarting => true
  | _ => false

/-- The scheduling thread counts a dispatched request in this step. -/
def counts (s : State n) (l : Label) : Bool :=
  match l, s.threads.scheduling with
  | .schedule _, .counting => true
  | _, _ => false

/-- The graph thread makes the test in this step. -/
def tests (s : State n) (l : Label) : Bool :=
  match l, s.threads.graphThread with
  | .graph _, .testingInterval => true
  | _, _ => false

/-- It asks for vertices. -/
def sizes (s : State n) (l : Label) : Bool :=
  match l, s.threads.graphThread with
  | .graph _, .sizing => true
  | _, _ => false

/-- The schedule. No request is counted while the graph thread is on its way from the test to `order_partitioning`;
where the test finds a multiple, a request has been counted since the last test; between two tests the count does
not go past a multiple, unless a round was in flight when it was reached or the test finds another; the graph has a
vertex when it is asked for; and the count stays an `int`. -/
structure InStep (k : Nat) (s : State n) (l : Label) : Prop where
  quiet : counts s l = true → orders s.threads.graphThread = false
  moved : tests s l = true → s.threads.nDispatchedRequests % k = 0 → s.tested < s.threads.nDispatchedRequests
  between : tests s l = true → s.threads.nDispatchedRequests % k = 0 ∨ s.threads.nDispatchedRequests / k = s.since / k
  vertices : sizes s l = true → 0 < s.threads.workload.workloadGraph.nVertex
  int : counts s l = true → s.threads.nDispatchedRequests + 1 < 2 ^ 31

instance (k : Nat) (s : State n) (l : Label) : Decidable (InStep k s l) :=
  decidable_of_iff ((counts s l = true → orders s.threads.graphThread = false) ∧
      (tests s l = true → s.threads.nDispatchedRequests % k = 0 → s.tested < s.threads.nDispatchedRequests) ∧
      (tests s l = true → s.threads.nDispatchedRequests % k = 0 ∨ s.threads.nDispatchedRequests / k = s.since / k) ∧
      (sizes s l = true → 0 < s.threads.workload.workloadGraph.nVertex) ∧
      (counts s l = true → s.threads.nDispatchedRequests + 1 < 2 ^ 31))
    ⟨fun ⟨quiet, moved, between, vertices, int⟩ => ⟨quiet, moved, between, vertices, int⟩,
      fun ⟨quiet, moved, between, vertices, int⟩ => ⟨quiet, moved, between, vertices, int⟩⟩

/-- What the orders need of a step: a multiple is found at least an interval after the last order, and an order
that was owed when the iteration began finds the counter still at a multiple, and vertices. -/
structure Timely (k : Nat) (s : State n) (l : Label) : Prop where
  apart : tests s l = true → s.threads.nDispatchedRequests % k = 0 →
    lastMark s.orderedAt + k ≤ s.threads.nDispatchedRequests
  still : tests s l = true → (s.begun && s.owed) = true → s.threads.nDispatchedRequests % k = 0
  vertices : sizes s l = true → (s.begun && s.owed) = true → 0 < s.threads.workload.workloadGraph.nVertex

/-- What the orders of a timely run keep to. -/
structure Orderly (k : Nat) (cfg : Config n) (s : State n) : Prop where
  places : Places (threadsConfig cfg) s.threads
  own : ofOthers s.threads.graphThread = false
  inFlight : s.owed = true → s.threads.repartitioning = true → atOrder s.threads.graphThread = true
  apart : orders s.threads.graphThread = true → lastMark s.orderedAt + k ≤ s.threads.nDispatchedRequests
  made : ordering s.threads.graphThread = true → s.begun = false
  spaced : Spaced k s.orderedAt
  missed : s.missed = false

/-- The orders do not depend on what is kept of the schedule. -/
theorem Orderly.look (h : Orderly k cfg s) (tested since : Nat) :
    Orderly k cfg { s with tested := tested, since := since } :=
  ⟨h.places, h.own, h.inFlight, h.apart, h.made, h.spaced, h.missed⟩

/-- A step that does not move the graph thread. -/
theorem Orderly.frame (h : Orderly k cfg s) {t : FreeScheduler.State n} {owed : Bool}
    (places : Places (threadsConfig cfg) t) (graph : t.graphThread = s.threads.graphThread)
    (dispatched : s.threads.nDispatchedRequests ≤ t.nDispatchedRequests)
    (flight : owed = true → t.repartitioning = true → s.owed = true ∧ s.threads.repartitioning = true) :
    Orderly k cfg { s with threads := t, owed := owed } where
  places := places
  own := by
    rw [graph]
    exact h.own
  inFlight up raised := by
    rw [graph]
    exact h.inFlight (flight up raised).1 (flight up raised).2
  apart going := by
    rw [graph] at going
    exact (h.apart going).trans dispatched
  made at_ := by
    rw [graph] at at_
    exact h.made at_
  spaced := h.spaced
  missed := h.missed

/-- A step of the graph thread within an iteration, or into one. -/
theorem Orderly.graphTo (h : Orderly k cfg s) {t : FreeScheduler.State n} {begun : Bool}
    (places : Places (threadsConfig cfg) t) (own : ofOthers t.graphThread = false)
    (dispatched : t.nDispatchedRequests = s.threads.nDispatchedRequests)
    (going : orders t.graphThread = true → lastMark s.orderedAt + k ≤ s.threads.nDispatchedRequests)
    (made : ordering t.graphThread = true → begun = false)
    (flight : s.owed = true → t.repartitioning = true → atOrder t.graphThread = true) :
    Orderly k cfg { s with threads := t, begun := begun } where
  places := places
  own := own
  inFlight := flight
  apart on := by
    rw [dispatched]
    exact going on
  made := made
  spaced := h.spaced
  missed := h.missed

/-- The end of an iteration that had no order to make. -/
theorem Orderly.ended (h : Orderly k cfg s) {t : FreeScheduler.State n} (places : Places (threadsConfig cfg) t)
    (none : (s.begun && s.owed) = false) (back : t.graphThread = .waitingItem)
    (flight : s.owed = true → t.repartitioning = false) :
    Orderly k cfg { s with threads := t, missed := s.missed || (s.begun && s.owed) } where
  places := places
  own := by
    rw [back]
    rfl
  inFlight up raised := by
    rw [flight up] at raised
    cases raised
  apart on := by
    rw [back] at on
    cases on
  made at_ := by
    rw [back] at at_
    cases at_
  spaced := h.spaced
  missed := by
    rw [h.missed, none]
    rfl

/-- `n_dispatched_requests_++`. An order is owed from then on only if no round is in flight. -/
theorem Orderly.count (h : Orderly k cfg s) {next : FreeScheduler.Scheduling}
    (places : Places (threadsConfig cfg) { s.threads with
      nDispatchedRequests := s.threads.nDispatchedRequests + 1, scheduling := next }) :
    Orderly k cfg { s with
      threads := { s.threads with nDispatchedRequests := s.threads.nDispatchedRequests + 1, scheduling := next }
      owed := s.owed || (!s.threads.repartitioning && isMultiple cfg (s.threads.nDispatchedRequests + 1))
      since := if s.threads.repartitioning then s.threads.nDispatchedRequests + 1 else s.since } := by
  have looked := h.look s.tested (if s.threads.repartitioning then s.threads.nDispatchedRequests + 1 else s.since)
  refine looked.frame places rfl (Nat.le_succ _) fun up raised => ⟨?_, raised⟩
  have raised : s.threads.repartitioning = true := raised
  simpa [raised] using up

/-- The scheduling thread's steps. -/
theorem Orderly.scheduled {t : FreeScheduler.State n} {b : Bool} (h : Orderly k cfg s)
    (move : FreeScheduler.Move (threadsConfig cfg) s.threads (.schedule b) t) :
    Orderly k cfg (scheduled cfg s t) := by
  have places := FreeScheduler.places_move h.places move
  unfold Orders.scheduled
  cases move with
  | count place =>
    rw [place]
    exact h.count places
  | raise place =>
    have async := h.places.scheduling
    rw [place] at async
    cases async
  | settle place =>
    rw [place]
    exact h.frame places rfl (Nat.le_refl _) nofun
  | item0 place | ahead0 place | pop0 place | release0 place | finish place | dispatch place | findFree place
  | findBusy place | skip place | start place | ask place | noUpdate place | seeUpdate place | save place | swap place
  | restore place | sync place | lowerUpdate place | reset place | restart place =>
    rw [place]
    exact h.frame places rfl (Nat.le_refl _) fun up raised => ⟨up, raised⟩

/-- The end of `schedule_and_answer` under ROUND_ROBIN. -/
theorem Orderly.counted (h : Orderly k cfg s) (place : s.threads.scheduling = .counting) :
    Orderly k cfg (Orders.scheduled cfg s { s.threads with
      nDispatchedRequests := s.threads.nDispatchedRequests + 1, scheduling := .waitingItem }) := by
  unfold Orders.scheduled
  rw [place]
  exact h.count ⟨trivial, h.places.graph⟩

theorem allows_iff (interval : cfg.interval = .operations k positive) {count : Nat} {choice : Bool} :
    cfg.interval.allows count choice = true ↔ choice = decide (count % k = 0) := by
  rw [interval]
  exact decide_eq_true_iff

/-- The graph thread's steps, if they are timely. -/
theorem Orderly.graphed {t : FreeScheduler.State n} {b : Bool} (h : Orderly k cfg s)
    (interval : cfg.interval = .operations k positive) (timely : Timely k s (.graph b))
    (step : FreeScheduler.graph (threadsConfig cfg) s.threads b = some t) : Orderly k cfg (graphed s t) := by
  have move := FreeScheduler.graph_move step
  have places := FreeScheduler.places_move h.places move
  -- away from `order_partitioning` no order is owed while a round is in flight
  have flight (away : atOrder s.threads.graphThread = false) (up : s.owed = true) : s.threads.repartitioning = false := by
    apply Bool.eq_false_of_not_eq_true
    intro raised
    rw [h.inFlight up raised] at away
    cases away
  have still (away : atOrder s.threads.graphThread = false) {P : Prop} (up : s.owed = true)
      (raised : s.threads.repartitioning = true) : P := by
    rw [flight away up] at raised
    cases raised
  unfold Orders.graphed looked
  cases move with
  | tally place | imbalanced place | balanced place | noRequest place | seeRequest place | lowerRequest place
  | graphRestart place =>
    have own := h.own
    rw [place] at own
    cases own
  | graphBusy place busy =>
    rw [place]
    have idle : s.owed = false := by
      apply Bool.eq_false_of_not_eq_true
      intro up
      rw [flight (by rw [place]; rfl) up] at busy
      cases busy
    refine h.ended places ?_ rfl (flight (by rw [place]; rfl))
    rw [idle, Bool.and_false]
  | graphSkip place =>
    have tested : tests s (.graph false) = true := by simp only [tests, place]
    simp only [FreeScheduler.graph, place] at step
    obtain ⟨achieved, -⟩ := Option.ite_none_right_eq_some.mp step
    have past := of_decide_eq_false ((allows_iff interval).mp achieved).symm
    rw [place]
    refine (h.look _ _).ended places ?_ rfl (flight (by rw [place]; rfl))
    exact Bool.eq_false_of_not_eq_true fun due => past (timely.still tested due)
  | graphStart place =>
    have tested : tests s (.graph true) = true := by simp only [tests, place]
    simp only [FreeScheduler.graph, place] at step
    obtain ⟨achieved, -⟩ := Option.ite_none_right_eq_some.mp step
    have multiple := of_decide_eq_true ((allows_iff interval).mp achieved).symm
    rw [place]
    exact (h.look _ _).graphTo places rfl rfl (fun _ => timely.apart tested multiple) (fun at_ => by cases at_)
      (still (by rw [place]; rfl))
  | empty place none =>
    have sized : sizes s (.graph b) = true := by simp only [sizes, place]
    rw [place]
    refine h.ended places ?_ rfl (flight (by rw [place]; rfl))
    exact Bool.eq_false_of_not_eq_true fun due => (timely.vertices sized due).ne' none
  | post place =>
    rw [place]
    refine h.ended places ?_ rfl (flight (by rw [place]; rfl))
    rw [h.made (by rw [place]; rfl), Bool.false_and]
  | copy place =>
    rw [place]
    have spaced := spaced_snoc.mpr ⟨h.spaced, h.apart (by rw [place]; rfl)⟩
    exact ⟨places, rfl, fun up => (by cases up), fun on => (by cases on), fun _ => rfl, spaced, h.missed⟩
  | assign place =>
    rw [place]
    exact h.graphTo places rfl rfl (fun on => by cases on) (fun _ => h.made (by rw [place]; rfl))
      (still (by rw [place]; rfl))
  | graphRaise place =>
    rw [place]
    exact h.graphTo places rfl rfl (fun _ => h.apart (by rw [place]; rfl)) (fun at_ => by cases at_) fun _ _ => rfl
  | sized place =>
    rw [place]
    exact h.graphTo places rfl rfl (fun _ => h.apart (by rw [place]; rfl)) (fun at_ => by cases at_)
      (still (by rw [place]; rfl))
  | item1 place | ahead1 place | pop1 place | release1 place | observe place | graphFree place =>
    rw [place]
    exact h.graphTo places rfl rfl (fun on => by cases on) (fun at_ => by cases at_) (still (by rw [place]; rfl))

/-- **Each timely step keeps the orders in order.** -/
theorem Orderly.step (h : Orderly k cfg s) (interval : cfg.interval = .operations k positive) (timely : Timely k s l)
    (step : Orders.step method cfg s l = some s') : Orderly k cfg s' := by
  obtain ⟨t, stepped, rfl⟩ := Option.map_eq_some_iff.mp step
  cases l with
  | schedule choice =>
    rcases FreeScheduler.methodStep_move stepped with ⟨move, -⟩ | ⟨-, place, -, rfl⟩
    · exact h.scheduled move
    · exact h.counted place
  | graph choice =>
    rw [FreeScheduler.methodStep_graph] at stepped
    exact h.graphed interval timely stepped
  | submit | produce | partition | cut =>
    rcases FreeScheduler.methodStep_move stepped with ⟨move, -⟩ | ⟨-, -, ⟨b, eq⟩, -⟩
    · have places := FreeScheduler.places_move h.places move
      cases move <;> exact h.frame places rfl (Nat.le_refl _) fun up raised => ⟨up, raised⟩
    · cases eq

theorem orderly_init (k : Nat) (method : CutMethod) (cfg : Config n) : Orderly k cfg (init method cfg) := by
  obtain ⟨w, -, start⟩ := FreeScheduler.methodInit_eq method (threadsConfig cfg)
  unfold init
  rw [start]
  exact ⟨⟨trivial, trivial⟩, rfl, nofun, nofun, nofun, spaced_nil, rfl⟩

/-! ### Runs that keep to the schedule -/

/-- What the counts of such a run keep to. -/
structure Paced (k : Nat) (s : State n) : Prop where
  tested : s.tested ≤ s.threads.nDispatchedRequests
  since : s.since ≤ s.threads.nDispatchedRequests
  at_ : orders s.threads.graphThread = true → s.tested = s.threads.nDispatchedRequests ∧ s.tested % k = 0
  last : lastMark s.orderedAt ≤ s.tested
  multiple : lastMark s.orderedAt % k = 0
  made : orders s.threads.graphThread = false → s.tested % k = 0 → lastMark s.orderedAt = s.tested
  owed : s.owed = true → orders s.threads.graphThread = true ∨ s.since / k < s.threads.nDispatchedRequests / k
  int : s.threads.nDispatchedRequests < 2 ^ 31

/-- The next multiple is an interval away. -/
theorem add_le_of_multiples {a b : Nat} (ha : a % k = 0) (hb : b % k = 0) (less : a < b) : a + k ≤ b := by
  obtain ⟨i, rfl⟩ := Nat.dvd_of_mod_eq_zero ha
  obtain ⟨j, rfl⟩ := Nat.dvd_of_mod_eq_zero hb
  have next : i + 1 ≤ j := Nat.lt_of_mul_lt_mul_left less
  calc k * i + k = k * (i + 1) := (Nat.mul_succ k i).symm
    _ ≤ k * j := Nat.mul_le_mul_left k next

/-- A step of such a run is timely. -/
theorem Paced.timely (h : Paced k s) (inStep : InStep k s l) : Timely k s l where
  apart tests multiple :=
    add_le_of_multiples h.multiple multiple (h.last.trans_lt (inStep.moved tests multiple))
  still tests due := by
    have away : orders s.threads.graphThread = false := by
      unfold Orders.tests at tests
      split at tests
      · rename_i place
        rw [place]
        rfl
      · cases tests
    rcases inStep.between tests with multiple | same
    · exact multiple
    · rcases h.owed (Bool.and_eq_true_iff.mp due).2 with going | past
      · rw [away] at going
        cases going
      · omega
  vertices sizes _ := inStep.vertices sizes

/-- A step away from the count, the test and the order. -/
theorem Paced.frame (h : Paced k s) {t : FreeScheduler.State n} {begun missed : Bool}
    (dispatched : t.nDispatchedRequests = s.threads.nDispatchedRequests)
    (same : orders t.graphThread = orders s.threads.graphThread) :
    Paced k { s with threads := t, begun := begun, missed := missed } := by
  obtain ⟨tested, since, at_, last, multiple, made, owed, int⟩ := h
  rw [← dispatched] at tested since at_ owed int
  rw [← same] at at_ made owed
  exact ⟨tested, since, at_, last, multiple, made, owed, int⟩

/-- `n_dispatched_requests_++`, away from the graph thread's way to `order_partitioning`. -/
theorem Paced.count (h : Paced k s) (orderly : Orderly k cfg s) (interval : cfg.interval = .operations k positive)
    (quiet : orders s.threads.graphThread = false) (int : s.threads.nDispatchedRequests + 1 < 2 ^ 31)
    {next : FreeScheduler.Scheduling} :
    Paced k { s with
      threads := { s.threads with nDispatchedRequests := s.threads.nDispatchedRequests + 1, scheduling := next }
      owed := s.owed || (!s.threads.repartitioning && isMultiple cfg (s.threads.nDispatchedRequests + 1))
      since := if s.threads.repartitioning then s.threads.nDispatchedRequests + 1 else s.since } where
  tested := h.tested.trans (Nat.le_succ _)
  since := by
    split
    · exact le_refl _
    · exact h.since.trans (Nat.le_succ _)
  at_ going := by
    rw [quiet] at going
    cases going
  last := h.last
  multiple := h.multiple
  made _ := h.made quiet
  int := int
  owed up := by
    -- an order that was owed before is owed for a multiple since the last look
    have older : s.owed = true → s.since / k < s.threads.nDispatchedRequests / k := fun due =>
      (h.owed due).resolve_left (by rw [quiet]; exact Bool.false_ne_true)
    have up : (s.owed || (!s.threads.repartitioning && isMultiple cfg (s.threads.nDispatchedRequests + 1))) = true := up
    right
    show (if s.threads.repartitioning then _ else _) / k < (s.threads.nDispatchedRequests + 1) / k
    rcases Bool.or_eq_true_iff.mp up with due | reached
    · have idle : s.threads.repartitioning = false := by
        apply Bool.eq_false_of_not_eq_true
        intro raised
        have ordering := orderly.inFlight due raised
        have away : orders s.threads.graphThread = true := by
          unfold atOrder at ordering
          split at ordering
          · rename_i place
            rw [place]
            rfl
          · cases ordering
        rw [quiet] at away
        cases away
      rw [idle, if_neg Bool.false_ne_true]
      exact (older due).trans_le (Nat.div_le_div_right (Nat.le_succ _))
    · obtain ⟨idle, multiple⟩ := Bool.and_eq_true_iff.mp reached
      rw [Bool.not_eq_true'] at idle
      rw [idle, if_neg Bool.false_ne_true]
      have divides : k ∣ s.threads.nDispatchedRequests + 1 := by
        rw [isMultiple, interval] at multiple
        exact Nat.dvd_of_mod_eq_zero (of_decide_eq_true (of_decide_eq_true multiple).symm)
      rw [Nat.succ_div_of_dvd divides]
      exact Nat.lt_succ_of_le (Nat.div_le_div_right h.since)

/-- The test of the interval. -/
theorem Paced.test (h : Paced k s) (inStep : InStep k s (.graph b)) (place : s.threads.graphThread = .testingInterval)
    {t : FreeScheduler.State n} {missed : Bool} (dispatched : t.nDispatchedRequests = s.threads.nDispatchedRequests)
    (next : orders t.graphThread = decide (s.threads.nDispatchedRequests % k = 0)) :
    Paced k { s with
      threads := t
      tested := s.threads.nDispatchedRequests
      since := s.threads.nDispatchedRequests
      missed := missed } := by
  have tests : tests s (.graph b) = true := by simp only [tests, place]
  have away : orders s.threads.graphThread = false := by
    rw [place]
    rfl
  refine ⟨dispatched.ge, dispatched.ge, fun going => ⟨dispatched.symm, ?_⟩, h.last.trans h.tested, h.multiple,
    fun quiet multiple => ?_, fun due => Or.inl ?_, by rw [dispatched]; exact h.int⟩
  · rw [next] at going
    exact of_decide_eq_true going
  · rw [next, decide_eq_false_iff_not] at quiet
    exact absurd multiple quiet
  · rw [next]
    refine decide_eq_true ?_
    rcases inStep.between tests with multiple | same
    · exact multiple
    · rcases h.owed due with going | past
      · rw [away] at going
        cases going
      · omega

/-- The graph thread's steps. -/
theorem Paced.graphed {t : FreeScheduler.State n} {b : Bool} (h : Paced k s)
    (interval : cfg.interval = .operations k positive) (orderly : Orderly k cfg s) (inStep : InStep k s (.graph b))
    (step : FreeScheduler.graph (threadsConfig cfg) s.threads b = some t) : Paced k (graphed s t) := by
  have move := FreeScheduler.graph_move step
  unfold Orders.graphed looked
  cases move with
  | tally place | imbalanced place | balanced place | noRequest place | seeRequest place | lowerRequest place
  | graphRestart place =>
    have own := orderly.own
    rw [place] at own
    cases own
  | graphSkip place =>
    simp only [FreeScheduler.graph, place] at step
    obtain ⟨achieved, -⟩ := Option.ite_none_right_eq_some.mp step
    have found := (allows_iff interval).mp achieved
    rw [place]
    exact h.test inStep place rfl found
  | graphStart place =>
    simp only [FreeScheduler.graph, place] at step
    obtain ⟨achieved, -⟩ := Option.ite_none_right_eq_some.mp step
    have found := (allows_iff interval).mp achieved
    rw [place]
    exact h.test inStep place rfl found
  | empty place none =>
    have sized : sizes s (.graph b) = true := by simp only [sizes, place]
    exact absurd none (inStep.vertices sized).ne'
  | copy place =>
    obtain ⟨tested, multiple⟩ := h.at_ (by rw [place]; rfl)
    rw [place]
    refine ⟨h.tested, h.since, fun going => (by cases going), ?_, ?_, fun _ _ => ?_, fun due => (by cases due), h.int⟩
    · show lastMark (s.orderedAt ++ [s.threads.nDispatchedRequests]) ≤ s.tested
      rw [lastMark_snoc, tested]
    · show lastMark (s.orderedAt ++ [s.threads.nDispatchedRequests]) % k = 0
      rw [lastMark_snoc, ← tested]
      exact multiple
    · show lastMark (s.orderedAt ++ [s.threads.nDispatchedRequests]) = s.tested
      rw [lastMark_snoc, tested]
  | item1 place | ahead1 place | pop1 place | release1 place | observe place | graphBusy place | graphFree place
  | graphRaise place | sized place | assign place | post place =>
    rw [place]
    exact h.frame rfl (by rw [place]; rfl)

/-- The scheduling thread's steps. -/
theorem Paced.scheduled {t : FreeScheduler.State n} {b : Bool} (h : Paced k s)
    (interval : cfg.interval = .operations k positive) (orderly : Orderly k cfg s) (inStep : InStep k s (.schedule b))
    (move : FreeScheduler.Move (threadsConfig cfg) s.threads (.schedule b) t) : Paced k (scheduled cfg s t) := by
  unfold Orders.scheduled
  cases move with
  | count place =>
    have counts : counts s (.schedule b) = true := by simp only [counts, place]
    rw [place]
    exact h.count orderly interval (inStep.quiet counts) (inStep.int counts)
  | item0 place | ahead0 place | pop0 place | release0 place | finish place | dispatch place | findFree place
  | findBusy place | skip place | start place | ask place | raise place | noUpdate place | seeUpdate place | save place
  | swap place | restore place | sync place | lowerUpdate place | reset place | settle place | restart place =>
    rw [place]
    exact h.frame rfl rfl

/-- **Each step of the schedule keeps the counts.** -/
theorem Paced.step (h : Paced k s) (interval : cfg.interval = .operations k positive) (orderly : Orderly k cfg s)
    (inStep : InStep k s l) (step : Orders.step method cfg s l = some s') : Paced k s' := by
  obtain ⟨t, stepped, rfl⟩ := Option.map_eq_some_iff.mp step
  cases l with
  | schedule choice =>
    rcases FreeScheduler.methodStep_move stepped with ⟨move, -⟩ | ⟨-, place, -, rfl⟩
    · exact h.scheduled interval orderly inStep move
    · have counts : counts s (.schedule choice) = true := by simp only [counts, place]
      show Paced k (Orders.scheduled cfg s _)
      unfold Orders.scheduled
      rw [place]
      exact h.count orderly interval (inStep.quiet counts) (inStep.int counts)
  | graph choice =>
    rw [FreeScheduler.methodStep_graph] at stepped
    exact h.graphed interval orderly inStep stepped
  | submit | produce | partition | cut =>
    rcases FreeScheduler.methodStep_move stepped with ⟨move, -⟩ | ⟨-, -, ⟨b, eq⟩, -⟩
    · cases move <;> exact h.frame rfl rfl
    · cases eq

theorem via_paced (interval : cfg.interval = .operations k positive) (via : (system method cfg).Via (InStep k) s) :
    Orderly k cfg s ∧ Paced k s := by
  refine via.invariant (P := fun s => Orderly k cfg s ∧ Paced k s) ⟨orderly_init k method cfg, ?_⟩ ?_
  · obtain ⟨w, -, start⟩ := FreeScheduler.methodInit_eq method (threadsConfig cfg)
    show Paced k (init method cfg)
    unfold init
    rw [start]
    exact ⟨le_refl _, le_refl _, fun going => (by cases going), le_refl _, Nat.zero_mod k, fun _ _ => rfl,
      fun due => (by cases due), Nat.two_pow_pos 31⟩
  · rintro s l s' - ⟨orderly, paced⟩ inStep step
    exact ⟨orderly.step interval (paced.timely inStep) step, paced.step interval orderly inStep step⟩

/-! ### What a step off the schedule leads to -/

theorem step_graph (method : CutMethod) {t : FreeScheduler.State n} {b : Bool}
    (stepped : FreeScheduler.graph (threadsConfig cfg) s.threads b = some t) :
    step method cfg s (.graph b) = some (Orders.graphed s t) := by
  unfold step
  rw [FreeScheduler.methodStep_graph, stepped, Option.map_some]
  rfl

/-- A test that finds the count past the multiple ends an iteration that began with an order owed. -/
theorem late_missed (interval : cfg.interval = .operations k positive) (place : s.threads.graphThread = .testingInterval)
    (due : (s.begun && s.owed) = true) (past : s.threads.nDispatchedRequests % k ≠ 0) :
    ∃ s', step method cfg s (.graph false) = some s' ∧ s'.missed = true := by
  have passed : FreeScheduler.achieved (threadsConfig cfg) s.threads false = true :=
    (allows_iff interval).mpr (decide_eq_false past).symm
  have stepped : FreeScheduler.graph (threadsConfig cfg) s.threads false =
      some { s.threads with graphThread := .waitingItem } := by
    simp only [FreeScheduler.graph, place, passed, if_true]
    rfl
  refine ⟨_, step_graph method stepped, ?_⟩
  simp only [graphed, place]
  rw [due, Bool.or_true]

theorem noted_threads (cfg : Config n) (s : State n) (l : Label) (t : FreeScheduler.State n) :
    (noted cfg s l t).threads = t := by
  unfold noted
  split
  · unfold Orders.scheduled
    split <;> rfl
  · unfold Orders.graphed
    split <;> rfl
  · rfl

/-- The runs are runs of the threads. -/
theorem reachable_threads (reachable : (system method cfg).Reachable s) :
    (FreeScheduler.methodSystem method (threadsConfig cfg)).Reachable s.threads := by
  refine reachable.invariant (P := fun s => (FreeScheduler.methodSystem method (threadsConfig cfg)).Reachable s.threads)
    System.Reachable.init ?_
  intro s l s' threads step
  obtain ⟨t, stepped, rfl⟩ := Option.map_eq_some_iff.mp step
  rw [noted_threads]
  exact threads.step stepped

/-- A test that finds a multiple too early makes an order that is too early, if no request is
dispatched before `order_partitioning` is called. -/
theorem early_order (interval : cfg.interval = .operations k positive) (reachable : (system method cfg).Reachable s)
    (place : s.threads.graphThread = .testingInterval) (vertices : 0 < s.threads.workload.workloadGraph.nVertex)
    (multiple : s.threads.nDispatchedRequests % k = 0)
    (early : s.threads.nDispatchedRequests < lastMark s.orderedAt + k) :
    ∃ s', (system method cfg).exec s (List.replicate 4 (.graph true)) = some s' ∧ ¬ Spaced k s'.orderedAt := by
  have achieved : FreeScheduler.achieved (threadsConfig cfg) s.threads true = true :=
    (allows_iff interval).mpr (decide_eq_true multiple).symm
  obtain ⟨ls, recorded⟩ := (reachable_threads reachable).recorded
  obtain ⟨d, copied, -⟩ := multilevelCutData_built
    (Workload.run_wellFormed (FreeScheduler.recorded_sources recorded).2.workload).row fun _ => .sorted _
  -- the four statements of the graph thread
  let found : State n := { s with tested := s.threads.nDispatchedRequests, since := s.threads.nDispatchedRequests }
  let s1 : State n := { found with threads := { s.threads with graphThread := .sizing } }
  let s2 : State n := { found with threads := { s.threads with graphThread := .raisingRepartitioning } }
  let s3 : State n := { found with threads := { s.threads with repartitioning := true, graphThread := .copying } }
  let s4 : State n := { found with
    threads := { s.threads with repartitioning := true, graphThread := .assigning d }
    orderedAt := s.orderedAt ++ [s.threads.nDispatchedRequests]
    owed := false
    begun := false }
  have test : step method cfg s (.graph true) = some s1 := by
    rw [step_graph method (t := { s.threads with graphThread := .sizing })]
    · simp only [Orders.graphed, looked, place]
      rfl
    · simp only [FreeScheduler.graph, place, achieved, if_true]
      rfl
  have size : step method cfg s1 (.graph true) = some s2 := by
    rw [step_graph method (t := { s.threads with graphThread := .raisingRepartitioning })]
    · rfl
    · simp only [FreeScheduler.graph, s1, if_pos vertices]
      rfl
  have raise : step method cfg s2 (.graph true) = some s3 :=
    step_graph method (t := { s.threads with repartitioning := true, graphThread := .copying }) rfl
  have copy : step method cfg s3 (.graph true) = some s4 := by
    apply step_graph method (t := { s.threads with repartitioning := true, graphThread := .assigning d })
    simp only [FreeScheduler.graph, s3, copied, Option.map_some]
  refine ⟨s4, ?_, fun spaced => ?_⟩
  · simp only [List.replicate, System.exec, system, test, size, raise, copy, Option.bind_some]
  · have := (spaced_snoc.mp spaced).2
    omega

/-- **Once per interval.** In every run of the scheduling, the graph and the partitioning thread that keeps to the
schedule, `operation_interval_` or more requests are dispatched before the first call of `order_partitioning` and
between any two that follow each other, and no iteration of `update_graph_loop` that began with an order owed ends
without one; the test of the `int` is that of the count. The schedule is needed for that: where the test finds the
multiple of the last test again, the graph thread orders too early if it is the next to move, and where an iteration
that began with an order owed finds the count past the multiple, it ends without one. -/
theorem once_per_interval (n : Nat) (method : CutMethod) (cfg : Config n) (k : Nat) (positive : 0 < k) (fits : k < 2 ^ 31)
    (interval : cfg.interval = .operations k positive) (s : State n) (via : (system method cfg).Via (InStep k) s) :
    Spaced k s.orderedAt ∧ s.missed = false ∧
    CounterWidths.intervalTest (Int32.ofNat s.threads.nDispatchedRequests) (Int32.ofNat k) =
      decide (s.threads.nDispatchedRequests % k = 0) ∧
    (s.threads.graphThread = .testingInterval → 0 < s.threads.workload.workloadGraph.nVertex →
      s.threads.nDispatchedRequests % k = 0 → s.tested = s.threads.nDispatchedRequests →
      ∃ s', (system method cfg).exec s (List.replicate 4 (.graph true)) = some s' ∧ ¬Spaced k s'.orderedAt) ∧
    (s.threads.graphThread = .testingInterval → (s.begun && s.owed) = true → s.threads.nDispatchedRequests % k ≠ 0 →
      ∃ s', step method cfg s (.graph false) = some s' ∧ s'.missed = true) := by
  obtain ⟨orderly, paced⟩ := via_paced interval via
  refine ⟨orderly.spaced, orderly.missed, CounterWidths.intervalTest_eq fits paced.int,
    fun place vertices multiple again => ?_, fun place due past => ?_⟩
  · have made : lastMark s.orderedAt = s.tested := paced.made (by rw [place]; rfl) (by rw [again]; exact multiple)
    exact early_order interval via.reachable place vertices multiple (by omega)
  · exact late_missed interval place due past

/-- Two partitions, and a repartition after every two requests. -/
def pairConfig : Config 2 where
  positive := Nat.two_pos
  TL := 0
  queueHeadDistance := 8
  interval := .operations 2 Nat.two_pos
  populated := [0]

def submitWrites (count : Nat) : List Label :=
  (List.replicate count [.submit { type := .WRITE, key := 0 }, .produce, .produce, .produce]).flatten

def dispatchWrites (count : Nat) : List Label := List.replicate (7 * count) (.schedule true)

/-- The graph thread takes a message, finds a multiple and orders. -/
def order : List Label := List.replicate 10 (.graph true)

theorem once_per_interval_two : ∃ s, (system .METIS pairConfig).Via (InStep 2) s ∧ s.orderedAt = [2] ∧
    Spaced 2 s.orderedAt ∧ s.missed = false := by
  obtain ⟨s, via, eq⟩ := System.exists_via (M := system .METIS pairConfig) (InStep 2) (P := fun s => s.orderedAt = [2])
    (submitWrites 2 ++ dispatchWrites 2 ++ order) (by decide +kernel)
  obtain ⟨spaced, none, -⟩ := once_per_interval 2 .METIS pairConfig 2 Nat.two_pos (by decide) rfl s via
  exact ⟨s, via, eq, spaced, none⟩

/-- The first message is taken before anything is dispatched, and 0 is a multiple. Three requests are
dispatched before the first iteration, which finds 3. -/
theorem orders_early_and_late :
    (∃ s, (system .METIS pairConfig).Reachable s ∧ s.orderedAt = [0]) ∧ ¬ Spaced 2 [0] ∧
    ∃ s, (system .METIS pairConfig).Reachable s ∧ s.missed = true := by
  refine ⟨?_, fun spaced => ?_, ?_⟩
  · exact System.exists_reachable (M := system .METIS pairConfig) (P := fun s => s.orderedAt = [0])
      (submitWrites 1 ++ order) (by decide +kernel)
  · exact absurd ((@spaced_snoc 2 0 []).mp spaced).2 (by decide)
  · exact System.exists_reachable (M := system .METIS pairConfig) (P := fun s => s.missed = true)
      (submitWrites 3 ++ dispatchWrites 3 ++ List.replicate 6 (.graph true) ++ [.graph false]) (by decide +kernel)

end Orders

end KvPaxos
