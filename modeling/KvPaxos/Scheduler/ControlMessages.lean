import KvPaxos.Scheduler.FreePlaces
import KvPaxos.Scheduler.RoundRobin
import KvPaxos.Scheduler.Snapshot

/-!
# Control messages and the workload model

The client submits requests and, last, an END message whose key is not initialised. The scheduling
thread stops at END. The graph thread does not look at the type: it counts END like a request, under
whatever key it holds.

`messages` lists the messages a scheduler holds anywhere, so that they can be followed from `submit` on.
The keys of the graph, of its copies and of the maps come from the populated keys, from the messages
the graph thread has counted and from the requests the scheduling thread has dispatched. The counted ones are a
prefix of the submitted ones, in which END is the last. So as long as the graph thread has counted no more messages
than were submitted before END, and no longer, all of them are keys of requests.
-/

namespace KvPaxos

open Lib UnorderedMap

/-- The label submits only requests and, after them, one END. -/
def FollowsClient {ℓ : Type} (message : ℓ → Option ClientMessage) (before : List ℓ) (l : ℓ) : Prop :=
  ∀ m, message l = some m → (m.IsRequest ∨ m.type = .END) ∧ ∀ m' ∈ before.filterMap message, m'.type ≠ .END

/-- How many messages are submitted before END. -/
def beforeEnd (submitted : List ClientMessage) : Nat := (submitted.takeWhile fun m => m.type ≠ .END).length

instance {ℓ : Type} (message : ℓ → Option ClientMessage) (before : List ℓ) (l : ℓ) :
    Decidable (FollowsClient message before l) :=
  inferInstanceAs (Decidable (∀ m ∈ message l,
    (m.IsRequest ∨ m.type = .END) ∧ ∀ m' ∈ before.filterMap message, m'.type ≠ .END))

/-- The key is populated or lies in the range of a submitted request. -/
def Requested (populated : List Int) (submitted : List ClientMessage) (k : Int) : Prop :=
  k ∈ populated ∨ ∃ m ∈ submitted, m.IsRequest ∧ k ∈ m.keys

instance (populated : List Int) (submitted : List ClientMessage) (k : Int) :
    Decidable (Requested populated submitted k) :=
  inferInstanceAs (Decidable (_ ∨ ∃ m ∈ submitted, m.IsRequest ∧ k ∈ m.keys))

/-- Where a key may come from: it is populated, or the graph thread has counted it, or the scheduling
thread has mapped it. -/
def Origin (populated : List Int) (submitted processed : List ClientMessage) (k : Int) : Prop :=
  k ∈ populated ∨ (∃ m ∈ processed, k ∈ m.keys) ∨ ∃ m ∈ submitted, m.type ≠ .END ∧ k ∈ m.keys

/-- Requests and END only. -/
def FromClient (submitted : List ClientMessage) : Prop := ∀ m ∈ submitted, m.IsRequest ∨ m.type = .END

section Origin

variable {populated : List Int} {submitted processed : List ClientMessage} {k : Int}

theorem Origin.mono (h : Origin populated submitted processed k) {submitted' processed' : List ClientMessage}
    (more : submitted ⊆ submitted') (more' : processed ⊆ processed') : Origin populated submitted' processed' k := by
  rcases h with h | ⟨m, mem, key⟩ | ⟨m, mem, request, key⟩
  · exact Or.inl h
  · exact Or.inr (Or.inl ⟨m, more' mem, key⟩)
  · exact Or.inr (Or.inr ⟨m, more mem, request, key⟩)

/-- Where END has not been counted, every key is requested. -/
theorem Origin.requested (h : Origin populated submitted processed k) (client : FromClient submitted)
    (counted : processed ⊆ submitted) (noEnd : ∀ m ∈ processed, m.type ≠ .END) : Requested populated submitted k := by
  rcases h with h | ⟨m, mem, key⟩ | ⟨m, mem, request, key⟩
  · exact Or.inl h
  · exact Or.inr ⟨m, counted mem, (client m (counted mem)).resolve_right (noEnd m mem), key⟩
  · exact Or.inr ⟨m, mem, (client m mem).resolve_right request, key⟩

theorem FromClient.snoc {ℓ : Type} {message : ℓ → Option ClientMessage} {before : List ℓ} {l : ℓ}
    (h : FromClient (before.filterMap message)) (follows : FollowsClient message before l) :
    FromClient ((before ++ [l]).filterMap message) := by
  intro m mem
  rw [List.filterMap_append, List.mem_append] at mem
  rcases mem with mem | mem
  · exact h m mem
  · obtain ⟨l', new, eq⟩ := List.mem_filterMap.mp mem
    rw [List.mem_singleton.mp new] at eq
    exact (follows m eq).1

theorem via_fromClient {σ ℓ : Type} {M : System σ ℓ} {message : ℓ → Option ClientMessage} {r : σ × List ℓ}
    (via : M.recorded.Via (fun r l => FollowsClient message r.2 l) r) : FromClient (r.2.filterMap message) := by
  refine via.invariant (P := fun r => FromClient (r.2.filterMap message)) nofun ?_
  rintro ⟨s, ls⟩ l ⟨s', ls'⟩ - client follows step
  obtain ⟨-, rfl⟩ := System.recorded_step step
  exact client.snoc follows

/-- The END is counted by those who count more messages than were submitted before it. -/
theorem noEnd_iff (inOrder : processed <+: submitted) :
    (∀ m ∈ processed, m.type ≠ .END) ↔ processed.length ≤ beforeEnd submitted := by
  have before : (submitted.takeWhile fun m => m.type ≠ .END) <+: submitted := List.takeWhile_prefix _
  constructor
  · intro noEnd
    obtain ⟨rest, rfl⟩ := inOrder
    have all : ∀ m ∈ processed, decide (m.type ≠ .END) = true := fun m mem => decide_eq_true (noEnd m mem)
    rw [beforeEnd, List.takeWhile_append_of_pos all, List.length_append]
    exact Nat.le_add_right _ _
  · intro few m mem
    have inside := List.prefix_of_prefix_length_le inOrder before few
    exact of_decide_eq_true (List.all_eq_true.mp List.all_takeWhile m (inside.subset mem))

/-- A run that has submitted END and counted all that was submitted has counted END. -/
theorem beforeEnd_lt {m : ClientMessage} (mem : m ∈ submitted) (type : m.type = .END) :
    beforeEnd submitted < submitted.length := by
  by_contra all
  have counted := (noEnd_iff (List.prefix_refl submitted)).mpr (Nat.le_of_not_lt all)
  exact counted m mem type

theorem ClientMessage.IsRequest.not_end {m : ClientMessage} (h : m.IsRequest) : m.type ≠ .END := by
  rcases h.type with e | e | e <;> rw [e] <;> decide

/-- The vertices of a graph that has counted the populated keys, or none of them, and `processed`. -/
theorem CutMethod.run_origin {n : Nat} {cfg : StopTheWorld.Config n} {method : CutMethod} {w : Workload}
    (run : Workload.run cfg.TL (method.counted cfg ++ processed) = some w) (vertex : k ∈ w.workloadGraph.vertexWeight) :
    Origin cfg.populated submitted processed k := by
  obtain ⟨m, mem, key⟩ := Workload.run_source run vertex
  rcases List.mem_append.mp mem with mem | mem
  · unfold CutMethod.counted at mem
    split at mem
    · cases mem
    · obtain ⟨populated, inList, rfl⟩ := List.mem_map.mp mem
      rw [ClientMessage.keys_of_not_scan (m := { type := .WRITE, key := populated }) nofun,
        List.mem_singleton] at key
      exact Or.inl (key ▸ inList)
  · exact Or.inr (Or.inl ⟨m, mem, key⟩)

end Origin

section Lists

variable {P : ClientMessage → Prop} {q q' : Queue ClientMessage} {m message : ClientMessage} {h i : Fin 2}

theorem mem_snoc {ms : List ClientMessage} (mem : m ∈ ms ++ [message]) (old : ∀ m ∈ ms, P m) (new : P message) :
    P m := by
  rcases List.mem_append.mp mem with mem | mem
  · exact old m mem
  · rw [List.mem_singleton.mp mem]
    exact new

theorem mem_pushTo (mem : m ∈ (q.pushTo h message).queues i) (old : ∀ m ∈ q.queues i, P m) (new : P message) :
    P m := by
  simp only [Queue.pushTo, Function.update_apply] at mem
  split at mem
  · rename_i eq
    subst eq
    exact mem_snoc mem old new
  · exact old m mem

theorem mem_popFront (front : q.popFront h = some (message, q')) (old : ∀ i, ∀ m ∈ q.queues i, P m) :
    P message ∧ ∀ i, ∀ m ∈ q'.queues i, P m := by
  obtain ⟨rest, eq, rfl⟩ := Queue.popFront_eq_some.mp front
  have queue := old h
  rw [eq] at queue
  refine ⟨queue message List.mem_cons_self, fun i m mem => ?_⟩
  simp only [Function.update_apply] at mem
  split at mem
  · exact queue m (List.mem_cons_of_mem _ mem)
  · exact old i m mem

end Lists

namespace StopTheWorld

variable {n : Nat} {method : CutMethod} {cfg : Config n} {s s' : State n} {l : Label}

theorem pushed_move (move : Move cfg s l s') : s'.pushed = s.pushed ++ l.submits.toList := by
  cases move with
  | submit => rfl
  | _ => exact (List.append_nil _).symm

/-- What has been dispatched or counted, or is in hand, has been submitted. -/
theorem Contents.submitted (h : Contents s) {m : ClientMessage} :
    (m ∈ s.scheduling.inHand → m ∈ s.pushed) ∧ (m ∈ s.processed → m ∈ s.pushed) := by
  refine ⟨fun mem => ?_, fun mem => ?_⟩
  · rw [h.head0, h.popped0]
    exact List.mem_append_left _ (List.mem_append_right _ mem)
  · rw [h.head1, h.popped1]
    exact List.mem_append_left _ (List.mem_append_left _ (List.mem_append_left _ mem))

/-- Where the keys of the graph, of its copy and of the mapping come from. -/
structure Sources (method : CutMethod) (cfg : Config n) (s : State n) : Prop where
  workload : Workload.run cfg.TL (method.counted cfg ++ s.processed) = some s.workload
  mapped : ∀ k ∈ s.mapping.dataToPartition, Origin cfg.populated s.pushed s.processed k
  copied : ∀ keys, s.scheduling.copied = some keys → ∀ k, keys k → Origin cfg.populated s.pushed s.processed k

/-- The graph changes where a message is counted, the map where `dispatch` maps keys and where a new map is installed,
and the copy is of the graph. The origin of each key is kept. -/
theorem Sources.move (h : Sources method cfg s) (contents : Contents s) (move : Move cfg s l s') :
    Sources method cfg s' := by
  obtain ⟨workload, mapped, copied⟩ := id h
  cases move with
  | dispatch place type involved =>
    refine ⟨workload, fun k mem => ?_, nofun⟩
    have spec := Mapping.involvedPartitions_spec involved
    obtain ⟨p, hp⟩ := Finmap.mem_iff.mp mem
    cases old : s.mapping.dataToPartition.lookup k with
    | some q => exact mapped k (Finmap.mem_of_lookup_eq_some old)
    | none =>
      have mine := contents.submitted.1 (by rw [place]; exact List.mem_singleton_self _)
      exact Or.inr (Or.inr ⟨_, mine, type, spec.fresh k p old hp⟩)
  | copy place copies =>
    refine ⟨workload, mapped, fun keys eq k key => ?_⟩
    cases eq
    exact method.run_origin workload (((Workload.copied workload copies).1 k).mp key)
  | park2 place | open2 place | resume2 place =>
    rw [place] at copied
    exact ⟨workload, mapped, copied⟩
  | cut place length inRange built =>
    rw [place] at copied
    refine ⟨workload, mapped, fun keys eq k key => ?_⟩
    cases eq
    exact copied _ rfl k (mem_of_partitioning built key)
  | install place =>
    rw [place] at copied
    exact ⟨workload, copied _ rfl, nofun⟩
  | @update request workload' place observed =>
    have more : s.processed ⊆ s.processed ++ [request] := List.subset_append_left _ _
    refine ⟨?_, fun k mem => (mapped k mem).mono (List.Subset.refl _) more,
      fun keys eq k key => (copied keys eq k key).mono (List.Subset.refl _) more⟩
    rw [← List.append_assoc, Workload.run_snoc, workload]
    exact observed
  | submit message place =>
    have more : s.pushed ⊆ s.pushed ++ [message] := List.subset_append_left _ _
    exact ⟨workload, fun k mem => (mapped k mem).mono more (List.Subset.refl _),
      fun keys eq k key => (copied keys eq k key).mono more (List.Subset.refl _)⟩
  | item0 | ahead0 | pop0 | release0 | finish | count | start | raise | freeItem | freeAhead | park1 | open1
  | resume1 => exact ⟨workload, mapped, nofun⟩
  | _ => exact ⟨workload, mapped, copied⟩

theorem Sources.init (method : CutMethod) (cfg : Config n) : Sources method cfg (methodInit method cfg) := by
  obtain ⟨w, ran, start⟩ := methodInit_eq method cfg
  rw [start]
  refine ⟨?_, fun k mem => ?_, nofun⟩
  · show Workload.run cfg.TL (method.counted cfg ++ []) = some w
    rw [List.append_nil]
    exact ran
  · exact Or.inl ((Mapping.mem_foldl_mapKey cfg.populated mem).resolve_right Finmap.notMem_empty)

/-- In every run of the threads: what is submitted is kept in order, and every key has its source. -/
theorem recorded_sources {r : State n × List Label}
    (reachable : (methodSystem method cfg).recorded.Reachable r) :
    r.1.pushed = r.2.filterMap Label.submits ∧ Contents r.1 ∧ Sources method cfg r.1 := by
  refine reachable.invariant (P := fun r => r.1.pushed = r.2.filterMap Label.submits ∧ Contents r.1 ∧
    Sources method cfg r.1) ?_ ?_
  · refine ⟨?_, ?_, Sources.init method cfg⟩
    · obtain ⟨w, -, start⟩ := methodInit_eq method cfg
      show (methodInit method cfg).pushed = []
      rw [start]
      rfl
    · obtain ⟨w, -, start⟩ := methodInit_eq method cfg
      obtain ⟨popped0, popped1, head0, head1⟩ := contents_init cfg
      show Contents (methodInit method cfg)
      rw [start]
      exact ⟨popped0, popped1, head0, head1⟩
  · rintro ⟨s, ls⟩ l ⟨s', ls'⟩ ⟨pushed, contents, sources⟩ step
    obtain ⟨step, rfl⟩ := System.recorded_step step
    have move : ∃ l', l'.submits = l.submits ∧ Move cfg s l' s' := by
      rcases methodStep_move step with ⟨move, -⟩ | ⟨-, place, ⟨b, rfl⟩, rfl⟩
      · exact ⟨l, rfl, move⟩
      · exact ⟨.schedule false, rfl, Move.count place⟩
    obtain ⟨l', same, move⟩ := move
    refine ⟨?_, contents_move contents move, sources.move contents move⟩
    show s'.pushed = (ls ++ [l]).filterMap Label.submits
    rw [pushed_move move, pushed, List.filterMap_append, same]
    cases l <;> rfl

/-- The workload model stands for requests only: the counted messages are submitted requests, the
graph counts them and no others, and every key of the graph, of its copy and of the maps is
populated or a request's. -/
structure OnlyRequests (method : CutMethod) (cfg : Config n) (s : State n) (submitted : List ClientMessage) : Prop where
  counted : ∀ m ∈ s.processed, m ∈ submitted ∧ m.IsRequest
  counters : Workload.run cfg.TL (method.counted cfg ++ s.processed) = some s.workload
  vertices : ∀ k ∈ s.workload.workloadGraph.vertexWeight, Requested cfg.populated submitted k
  copied : ∀ keys, s.scheduling.copied = some keys → ∀ k, keys k → Requested cfg.populated submitted k
  mapped : ∀ k ∈ s.mapping.dataToPartition, Requested cfg.populated submitted k

theorem onlyRequests_of_noEnd {r : State n × List Label}
    (via : (methodSystem method cfg).recorded.Via (fun r l => FollowsClient Label.submits r.2 l) r)
    (noEnd : ∀ m ∈ r.1.processed, m.type ≠ .END) : OnlyRequests method cfg r.1 (r.2.filterMap Label.submits) := by
  obtain ⟨pushed, contents, workload, mapped, copied⟩ := recorded_sources via.reachable
  have client : FromClient (r.2.filterMap Label.submits) := via_fromClient via
  rw [pushed] at mapped copied
  have counted : r.1.processed ⊆ r.2.filterMap Label.submits := fun m mem => pushed ▸ contents.submitted.2 mem
  have requested {k : Int} (h : Origin cfg.populated (r.2.filterMap Label.submits) r.1.processed k) :=
    h.requested client counted noEnd
  exact {
    counted := fun m mem => ⟨counted mem, (client m (counted mem)).resolve_right (noEnd m mem)⟩
    counters := workload
    vertices := fun k mem => requested (method.run_origin workload mem)
    copied := fun keys eq k key => requested (copied keys eq k key)
    mapped := fun k mem => requested (mapped k mem) }

/-- **Where `Scheduler` and `OldImbScheduler` keep control messages out**: as long as no more messages are counted
than were submitted before END. -/
theorem onlyRequests_iff {r : State n × List Label}
    (via : (methodSystem method cfg).recorded.Via (fun r l => FollowsClient Label.submits r.2 l) r) :
    OnlyRequests method cfg r.1 (r.2.filterMap Label.submits) ↔
      r.1.processed.length ≤ beforeEnd (r.2.filterMap Label.submits) := by
  obtain ⟨pushed, contents, -⟩ := recorded_sources via.reachable
  have inOrder : r.1.processed <+: r.2.filterMap Label.submits := by
    rw [← pushed, contents.head1, contents.popped1, List.append_assoc, List.append_assoc]
    exact List.prefix_append _ _
  rw [← noEnd_iff inOrder]
  exact ⟨fun only m mem => (only.counted m mem).2.not_end, onlyRequests_of_noEnd via⟩

end StopTheWorld

namespace FreeScheduler

variable {n : Nat} {method : CutMethod} {cfg : Config n} {s s' : State n} {l : Label} {P : ClientMessage → Prop}
  {submitted : List ClientMessage}

/-- The message the scheduling thread has taken off the queue and not dispatched. -/
def Scheduling.inHand : Scheduling → Option ClientMessage
  | .releasing message | .dispatching message => some message
  | _ => none

/-- The copy of the graph on its way to `input_graph_`. -/
def GraphThread.copied : GraphThread → Option InputGraph
  | .assigning inputGraph => some inputGraph
  | _ => none

/-- Every message on its way or counted has the property. -/
structure State.All (P : ClientMessage → Prop) (s : State n) : Prop where
  pushing : ∀ m, s.producer = .pushing m → P m
  queued : ∀ h, ∀ m ∈ s.queue.queues h, P m
  scheduling : ∀ m, s.scheduling.inHand = some m → P m
  graph : ∀ m, s.graphThread.inHand = some m → P m
  processed : ∀ m ∈ s.processed, P m

theorem State.All.mono (h : s.All P) {Q : ClientMessage → Prop} (imp : ∀ m, P m → Q m) : s.All Q :=
  ⟨fun m eq => imp m (h.pushing m eq), fun i m mem => imp m (h.queued i m mem), fun m eq => imp m (h.scheduling m eq),
    fun m eq => imp m (h.graph m eq), fun m mem => imp m (h.processed m mem)⟩

theorem State.All.graphTo (h : s.All P) {g : GraphThread} (none : g.inHand = none) : { s with graphThread := g }.All P :=
  ⟨h.pushing, h.queued, h.scheduling, fun m eq => (by rw [none] at eq; cases eq), h.processed⟩

theorem inHand_counted (v : Variant) : v.counted.inHand = none := by cases v <;> rfl

theorem inHand_updated (v : Variant) : v.updated.inHand = none := by cases v <;> rfl

theorem inHand_settled (v : Variant) : v.settled.inHand = none := by cases v <;> rfl

/-- Messages come in by `submit` only. -/
theorem State.All.move (h : s.All P) (new : ∀ m, l.submits = some m → P m) (move : Move cfg s l s') : s'.All P := by
  obtain ⟨pushing, queued, scheduling, graph, processed⟩ := id h
  cases move with
  | submit message place =>
    refine ⟨fun m eq => ?_, fun i m mem => ?_, scheduling, graph, processed⟩
    · cases eq
      exact new message rfl
    · exact mem_pushTo mem (queued i) (new message rfl)
  | push place =>
    exact ⟨nofun, fun i m mem => mem_pushTo mem (queued i) (pushing _ place), scheduling, graph, processed⟩
  | notify0 | notify1 => exact ⟨nofun, queued, scheduling, graph, processed⟩
  | item0 place taken =>
    obtain ⟨-, rfl⟩ := Queue.waitItem_eq_some.mp taken
    exact ⟨pushing, queued, nofun, graph, processed⟩
  | ahead0 place taken =>
    obtain ⟨-, rfl⟩ := Queue.waitAhead_eq_some.mp taken
    exact ⟨pushing, queued, nofun, graph, processed⟩
  | pop0 place front =>
    obtain ⟨first, rest⟩ := mem_popFront front queued
    exact ⟨pushing, rest, fun m eq => Option.some_inj.mp eq ▸ first, graph, processed⟩
  | release0 place =>
    rw [place] at scheduling
    exact ⟨pushing, queued, scheduling, graph, processed⟩
  | count | lowerUpdate | settle =>
    refine ⟨pushing, queued, fun m eq => ?_, graph, processed⟩
    simp only [inHand_counted, inHand_updated, inHand_settled] at eq
    cases eq
  | findBusy | findFree | skip | start | ask | raise | noUpdate | seeUpdate | save | swap | restore | sync | reset
  | restart | finish | dispatch => exact ⟨pushing, queued, nofun, graph, processed⟩
  | item1 place taken =>
    obtain ⟨-, rfl⟩ := Queue.waitItem_eq_some.mp taken
    exact ⟨pushing, queued, scheduling, nofun, processed⟩
  | ahead1 place taken =>
    obtain ⟨-, rfl⟩ := Queue.waitAhead_eq_some.mp taken
    exact ⟨pushing, queued, scheduling, nofun, processed⟩
  | pop1 place front =>
    obtain ⟨first, rest⟩ := mem_popFront front queued
    exact ⟨pushing, rest, scheduling, fun m eq => Option.some_inj.mp eq ▸ first, processed⟩
  | release1 place =>
    rw [place] at graph
    exact ⟨pushing, queued, scheduling, graph, processed⟩
  | observe place =>
    rw [place] at graph
    refine ⟨pushing, queued, scheduling, fun m eq => ?_, fun m mem => mem_snoc mem processed (graph _ rfl)⟩
    rw [inHand_of_bare (bare_observed _)] at eq
    cases eq
  | graphBusy | graphSkip => exact h.graphTo (inHand_of_bare (bare_head _))
  | graphFree => exact h.graphTo (inHand_of_bare (bare_unclaimed _))
  | graphStart => exact h.graphTo (inHand_of_bare (bare_achieved _))
  | empty => exact h.graphTo (inHand_of_bare (bare_done _))
  | sized => exact h.graphTo (inHand_of_bare (bare_sized _))
  | graphRaise | post =>
    refine ⟨pushing, queued, scheduling, fun m eq => ?_, processed⟩
    simp only [inHand_of_bare (bare_raised _), inHand_of_bare (bare_done _)] at eq
    cases eq
  | tally | balanced | imbalanced | noRequest | seeRequest | lowerRequest | copy | assign | graphRestart =>
    exact ⟨pushing, queued, scheduling, nofun, processed⟩
  | take | aim | free | cut | store | raiseUpdate => exact ⟨pushing, queued, scheduling, graph, processed⟩

/-- Where the keys of the graph, of its copies and of the maps come from. -/
structure Sources (method : CutMethod) (cfg : Config n) (s : State n) (submitted : List ClientMessage) : Prop where
  workload : Workload.run cfg.TL (method.counted cfg.toConfig ++ s.processed) = some s.workload
  maps : ∀ p map, s.heap.cells p = some map → ∀ k ∈ map, Origin cfg.populated submitted s.processed k
  copied : ∀ d, s.graphThread.copied = some d → ∀ k ∈ d.verticeToPos, Origin cfg.populated submitted s.processed k
  input : ∀ k ∈ s.inputGraph.verticeToPos, Origin cfg.populated submitted s.processed k
  ordered : ∀ d ∈ s.ordered, ∀ k ∈ d.verticeToPos, Origin cfg.populated submitted s.processed k

theorem Sources.mono (h : Sources method cfg s submitted) {submitted' : List ClientMessage}
    (more : submitted ⊆ submitted') : Sources method cfg s submitted' :=
  have wider {k : Int} (from_ : Origin cfg.populated submitted s.processed k) := from_.mono more (List.Subset.refl _)
  ⟨h.workload, fun p map here k mem => wider (h.maps p map here k mem), fun d eq k mem => wider (h.copied d eq k mem),
    fun k mem => wider (h.input k mem), fun d here k mem => wider (h.ordered d here k mem)⟩

/-- A step of the graph thread that copies nothing. -/
theorem Sources.graphTo (h : Sources method cfg s submitted) {g : GraphThread} (none : g.copied = none) :
    Sources method cfg { s with graphThread := g } submitted :=
  ⟨h.workload, h.maps, fun d eq => (by rw [none] at eq; cases eq), h.input, h.ordered⟩

theorem copied_of_bare {g : GraphThread} (bare : g.bare = true) : g.copied = none := by
  cases g <;> first | rfl | cases bare

/-- As for the stop-the-world schedulers, with the maps on the heap, the posted graph and the orders: a map is made of
the graph that was posted for it. -/
theorem Sources.move (h : Sources method cfg s submitted) (messages : s.All (· ∈ submitted)) (move : Move cfg s l s') :
    Sources method cfg s' submitted := by
  obtain ⟨workload, maps, copied, input, ordered⟩ := id h
  cases move with
  | dispatch place type read involved =>
    refine ⟨workload, fun p map here k mem => ?_, copied, input, ordered⟩
    simp only [Heap.write, Function.update_apply] at here
    split at here
    · rw [read] at here
      cases here
      have spec := Mapping.involvedPartitions_spec involved
      obtain ⟨q, hq⟩ := Finmap.mem_iff.mp mem
      cases old : Finmap.lookup k _ with
      | some q' => exact maps _ _ read k (Finmap.mem_of_lookup_eq_some old)
      | none =>
        have mine := messages.scheduling _ (by rw [place]; rfl)
        exact Or.inr (Or.inr ⟨_, mine, type, spec.fresh k q old hq⟩)
    · exact maps p map here k mem
  | free place =>
    refine ⟨workload, fun p map here k mem => ?_, copied, input, ordered⟩
    simp only [Heap.delete, Function.update_apply] at here
    split at here
    · cases here
    · exact maps p map here k mem
  | cut place built =>
    refine ⟨workload, fun p map here k mem => ?_, copied, input, ordered⟩
    simp only [Heap.new, Function.update_apply] at here
    split at here
    · cases here
      exact input k (mem_of_partitioning built mem)
    · exact maps p map here k mem
  | @observe b request workload' place observed =>
    have more : s.processed ⊆ s.processed ++ [request] := List.subset_append_left _ _
    have wider {k : Int} (from_ : Origin cfg.populated submitted s.processed k) := from_.mono (List.Subset.refl _) more
    refine ⟨?_, fun p map here k mem => wider (maps p map here k mem), fun d eq => ?_,
      fun k mem => wider (input k mem), fun d here k mem => wider (ordered d here k mem)⟩
    · rw [← List.append_assoc, Workload.run_snoc, workload]
      exact observed
    · rw [copied_of_bare (bare_observed _)] at eq
      cases eq
  | copy place copies =>
    refine ⟨workload, maps, fun d eq k mem => ?_, input, ordered⟩
    cases eq
    exact method.run_origin workload (((Workload.copied workload copies).1 k).mp mem)
  | assign place =>
    rw [place] at copied
    exact ⟨workload, maps, fun d eq => (by cases eq), copied _ rfl, ordered⟩
  | post =>
    refine ⟨workload, maps, fun d eq => ?_, input, fun d here k mem => ?_⟩
    · rw [copied_of_bare (bare_done _)] at eq
      cases eq
    · rcases List.mem_append.mp here with here | here
      · exact ordered d here k mem
      · rw [List.mem_singleton.mp here] at mem
        exact input k mem
  | graphRaise =>
    refine ⟨workload, maps, fun d eq => ?_, input, ordered⟩
    rw [copied_of_bare (bare_raised _)] at eq
    cases eq
  | graphBusy | graphSkip => exact h.graphTo (copied_of_bare (bare_head _))
  | graphFree => exact h.graphTo (copied_of_bare (bare_unclaimed _))
  | graphStart => exact h.graphTo (copied_of_bare (bare_achieved _))
  | empty => exact h.graphTo (copied_of_bare (bare_done _))
  | sized => exact h.graphTo (copied_of_bare (bare_sized _))
  | tally | item1 | ahead1 | pop1 | release1 | balanced | imbalanced | noRequest | seeRequest | lowerRequest
  | graphRestart => exact ⟨workload, maps, fun d eq => (by cases eq), input, ordered⟩
  | _ => exact ⟨workload, maps, copied, input, ordered⟩

theorem All.init (method : CutMethod) (cfg : Config n) : (methodInit method cfg).All P := by
  obtain ⟨w, -, start⟩ := methodInit_eq method cfg
  rw [start]
  refine ⟨nofun, fun i m mem => ?_, nofun, fun m eq => ?_, nofun⟩
  · have mem : m ∈ (Queue.schedulerQueue (α := ClientMessage) cfg.queueHeadDistance).queues i := mem
    rw [(StopTheWorld.schedulerQueue_empty cfg.queueHeadDistance i).2] at mem
    cases mem
  · have eq : cfg.variant.head.inHand = some m := eq
    rw [inHand_of_bare (bare_head _)] at eq
    cases eq

theorem Sources.init (method : CutMethod) (cfg : Config n) : Sources method cfg (methodInit method cfg) [] := by
  obtain ⟨w, ran, start⟩ := methodInit_eq method cfg
  rw [start]
  refine ⟨?_, fun p map here k mem => ?_, fun d eq => ?_, fun k mem => absurd mem Finmap.notMem_empty, nofun⟩
  · show Workload.run cfg.TL (method.counted cfg.toConfig ++ []) = some w
    rw [List.append_nil]
    exact ran
  · -- the first map has the populated keys, the second none
    simp only [FreeScheduler.init, Heap.new, Heap.empty, Function.update_apply] at here
    split at here
    · cases here
      exact absurd mem Finmap.notMem_empty
    · split at here
      · cases here
        exact Or.inl ((Mapping.mem_foldl_mapKey cfg.populated mem).resolve_right Finmap.notMem_empty)
      · cases here
  · have eq : cfg.variant.head.copied = some d := eq
    rw [copied_of_bare (bare_head _)] at eq
    cases eq

/-- In every run of the threads the messages are the submitted ones, and every key has its source. -/
theorem recorded_sources {r : State n × List Label}
    (reachable : (methodSystem method cfg).recorded.Reachable r) :
    r.1.All (· ∈ r.2.filterMap Label.submits) ∧ Sources method cfg r.1 (r.2.filterMap Label.submits) := by
  refine reachable.invariant (P := fun r => r.1.All (· ∈ r.2.filterMap Label.submits) ∧
    Sources method cfg r.1 (r.2.filterMap Label.submits)) ⟨All.init method cfg, Sources.init method cfg⟩ ?_
  rintro ⟨s, ls⟩ l ⟨s', ls'⟩ ⟨messages, sources⟩ step
  obtain ⟨step, rfl⟩ := System.recorded_step step
  have more : ls.filterMap Label.submits ⊆ (ls ++ [l]).filterMap Label.submits := by
    rw [List.filterMap_append]
    exact List.subset_append_left _ _
  have messages' := messages.mono fun m mem => more mem
  have sources' := sources.mono more
  rcases methodStep_move step with ⟨move, -⟩ | ⟨-, -, -, rfl⟩
  · have new : ∀ m, l.submits = some m → m ∈ (ls ++ [l]).filterMap Label.submits := by
      intro m eq
      exact List.mem_filterMap.mpr ⟨l, List.mem_append_right _ (List.mem_singleton_self l), eq⟩
    exact ⟨messages'.move new move, sources'.move messages' move⟩
  · exact ⟨⟨messages'.pushing, messages'.queued, nofun, messages'.graph, messages'.processed⟩,
      ⟨sources'.workload, sources'.maps, sources'.copied, sources'.input, sources'.ordered⟩⟩

/-- The workload model stands for requests only: the counted messages are submitted requests, the
graph counts them and no others, and every key of the graph, of its copies and of the maps is
populated or a request's. -/
structure OnlyRequests (method : CutMethod) (cfg : Config n) (s : State n) (submitted : List ClientMessage) : Prop where
  counted : ∀ m ∈ s.processed, m ∈ submitted ∧ m.IsRequest
  counters : Workload.run cfg.TL (method.counted cfg.toConfig ++ s.processed) = some s.workload
  vertices : ∀ k ∈ s.workload.workloadGraph.vertexWeight, Requested cfg.populated submitted k
  copied : ∀ d, s.graphThread.copied = some d ∨ d = s.inputGraph ∨ d ∈ s.ordered →
    ∀ k ∈ d.verticeToPos, Requested cfg.populated submitted k
  maps : ∀ p map, s.heap.cells p = some map → ∀ k ∈ map, Requested cfg.populated submitted k

theorem onlyRequests_of_noEnd {r : State n × List Label}
    (via : (methodSystem method cfg).recorded.Via (fun r l => FollowsClient Label.submits r.2 l) r)
    (noEnd : ∀ m ∈ r.1.processed, m.type ≠ .END) : OnlyRequests method cfg r.1 (r.2.filterMap Label.submits) := by
  obtain ⟨messages, workload, maps, copied, input, ordered⟩ := recorded_sources via.reachable
  have client : FromClient (r.2.filterMap Label.submits) := via_fromClient via
  have requested {k : Int} (h : Origin cfg.populated (r.2.filterMap Label.submits) r.1.processed k) :=
    h.requested client messages.processed noEnd
  refine ⟨fun m mem => ?_, workload, fun k mem => requested (method.run_origin workload mem), ?_,
    fun p map here k mem => requested (maps p map here k mem)⟩
  · have counted := messages.processed m mem
    exact ⟨counted, (client m counted).resolve_right (noEnd m mem)⟩
  · rintro d (eq | rfl | here) k mem
    · exact requested (copied d eq k mem)
    · exact requested (input k mem)
    · exact requested (ordered d here k mem)

theorem upcoming_init (method : CutMethod) (cfg : Config n) :
    (methodInit method cfg).processed ++ upcoming (methodInit method cfg) = [] := by
  obtain ⟨w, -, start⟩ := methodInit_eq method cfg
  have empty := (StopTheWorld.schedulerQueue_empty (α := ClientMessage) cfg.queueHeadDistance 1).2
  rw [start]
  simp [upcoming, init, empty, FlowControl.Producer.unsent, inHand_of_bare (bare_head cfg.variant)]

/-- Under any method the messages come to the graph thread in the order of the submits. -/
theorem upcoming_step (step : methodStep method cfg s l = some s') :
    s'.processed ++ upcoming s' = s.processed ++ upcoming s ++ l.submits.toList := by
  rcases methodStep_move step with ⟨move, -⟩ | ⟨-, -, ⟨b, rfl⟩, rfl⟩
  · exact move.upcoming
  · exact upcoming_same rfl rfl rfl rfl

/-- The counted messages are the first of those submitted. -/
theorem recorded_upcoming {r : State n × List Label} (reachable : (methodSystem method cfg).recorded.Reachable r) :
    r.1.processed ++ upcoming r.1 = r.2.filterMap Label.submits := by
  refine reachable.invariant (P := fun r => r.1.processed ++ upcoming r.1 = r.2.filterMap Label.submits)
    (upcoming_init method cfg) ?_
  rintro ⟨s, ls⟩ l ⟨s', ls'⟩ lined step
  obtain ⟨step, rfl⟩ := System.recorded_step step
  show s'.processed ++ upcoming s' = (ls ++ [l]).filterMap Label.submits
  rw [List.filterMap_append, ← lined, upcoming_step step]
  cases l <;> rfl

/-- **Where the asynchronous schedulers keep control messages out**: as long as no more messages are counted than
were submitted before END. -/
theorem onlyRequests_iff {r : State n × List Label}
    (via : (methodSystem method cfg).recorded.Via (fun r l => FollowsClient Label.submits r.2 l) r) :
    OnlyRequests method cfg r.1 (r.2.filterMap Label.submits) ↔
      r.1.processed.length ≤ beforeEnd (r.2.filterMap Label.submits) := by
  have inOrder : r.1.processed <+: r.2.filterMap Label.submits := ⟨_, recorded_upcoming via.reachable⟩
  rw [← noEnd_iff inOrder]
  exact ⟨fun only m mem => (only.counted m mem).2.not_end, onlyRequests_of_noEnd via⟩

end FreeScheduler

/-- **Which runs keep control messages out of the workload model**, in every scheduler, for every repartition method
and in every interleaving of the two consumers of the queue: those in which `update_graph_loop` has counted no more
messages than the client has submitted before END. So no run whose graph thread has come to the end of the queue does. -/
theorem control_messages (n : Nat) (method : CutMethod) :
    (∀ (cfg : StopTheWorld.Config n) s ls,
      (StopTheWorld.methodSystem method cfg).recorded.Via
        (fun r l => FollowsClient StopTheWorld.Label.submits r.2 l) (s, ls) →
      (StopTheWorld.OnlyRequests method cfg s (ls.filterMap StopTheWorld.Label.submits) ↔
        s.processed.length ≤ beforeEnd (ls.filterMap StopTheWorld.Label.submits)) ∧
      ∀ m ∈ ls.filterMap StopTheWorld.Label.submits, m.type = .END →
        s.processed.length = (ls.filterMap StopTheWorld.Label.submits).length →
          ¬StopTheWorld.OnlyRequests method cfg s (ls.filterMap StopTheWorld.Label.submits)) ∧
    (∀ (cfg : FreeScheduler.Config n) s ls,
      (FreeScheduler.methodSystem method cfg).recorded.Via
        (fun r l => FollowsClient FreeScheduler.Label.submits r.2 l) (s, ls) →
      (FreeScheduler.OnlyRequests method cfg s (ls.filterMap FreeScheduler.Label.submits) ↔
        s.processed.length ≤ beforeEnd (ls.filterMap FreeScheduler.Label.submits)) ∧
      ∀ m ∈ ls.filterMap FreeScheduler.Label.submits, m.type = .END →
        s.processed.length = (ls.filterMap FreeScheduler.Label.submits).length →
          ¬FreeScheduler.OnlyRequests method cfg s (ls.filterMap FreeScheduler.Label.submits)) := by
  refine ⟨fun cfg s ls via => ?_, fun cfg s ls via => ?_⟩
  · have exact_ := StopTheWorld.onlyRequests_iff via
    refine ⟨exact_, fun m mem type all only => ?_⟩
    have few : s.processed.length ≤ _ := exact_.mp only
    exact Nat.not_le_of_lt (beforeEnd_lt mem type) (all ▸ few)
  · have exact_ := FreeScheduler.onlyRequests_iff via
    refine ⟨exact_, fun m mem type all only => ?_⟩
    have few : s.processed.length ≤ _ := exact_.mp only
    exact Nat.not_le_of_lt (beforeEnd_lt mem type) (all ▸ few)

/-- Two populated keys and no limit to the graph's memory. -/
def clientConfig : StopTheWorld.Config 2 where
  positive := Nat.two_pos
  TL := 0
  queueHeadDistance := 2
  interval := .chosen
  populated := [0, 1]

/-- A message is submitted. -/
def submitOne (message : ClientMessage) : List StopTheWorld.Label := [.submit message, .produce, .produce, .produce]

/-- The first message, up to the graph thread's `update_graph`. -/
def firstMessage (message : ClientMessage) : List StopTheWorld.Label :=
  submitOne message ++ List.replicate 5 .graph

/-- A WRITE and END are submitted: nothing that is not requested gets in with the WRITE, and END does. -/
theorem control_messages_write : ∃ s s', ∃ ls ls' : List StopTheWorld.Label,
    s.processed = [{ type := .WRITE, key := 5 }] ∧ { type := .END, key := 77 } ∈ ls.filterMap StopTheWorld.Label.submits ∧
    StopTheWorld.OnlyRequests .METIS clientConfig s (ls.filterMap StopTheWorld.Label.submits) ∧
    s'.processed = [{ type := .WRITE, key := 5 }, { type := .END, key := 77 }] ∧
    ¬StopTheWorld.OnlyRequests .METIS clientConfig s' (ls'.filterMap StopTheWorld.Label.submits) := by
  obtain ⟨⟨s, ls⟩, via, counted, submitted⟩ := System.exists_via
    (M := (StopTheWorld.methodSystem .METIS clientConfig).recorded)
    (fun r l => FollowsClient StopTheWorld.Label.submits r.2 l)
    (P := fun r => r.1.processed = [{ type := .WRITE, key := 5 }] ∧
      r.2.filterMap StopTheWorld.Label.submits = [{ type := .WRITE, key := 5 }, { type := .END, key := 77 }])
    (submitOne { type := .WRITE, key := 5 } ++ submitOne { type := .END, key := 77 } ++ List.replicate 6 .graph)
    (by decide)
  obtain ⟨⟨s', ls'⟩, via', counted', submitted'⟩ := System.exists_via
    (M := (StopTheWorld.methodSystem .METIS clientConfig).recorded)
    (fun r l => FollowsClient StopTheWorld.Label.submits r.2 l)
    (P := fun r => r.1.processed = [{ type := .WRITE, key := 5 }, { type := .END, key := 77 }] ∧
      r.2.filterMap StopTheWorld.Label.submits = [{ type := .WRITE, key := 5 }, { type := .END, key := 77 }])
    (submitOne { type := .WRITE, key := 5 } ++ submitOne { type := .END, key := 77 } ++
      List.replicate 7 (.schedule false) ++ List.replicate 13 .graph) (by decide)
  simp only at counted counted' submitted submitted'
  have holds := ((control_messages 2 .METIS).1 clientConfig s ls via).1
  have fails := ((control_messages 2 .METIS).1 clientConfig s' ls' via').2
  rw [submitted, counted] at holds
  rw [submitted', counted'] at fails
  refine ⟨s, s', ls, ls', counted, ?_, ?_, counted', ?_⟩
  · rw [submitted]
    exact List.mem_of_getLast? rfl
  · rw [submitted]
    exact holds.mpr (by decide)
  · rw [submitted']
    exact fails { type := .END, key := 77 } (List.mem_of_getLast? rfl) rfl rfl

/-- END holds 77 in its key, and 77 becomes a vertex: in `Scheduler`, and in the asynchronous schedulers. -/
theorem end_counted :
    (∃ s, ∃ ls : List StopTheWorld.Label, (StopTheWorld.methodSystem .METIS clientConfig).recorded.Via
        (fun r l => FollowsClient StopTheWorld.Label.submits r.2 l) (s, ls) ∧
      77 ∈ s.workload.workloadGraph.vertexWeight ∧
      ¬ Requested clientConfig.populated (ls.filterMap StopTheWorld.Label.submits) 77) ∧
    ∀ variant, ∃ s, ∃ ls : List FreeScheduler.Label,
      (FreeScheduler.methodSystem .METIS { clientConfig with variant := variant }).recorded.Via
        (fun r l => FollowsClient FreeScheduler.Label.submits r.2 l) (s, ls) ∧
      77 ∈ s.workload.workloadGraph.vertexWeight ∧
      ¬ Requested clientConfig.populated (ls.filterMap FreeScheduler.Label.submits) 77 := by
  refine ⟨?_, fun variant => ?_⟩
  · obtain ⟨⟨s, ls⟩, via, counted, new⟩ := System.exists_via
      (M := (StopTheWorld.methodSystem .METIS clientConfig).recorded)
      (fun r l => FollowsClient StopTheWorld.Label.submits r.2 l)
      (P := fun r => 77 ∈ r.1.workload.workloadGraph.vertexWeight ∧
        ¬ Requested clientConfig.populated (r.2.filterMap StopTheWorld.Label.submits) 77)
      (firstMessage { type := .END, key := 77 } ++ [.graph]) (by decide)
    exact ⟨s, ls, via, counted, new⟩
  · obtain ⟨⟨s, ls⟩, via, counted, new⟩ := System.exists_via
      (M := (FreeScheduler.methodSystem .METIS { clientConfig with variant := variant }).recorded)
      (fun r l => FollowsClient FreeScheduler.Label.submits r.2 l)
      (P := fun r => 77 ∈ r.1.workload.workloadGraph.vertexWeight ∧
        ¬ Requested clientConfig.populated (r.2.filterMap FreeScheduler.Label.submits) 77)
      ([.submit { type := .END, key := 77 }, .produce, .produce, .produce] ++
        List.replicate (if variant = .asyncImb then 6 else 5) (.graph true))
      (by cases variant <;> decide)
    exact ⟨s, ls, via, counted, new⟩

end KvPaxos
