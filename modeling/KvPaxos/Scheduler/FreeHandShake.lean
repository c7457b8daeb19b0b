import KvPaxos.Lib.Rounds
import KvPaxos.Scheduler.FreePlaces

/-!
# The hand-shake of the asynchronous repartition

The three threads pass one token round: a raised `repartition_`, the graph thread on its way
to `sem_post`, the post, the partitioning thread, a raised `update_`, and the scheduling
thread between its two stores. `Related` reads the stage of the abstract `Rounds` off who
holds the token, and `simulation` shows that every step passes it on or leaves it alone,
so the orders, the maps made and the maps installed are those of a run of `Rounds`.
-/

namespace KvPaxos

open Lib UnorderedMap

namespace FreeScheduler

variable {n : Nat} {cfg : Config n} {s s' : State n} {l : Label}

/-! ### Who holds the token -/

/-- The graph thread is going to post. -/
def GraphThread.holds (v : Variant) : GraphThread → Bool
  | .sizing => v.sizesLast
  | .copying | .assigning _ | .posting => true
  | _ => false

/-- The partitioning thread has taken the post and not finished `partitioning`. -/
def Partitioner.works : Partitioner → Bool
  | .deleting | .freeing _ | .partitioning => true
  | _ => false

/-- The partitioning thread has a new map and has not raised `update_`. -/
def Partitioner.delivers : Partitioner → Bool
  | .storing _ | .raisingUpdate => true
  | _ => false

def Partitioner.busy (p : Partitioner) : Bool := p.works || p.delivers

/-- The scheduling thread has swapped the maps and not lowered `update_`. -/
def Scheduling.installed : Scheduling → Bool
  | .restoring _ | .syncing | .loweringUpdate => true
  | _ => false

/-- It has lowered `update_`, and not `repartitioning_`. -/
def Scheduling.settles : Scheduling → Bool
  | .resetting | .loweringRepartitioning => true
  | _ => false

/-- It has raised `repartition_`, and not `repartitioning_`. -/
def Scheduling.announces : Scheduling → Bool
  | .raisingRepartitioning => true
  | _ => false

/-- Who holds the token, and whether the round is under way. -/
structure Tokens where
  asked : Bool := false
  claimed : Bool := false
  posted : Nat := 0
  working : Bool := false
  produced : Bool := false
  announced : Bool := false
  installed : Bool := false
  settling : Bool := false
  busy : Bool := true

def State.tokens (v : Variant) (s : State n) : Tokens where
  asked := s.repartition
  claimed := s.graphThread.holds v
  posted := s.repartSemaphore
  working := s.partitioner.works
  produced := s.partitioner.delivers
  announced := s.update
  installed := s.scheduling.installed
  settling := s.scheduling.settles
  busy := s.repartitioning || s.scheduling.announces

/-- The one holder at each stage. -/
def stageTokens : Stage → Tokens
  | .idle => { busy := false }
  | .asked => { asked := true }
  | .claimed => { claimed := true }
  | .posted => { posted := 1 }
  | .working => { working := true }
  | .produced => { produced := true }
  | .announced => { announced := true }
  | .installed => { announced := true, installed := true }
  | .withdrawn => { settling := true }

/-- The map a result stands for: on its way to `updated_data_to_partition_`, or there. -/
def State.product (s : State n) : Nat :=
  match s.partitioner with
  | .storing temp => temp
  | _ => s.updatedDataToPartition

theorem holds_head (v : Variant) : v.head.holds v = false := by cases v <;> rfl

theorem holds_observed (v : Variant) : v.observed.holds v = false := by cases v <;> rfl

theorem holds_unclaimed (v : Variant) : v.unclaimed.holds v = false := by cases v <;> rfl

theorem holds_achieved {v : Variant} (other : v ≠ .async) : v.achieved.holds v = false := by
  cases v <;> first | rfl | exact absurd rfl other

theorem holds_sized (v : Variant) : v.sized.holds v = v.sizesLast := by cases v <;> rfl

theorem holds_raised (v : Variant) : v.raised.holds v = true := by cases v <;> rfl

theorem holds_done (v : Variant) : v.done.holds v = false := by cases v <;> rfl

/-! ### The token goes round -/

/-- The stage of the round and its history, as the threads' places and the flags have them. -/
structure Related (cfg : Config n) (s : State n) (t : Rounds InputGraph Nat) : Prop where
  tokens : s.tokens cfg.variant = stageTokens t.stage
  ordered : t.ordered = s.ordered
  produced : t.produced = s.produced
  installed : t.installed = s.installed
  order : t.stage.inWork = 1 → t.ordered.getLast? = some s.inputGraph
  result : t.stage.inHand = 1 → t.result? = some s.product

namespace Related

variable {t : Rounds InputGraph Nat}

/-! The holder tells the stage. -/

theorem asked (h : Related cfg s t) (up : s.repartition = true) : t.stage = .asked := by
  have token : s.repartition = (stageTokens t.stage).asked := congrArg Tokens.asked h.tokens
  cases stage : t.stage <;> rw [up, stage] at token <;> first | rfl | cases token

theorem claimed (h : Related cfg s t) (holds : s.graphThread.holds cfg.variant = true) : t.stage = .claimed := by
  have token : s.graphThread.holds cfg.variant = (stageTokens t.stage).claimed := congrArg Tokens.claimed h.tokens
  cases stage : t.stage <;> rw [holds, stage] at token <;> first | rfl | cases token

theorem posted (h : Related cfg s t) (pos : 0 < s.repartSemaphore) : t.stage = .posted := by
  have token : s.repartSemaphore = (stageTokens t.stage).posted := congrArg Tokens.posted h.tokens
  cases stage : t.stage <;> rw [token, stage] at pos <;> first | rfl | cases pos

theorem working (h : Related cfg s t) (works : s.partitioner.works = true) : t.stage = .working := by
  have token : s.partitioner.works = (stageTokens t.stage).working := congrArg Tokens.working h.tokens
  cases stage : t.stage <;> rw [works, stage] at token <;> first | rfl | cases token

theorem delivering (h : Related cfg s t) (delivers : s.partitioner.delivers = true) : t.stage = .produced := by
  have token : s.partitioner.delivers = (stageTokens t.stage).produced := congrArg Tokens.produced h.tokens
  cases stage : t.stage <;> rw [delivers, stage] at token <;> first | rfl | cases token

theorem announced (h : Related cfg s t) (up : s.update = true) (before : s.scheduling.installed = false) :
    t.stage = .announced := by
  have token : s.update = (stageTokens t.stage).announced := congrArg Tokens.announced h.tokens
  have later : s.scheduling.installed = (stageTokens t.stage).installed := congrArg Tokens.installed h.tokens
  cases stage : t.stage <;> rw [up, stage] at token <;> rw [before, stage] at later <;>
    first | rfl | cases token; done | cases later

theorem swapped (h : Related cfg s t) (installed : s.scheduling.installed = true) : t.stage = .installed := by
  have token : s.scheduling.installed = (stageTokens t.stage).installed := congrArg Tokens.installed h.tokens
  cases stage : t.stage <;> rw [installed, stage] at token <;> first | rfl | cases token

theorem settling (h : Related cfg s t) (settles : s.scheduling.settles = true) : t.stage = .withdrawn := by
  have token : s.scheduling.settles = (stageTokens t.stage).settling := congrArg Tokens.settling h.tokens
  cases stage : t.stage <;> rw [settles, stage] at token <;> first | rfl | cases token

theorem idle (h : Related cfg s t) (free : s.repartitioning = false) (quiet : s.scheduling.announces = false) :
    t.stage = .idle := by
  have token : (s.repartitioning || s.scheduling.announces) = (stageTokens t.stage).busy :=
    congrArg Tokens.busy h.tokens
  cases stage : t.stage <;> rw [free, quiet, stage] at token <;> first | rfl | cases token

/-- A step that leaves the token where it is. -/
theorem stutter (h : Related cfg s t) (tokens : s'.tokens cfg.variant = s.tokens cfg.variant)
    (ordered : s'.ordered = s.ordered) (produced : s'.produced = s.produced)
    (installed : s'.installed = s.installed) (inputGraph : s'.inputGraph = s.inputGraph)
    (product : s'.product = s.product) : Related cfg s' t where
  tokens := tokens.trans h.tokens
  ordered := h.ordered.trans ordered.symm
  produced := h.produced.trans produced.symm
  installed := h.installed.trans installed.symm
  order := by
    rw [inputGraph]
    exact h.order
  result := by
    rw [product]
    exact h.result

/-- A step that passes the token on and makes no history. -/
theorem pass (h : Related cfg s t) {next : Stage} (tokens : s'.tokens cfg.variant = stageTokens next)
    (ordered : s'.ordered = s.ordered) (produced : s'.produced = s.produced)
    (installed : s'.installed = s.installed) (inputGraph : s'.inputGraph = s.inputGraph)
    (product : s'.product = s.product) (inWork : next.inWork = 1 → t.stage.inWork = 1)
    (inHand : next.inHand = 1 → t.stage.inHand = 1) : Related cfg s' { t with stage := next } where
  tokens := tokens
  ordered := h.ordered.trans ordered.symm
  produced := h.produced.trans produced.symm
  installed := h.installed.trans installed.symm
  order now := by
    rw [inputGraph]
    exact h.order (inWork now)
  result now := by
    rw [product]
    exact h.result (inHand now)

/-- Off its stages the partitioning thread is at `sem_wait`. -/
theorem waiting (h : Related cfg s t) (working : (stageTokens t.stage).working = false)
    (produced : (stageTokens t.stage).produced = false) : s.partitioner = .waiting := by
  rw [← h.tokens] at working produced
  simp only [State.tokens] at working produced
  cases place : s.partitioner with
  | waiting => rfl
  | deleting | freeing | partitioning =>
    rw [place] at working
    cases working
  | storing | raisingUpdate =>
    rw [place] at produced
    cases produced

end Related

section Move

variable {t : Rounds InputGraph Nat}

/-- The scheduling thread's steps pass the token on or leave it. -/
theorem related_schedule (h : Related cfg s t) (places : Places cfg s) {b : Bool} (move : Move cfg s (.schedule b) s') :
    Related cfg s' t ∨ ∃ e t', t.step e = some t' ∧ Related cfg s' t' := by
  have tested := places.scheduling
  cases move with
  | item0 place | ahead0 place | pop0 place | release0 place | finish place | dispatch place | findFree place
  | findBusy place | skip place | start place | noUpdate place | seeUpdate place | save place | sync place | reset place
  | restart place =>
    refine .inl (h.stutter ?_ rfl rfl rfl rfl rfl)
    unfold State.tokens
    rw [place]
    rfl
  | count place =>
    refine .inl (h.stutter ?_ rfl rfl rfl rfl rfl)
    unfold State.tokens
    rw [place]
    cases cfg.variant <;> rfl
  | ask place =>
    rw [place] at tested
    have stage := h.idle tested.2 (by rw [place]; rfl)
    refine .inr ⟨.ask, _, if_pos stage, h.pass ?_ rfl rfl rfl rfl rfl nofun nofun⟩
    calc State.tokens cfg.variant _
      _ = { s.tokens cfg.variant with asked := true, busy := true } := by
        simp only [State.tokens, place, tested.2]
        rfl
      _ = stageTokens .asked := by
        rw [h.tokens, stage]
        rfl
  | raise place =>
    refine .inl (h.stutter ?_ rfl rfl rfl rfl rfl)
    simp only [State.tokens, place, Bool.true_or, Scheduling.announces, Bool.or_true]
    rfl
  | swap place =>
    rw [place] at tested
    have stage := h.announced tested (by rw [place]; rfl)
    have waiting : s.partitioner = .waiting := h.waiting (by rw [stage]; rfl) (by rw [stage]; rfl)
    have product : s.product = s.updatedDataToPartition := by rw [State.product, waiting]
    refine .inr ⟨.install, { t with stage := .installed, installed := t.installed ++ [s.updatedDataToPartition] }, ?_, ?_⟩
    · have result := h.result (by rw [stage]; rfl)
      rw [Rounds.step, if_pos stage, result, product, Option.map_some]
    · refine ⟨?_, h.ordered, h.produced, congrArg (· ++ _) h.installed, nofun, nofun⟩
      calc State.tokens cfg.variant _
        _ = { s.tokens cfg.variant with installed := true } := by
          simp only [State.tokens, place]
          rfl
        _ = stageTokens .installed := by
          rw [h.tokens, stage]
          rfl
  | restore place =>
    have stage := h.swapped (by rw [place]; rfl)
    refine .inl ⟨?_, h.ordered, h.produced, h.installed, h.order, fun now => ?_⟩
    · rw [← h.tokens]
      unfold State.tokens
      rw [place]
      rfl
    · rw [stage] at now
      cases now
  | lowerUpdate place =>
    have stage := h.swapped (by rw [place]; rfl)
    refine .inr ⟨.withdraw, _, if_pos stage, h.pass ?_ rfl rfl rfl rfl rfl nofun nofun⟩
    calc State.tokens cfg.variant _
      _ = { s.tokens cfg.variant with announced := false, installed := false, settling := true } := by
        simp only [State.tokens, place]
        cases cfg.variant <;> rfl
      _ = stageTokens .withdrawn := by
        rw [h.tokens, stage]
        rfl
  | settle place =>
    have stage := h.settling (by rw [place]; rfl)
    refine .inr ⟨.settle, _, if_pos stage, h.pass ?_ rfl rfl rfl rfl rfl nofun nofun⟩
    calc State.tokens cfg.variant _
      _ = { s.tokens cfg.variant with settling := false, busy := false } := by
        simp only [State.tokens, place]
        cases cfg.variant <;> rfl
      _ = stageTokens .idle := by
        rw [h.tokens, stage]
        rfl

/-- The graph thread's steps pass the token on or leave it. -/
theorem related_graph (h : Related cfg s t) (places : Places cfg s) (requests : Requests cfg s) {b : Bool}
    (move : Move cfg s (.graph b) s') :
    Related cfg s' t ∨ ∃ e t', t.step e = some t' ∧ Related cfg s' t' := by
  have tested := places.graph
  cases move with
  | tally place | item1 place | ahead1 place | pop1 place | release1 place | balanced place | imbalanced place
  | noRequest place | seeRequest place | copy place | graphRestart place =>
    refine .inl (h.stutter ?_ rfl rfl rfl rfl rfl)
    unfold State.tokens
    rw [place]
    rfl
  | observe place | graphBusy place | graphFree place | graphSkip place =>
    refine .inl (h.stutter ?_ rfl rfl rfl rfl rfl)
    simp only [State.tokens, place, holds_observed, holds_head, holds_unclaimed]
    rfl
  | graphStart place =>
    rw [place] at tested
    refine .inl (h.stutter ?_ rfl rfl rfl rfl rfl)
    simp only [State.tokens, place, holds_achieved tested.1]
    rfl
  | sized place =>
    refine .inl (h.stutter ?_ rfl rfl rfl rfl rfl)
    simp only [State.tokens, place, holds_sized]
    rfl
  | empty place none =>
    have some := requests.sighted (by rw [place]; rfl)
    omega
  | lowerRequest place =>
    rw [place] at tested
    have stage := h.asked tested.2
    refine .inr ⟨.claim, _, if_pos (Or.inr stage), h.pass ?_ rfl rfl rfl rfl rfl nofun nofun⟩
    calc State.tokens cfg.variant _
      _ = { s.tokens cfg.variant with asked := false, claimed := true } := by
        simp only [State.tokens, tested.1]
        rfl
      _ = stageTokens .claimed := by
        rw [h.tokens, stage]
        rfl
  | graphRaise place =>
    rw [place] at tested
    have quiet : s.scheduling.announces = false := by
      cases scheduling : s.scheduling with
      | raisingRepartitioning =>
        have async := places.scheduling
        rw [scheduling] at async
        exact absurd async tested.1
      | _ => rfl
    have stage := h.idle tested.2 quiet
    refine .inr ⟨.claim, _, if_pos (Or.inl stage), h.pass ?_ rfl rfl rfl rfl rfl nofun nofun⟩
    calc State.tokens cfg.variant _
      _ = { s.tokens cfg.variant with claimed := true, busy := true } := by
        simp only [State.tokens, holds_raised, Bool.true_or]
      _ = stageTokens .claimed := by
        rw [h.tokens, stage]
        rfl
  | assign place =>
    have stage := h.claimed (by rw [place]; rfl)
    refine .inl ⟨?_, h.ordered, h.produced, h.installed, fun now => ?_, h.result⟩
    · rw [← h.tokens]
      unfold State.tokens
      rw [place]
      rfl
    · rw [stage] at now
      cases now
  | post place =>
    have stage := h.claimed (by rw [place]; rfl)
    refine .inr ⟨.order s.inputGraph, _, if_pos stage, ?_, congrArg (· ++ _) h.ordered, h.produced, h.installed,
      fun _ => List.getLast?_concat, nofun⟩
    calc State.tokens cfg.variant _
      _ = { s.tokens cfg.variant with claimed := false, posted := (s.tokens cfg.variant).posted + 1 } := by
        simp only [State.tokens, holds_done]
      _ = stageTokens .posted := by
        rw [h.tokens, stage]
        rfl

/-- The partitioning thread's steps pass the token on or leave it. -/
theorem related_partition (h : Related cfg s t) (move : Move cfg s .partition s') :
    Related cfg s' t ∨ ∃ e t', t.step e = some t' ∧ Related cfg s' t' := by
  cases move with
  | take place posted =>
    have stage := h.posted posted
    refine .inr ⟨.take, _, if_pos stage, h.pass ?_ rfl rfl rfl rfl ?_ (fun _ => by rw [stage]; rfl) nofun⟩
    · calc State.tokens cfg.variant _
        _ = { s.tokens cfg.variant with posted := (s.tokens cfg.variant).posted - 1, working := true } := by
          simp only [State.tokens, place]
          rfl
        _ = stageTokens .working := by
          rw [h.tokens, stage]
          rfl
    · rw [State.product, State.product, place]
  | aim place | free place =>
    refine .inl (h.stutter ?_ rfl rfl rfl rfl ?_)
    · unfold State.tokens
      rw [place]
      rfl
    · rw [State.product, State.product, place]
  | store place =>
    refine .inl (h.stutter ?_ rfl rfl rfl rfl ?_)
    · unfold State.tokens
      rw [place]
      rfl
    · rw [State.product, State.product, place]
  | raiseUpdate place =>
    have stage := h.delivering (by rw [place]; rfl)
    refine .inr ⟨.announce, _, if_pos stage, h.pass ?_ rfl rfl rfl rfl ?_ nofun (fun _ => by rw [stage]; rfl)⟩
    · calc State.tokens cfg.variant _
        _ = { s.tokens cfg.variant with produced := false, announced := true } := by
          simp only [State.tokens, place]
          rfl
        _ = stageTokens .announced := by
          rw [h.tokens, stage]
          rfl
    · rw [State.product, State.product, place]

/-- The end of `partitioning` answers the order it was made for. -/
theorem related_cut (h : Related cfg s t) {scheme : List Int} (move : Move cfg s (.cut scheme) s') :
    Related cfg s' t ∨ ∃ e t', t.step e = some t' ∧ Related cfg s' t' := by
  cases move with
  | cut place =>
    have stage := h.working (by rw [place]; rfl)
    have order := h.order (by rw [stage]; rfl)
    refine .inr ⟨.produce s.heap.next,
      { t with stage := .produced, produced := t.produced ++ [(s.inputGraph, s.heap.next)] }, ?_, ?_⟩
    · rw [Rounds.step, if_pos stage, order, Option.map_some]
    · refine ⟨?_, h.ordered, congrArg (· ++ _) h.produced, h.installed, nofun, fun _ => ?_⟩
      · calc State.tokens cfg.variant _
          _ = { s.tokens cfg.variant with working := false, produced := true } := by
            simp only [State.tokens, place]
            rfl
          _ = stageTokens .produced := by
            rw [h.tokens, stage]
            rfl
      · rw [Rounds.result?, List.getLast?_concat]
        rfl

end Move

theorem related_init (cfg : Config n) : Related cfg (init cfg) {} where
  tokens := by
    simp only [State.tokens, init, holds_head]
    rfl
  ordered := rfl
  produced := rfl
  installed := rfl
  order := nofun
  result := nofun

/-- **The asynchronous hand-shake is `Rounds`**: every step of a thread is one event of it, or none. -/
theorem simulation (cfg : Config n) :
    System.Simulation (system cfg) (Rounds.system InputGraph Nat) (fun _ l => l.Sized) (Related cfg) where
  init := related_init cfg
  step s l s' t via related _ step := by
    have move := step_move step
    cases l with
    | submit | produce =>
      cases move <;> exact .inl ⟨related.tokens, related.ordered, related.produced, related.installed, related.order, related.result⟩
    | schedule choice => exact related_schedule related (via_places via) move
    | graph choice => exact related_graph related (via_places via) (via_requests via) move
    | partition => exact related_partition related move
    | cut scheme => exact related_cut related move

/-- A guarded run of the threads has the history of a run of `Rounds`. -/
theorem exists_rounds (via : (system cfg).Via (fun _ l => l.Sized) s) :
    ∃ t : Rounds InputGraph Nat, t.Balanced ∧ Related cfg s t := by
  obtain ⟨t, reachable, related⟩ := (simulation cfg).exists_related via
  exact ⟨t, Rounds.reachable_balanced reachable, related⟩

/-! ### The two maps -/

/-- The map that is not `data_to_partition_`, as the scheduling thread has it. -/
def Scheduling.spare (updated : Nat) : Scheduling → Nat
  | .restoring temp => temp
  | _ => updated

/-- The same, if it lives, as the partitioning thread has it. -/
def Partitioner.spare (other : Nat) : Partitioner → Option Nat
  | .freeing pointer => some pointer
  | .partitioning => none
  | .storing temp => some temp
  | _ => some other

def State.spare (s : State n) : Option Nat :=
  s.partitioner.spare (s.scheduling.spare s.updatedDataToPartition)

/-- The two maps live and are two. -/
structure Pointers (s : State n) : Prop where
  live : s.heap.Live s.dataToPartition
  spare : ∀ p, s.spare = some p → s.heap.Live p ∧ p ≠ s.dataToPartition
  saved : ∀ temp, s.scheduling = .swapping temp → temp = s.dataToPartition
  made : ∀ p ∈ s.produced.map Prod.snd, p < s.heap.next
  once : (s.produced.map Prod.snd).Nodup

theorem pointers_init (cfg : Config n) : Pointers (init cfg) where
  live := Heap.live_new_self.new
  spare p eq := by
    have eq : some 1 = some p := by
      rw [← eq]
      rfl
    cases eq
    exact ⟨Heap.live_new_self, Nat.one_ne_zero⟩
  saved := nofun
  made := nofun
  once := List.nodup_nil

/-- A step that leaves the maps and the pointers. -/
theorem Pointers.frame (h : Pointers s) (heap : s'.heap = s.heap) (data : s'.dataToPartition = s.dataToPartition)
    (spare : s'.spare = s.spare) (saved : ∀ temp, s'.scheduling = .swapping temp → temp = s'.dataToPartition)
    (produced : s'.produced = s.produced) : Pointers s' where
  live := by
    rw [heap, data]
    exact h.live
  spare := by
    rw [spare, heap, data]
    exact h.spare
  saved := saved
  made := by
    rw [produced, heap]
    exact h.made
  once := by
    rw [produced]
    exact h.once

theorem pointers_move {t : Rounds InputGraph Nat} (related : Related cfg s t) (places : Places cfg s)
    (h : Pointers s) (move : Move cfg s l s') : Pointers s' := by
  -- between swaps the scheduling thread finds the map behind `updated_data_to_partition_`
  have settled : (stageTokens t.stage).installed = false → ∀ p, s.scheduling.spare p = p := by
    intro installed p
    rw [← related.tokens] at installed
    simp only [State.tokens] at installed
    cases place : s.scheduling with
    | restoring temp =>
      rw [place] at installed
      cases installed
    | _ => rfl
  cases move with
  | submit | push | notify0 | notify1 | tally | item1 | ahead1 | pop1 | release1 | observe | graphBusy | graphFree
  | graphSkip | graphStart | balanced | imbalanced | noRequest | seeRequest | lowerRequest | empty | sized | graphRaise
  | copy | assign | post | graphRestart => exact h.frame rfl rfl rfl h.saved rfl
  | item0 place | ahead0 place | pop0 place | release0 place | finish place | findFree place
  | findBusy place | skip place | start place | ask place | raise place | noUpdate place | seeUpdate place | sync place
  | reset place | restart place =>
    refine h.frame rfl rfl ?_ nofun rfl
    unfold State.spare
    rw [place]
    rfl
  | count place | lowerUpdate place | settle place =>
    refine h.frame rfl rfl ?_ ?_ rfl
    · unfold State.spare
      rw [place]
      cases cfg.variant <;> rfl
    · cases cfg.variant <;> exact nofun
  | save place =>
    refine h.frame rfl rfl ?_ (fun temp eq => (by cases eq; rfl)) rfl
    unfold State.spare
    rw [place]
    rfl
  | dispatch place =>
    refine ⟨h.live.write, fun p eq => ?_, nofun, h.made, h.once⟩
    have eq : s.spare = some p := by
      rw [← eq, State.spare, State.spare, place]
      rfl
    obtain ⟨live, ne⟩ := h.spare p eq
    exact ⟨live.write, ne⟩
  | swap place =>
    have tested := places.scheduling
    rw [place] at tested
    have stage := related.announced tested (by rw [place]; rfl)
    have waiting := related.waiting (by rw [stage]; rfl) (by rw [stage]; rfl)
    obtain ⟨live, ne⟩ := h.spare s.updatedDataToPartition (by rw [State.spare, waiting, place]; rfl)
    refine ⟨live, fun p eq => ?_, nofun, h.made, h.once⟩
    have eq : s.dataToPartition = p := by
      rw [State.spare, waiting] at eq
      rw [← h.saved _ place]
      exact Option.some.inj eq
    subst eq
    exact ⟨h.live, ne.symm⟩
  | restore place =>
    have stage := related.swapped (by rw [place]; rfl)
    have waiting := related.waiting (by rw [stage]; rfl) (by rw [stage]; rfl)
    refine h.frame rfl rfl ?_ nofun rfl
    rw [State.spare, State.spare, waiting, place]
    rfl
  | take place =>
    refine h.frame rfl rfl ?_ h.saved rfl
    rw [State.spare, State.spare, place]
    rfl
  | aim place =>
    refine h.frame rfl rfl ?_ h.saved rfl
    have stage := related.working (by rw [place]; rfl)
    rw [State.spare, State.spare, place, settled (by rw [stage]; rfl)]
    rfl
  | free place =>
    obtain ⟨-, ne⟩ := h.spare _ (by rw [State.spare, place]; rfl)
    exact ⟨h.live.delete ne.symm, nofun, h.saved, h.made, h.once⟩
  | cut place =>
    refine ⟨h.live.new, fun p eq => ?_, h.saved, fun p mem => ?_, ?_⟩
    · cases eq
      exact ⟨Heap.live_new_self, fun eq => Nat.ne_of_lt h.live.lt eq.symm⟩
    · rw [List.map_append, List.mem_append] at mem
      rcases mem with old | new
      · exact Nat.lt_succ_of_lt (h.made p old)
      · rw [List.mem_singleton.mp new]
        exact Nat.lt_succ_self _
    · rw [List.map_append]
      refine List.nodup_append.mpr ⟨h.once, List.nodup_singleton _, fun p old q new eq => ?_⟩
      have lt := h.made p old
      rw [eq, List.mem_singleton.mp new] at lt
      exact Nat.lt_irrefl _ lt
  | store place =>
    refine h.frame rfl rfl ?_ h.saved rfl
    have stage := related.delivering (by rw [place]; rfl)
    rw [State.spare, State.spare, place, settled (by rw [stage]; rfl)]
    rfl
  | raiseUpdate place =>
    refine h.frame rfl rfl ?_ h.saved rfl
    rw [State.spare, State.spare, place]
    rfl

theorem via_pointers (via : (system cfg).Via (fun _ l => l.Sized) s) : Pointers s := by
  apply via.invariant (P := Pointers)
  · exact pointers_init cfg
  · intro s l s' via pointers _ step
    obtain ⟨t, -, related⟩ := exists_rounds via
    exact pointers_move related (via_places via) pointers (step_move step)

/-! ### The hand-shake -/

/-- How many threads, flags and posts hold a round: a raised `repartition_`, the graph thread from
there, or from raising `repartitioning_`, to `sem_post`, the posts, the partitioning thread from
`sem_wait` to raising `update_`, a raised `update_`, and the scheduling thread from lowering it to
lowering `repartitioning_`. -/
def State.pending (v : Variant) (s : State n) : Nat :=
  s.repartition.toNat + (s.graphThread.holds v).toNat + s.repartSemaphore +
    s.partitioner.busy.toNat + s.update.toNat + s.scheduling.settles.toNat

/-- What the hand-shake promises: at most one post; no write of `input_graph_`, not even of the same value, from
the post to the end of `partitioning`; no swap while the partitioning thread has the spare map; the map it
deletes is not the live one; orders, maps and installs in order and each once; and one token as long as
`repartitioning_` is up, or about to be raised after `repartition_`. -/
structure HandShake (cfg : Config n) (s : State n) : Prop where
  semaphore : s.repartSemaphore ≤ 1
  unwritten : 0 < s.repartSemaphore ∨ s.partitioner.works = true → ∀ inputGraph, s.graphThread ≠ .assigning inputGraph
  input : 0 < s.repartSemaphore ∨ s.partitioner.works = true →
    ∀ l s', step cfg s l = some s' → s'.inputGraph = s.inputGraph
  swap : s.partitioner.busy = true → ∀ choice s', schedule cfg s choice = some s' →
    s'.dataToPartition = s.dataToPartition ∧ s'.updatedDataToPartition = s.updatedDataToPartition
  delete : ∀ p, s.partitioner = .freeing p → s.heap.Live p ∧ p ≠ s.dataToPartition
  live : s.heap.Live s.dataToPartition
  answers : s.produced.map Prod.fst <+: s.ordered
  installs : s.installed <+: s.produced.map Prod.snd
  once : s.installed.Nodup
  counts : s.installed.length ≤ s.produced.length ∧ s.produced.length ≤ s.ordered.length ∧
    s.ordered.length ≤ s.installed.length + 1
  oneToken : s.repartitioning = true ∨ s.scheduling.announces = true → s.pending cfg.variant = 1
  noToken : s.repartitioning = false → s.scheduling.announces = false → s.pending cfg.variant = 0

/-- The one holder counts for one. -/
theorem Related.pending {t : Rounds InputGraph Nat} (h : Related cfg s t) :
    s.pending cfg.variant = (stageTokens t.stage).busy.toNat := by
  have count : s.pending cfg.variant = (s.tokens cfg.variant).asked.toNat + (s.tokens cfg.variant).claimed.toNat +
      (s.tokens cfg.variant).posted + ((s.tokens cfg.variant).working || (s.tokens cfg.variant).produced).toNat +
      (s.tokens cfg.variant).announced.toNat + (s.tokens cfg.variant).settling.toNat := rfl
  rw [count, h.tokens]
  cases t.stage <;> rfl

/-- While an order waits for the partitioning thread or is read by it, the graph thread is not at the assignment
to `input_graph_`. -/
theorem Related.not_assigning {t : Rounds InputGraph Nat} (h : Related cfg s t)
    (read : 0 < s.repartSemaphore ∨ s.partitioner.works = true) (inputGraph : InputGraph) :
    s.graphThread ≠ .assigning inputGraph := by
  intro place
  have stage : t.stage = .posted ∨ t.stage = .working := read.imp h.posted h.working
  rw [h.claimed (by rw [place]; rfl)] at stage
  rcases stage with no | no <;> cases no

/-- So no step writes it. -/
theorem Related.input_kept {t : Rounds InputGraph Nat} (h : Related cfg s t)
    (read : 0 < s.repartSemaphore ∨ s.partitioner.works = true) (move : Move cfg s l s') :
    s'.inputGraph = s.inputGraph := by
  cases move with
  | assign place => exact absurd place (h.not_assigning read _)
  | _ => rfl

/-- While the partitioning thread rebuilds the spare map, the scheduling thread does not swap. -/
theorem Related.maps_kept {t : Rounds InputGraph Nat} (h : Related cfg s t) (places : Places cfg s)
    (busy : s.partitioner.busy = true) {b : Bool} (move : Move cfg s (.schedule b) s') :
    s'.dataToPartition = s.dataToPartition ∧ s'.updatedDataToPartition = s.updatedDataToPartition := by
  have stage : t.stage = .working ∨ t.stage = .produced := (Bool.or_eq_true_iff.mp busy).imp h.working h.delivering
  cases move with
  | swap place =>
    have tested := places.scheduling
    rw [place] at tested
    rw [h.announced tested (by rw [place]; rfl)] at stage
    rcases stage with no | no <;> cases no
  | restore place =>
    rw [h.swapped (by rw [place]; rfl)] at stage
    rcases stage with no | no <;> cases no
  | _ => exact ⟨rfl, rfl⟩

/-- **One round at a time.** In every run of the threads of any of the four schedulers, however the accesses of
`schedule_and_answer`, `update_graph_loop` with `order_partitioning` and `partitioning_loop` to the flags, the
two maps, `input_graph_` and the semaphore interleave, at most one repartition is under way, and it is lost
nowhere. -/
theorem one_round_in_flight (cfg : Config n) (s : State n) (via : (system cfg).Via (fun _ l => l.Sized) s) :
    HandShake cfg s := by
  obtain ⟨t, balanced, related⟩ := exists_rounds via
  have pointers := via_pointers via
  have answers : s.produced.map Prod.fst <+: s.ordered := by
    rw [← related.produced, ← related.ordered]
    exact balanced.answers
  have installs : s.installed <+: s.produced.map Prod.snd := by
    rw [← related.produced, ← related.installed]
    exact balanced.installs
  refine ⟨?_, related.not_assigning, fun read l s' step => ?_, fun busy choice s' step => ?_, fun p place => ?_, pointers.live, answers,
    installs, pointers.once.sublist installs.sublist, ⟨?_, ?_, ?_⟩, fun busy => ?_, fun free quiet => ?_⟩
  · show (s.tokens cfg.variant).posted ≤ 1
    rw [related.tokens]
    cases t.stage <;> decide
  · exact related.input_kept read (step_move step)
  · exact related.maps_kept (via_places via) busy (schedule_move step)
  · exact pointers.spare p (by rw [State.spare, place]; rfl)
  · have := installs.length_le
    rwa [List.length_map] at this
  · have := answers.length_le
    rwa [List.length_map] at this
  · rw [← related.ordered, ← related.installed]
    exact balanced.length_le
  · have up : (s.tokens cfg.variant).busy = true := Bool.or_eq_true_iff.mpr busy
    rw [related.pending, ← related.tokens, up]
    rfl
  · rw [related.pending, ← related.tokens]
    simp only [State.tokens, free, quiet]
    rfl

/-- `AsyncScheduler` with a repartition after every request. -/
def eagerConfig : Config 2 where
  positive := Nat.two_pos
  TL := 1
  queueHeadDistance := 2
  interval := .operations 1 Nat.one_pos
  populated := [0, 1]
  variant := .async

/-- The graph thread takes the request up before `repartitioning_` is raised. -/
def eagerRun : List Label :=
  [.submit { type := .SCAN, key := 1, args := ['2'] }, .produce, .produce, .produce] ++
    List.replicate 9 (.schedule true) ++ List.replicate 8 (.graph true)

theorem one_round_in_flight_eager : ∃ s, (system eagerConfig).Via (fun _ l => l.Sized) s ∧
    (s.scheduling = .raisingRepartitioning ∧ s.graphThread.holds .async = true) ∧ HandShake eagerConfig s := by
  obtain ⟨s, via, early⟩ := System.exists_via (M := system eagerConfig) (fun _ l => l.Sized)
    (P := fun s => s.scheduling = .raisingRepartitioning ∧ s.graphThread.holds .async = true) eagerRun (by decide)
  exact ⟨s, via, early, one_round_in_flight eagerConfig s via⟩

end FreeScheduler

end KvPaxos
