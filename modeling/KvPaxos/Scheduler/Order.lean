import KvPaxos.Scheduler.Barriers

/-!
# The order the scheduler lays down between conflicting requests

`Ordered` is the invariant of the scheduling thread that carries the order of
conflicting requests, stated on the plans alone. A key of a dispatched request that is
still mapped has all of the request before the end of its partition's plan; an unmapped
key has it before the end of every plan. The four ways the order comes about are the
cases of `Dispatch.ordered` and `Repartition.ordered`: the queue of one partition, the SYNC pair
around a request over several, a key mapped for the first time, and the global SYNC.
-/

namespace KvPaxos.Pool

open Lib.Lanes

variable {n : Nat} {cfg : Config n} {s s' : State n} {p q : Fin n}

/-- Entry `i` of the plan of `p` is handled before the worker of `q` gets to position `j`. -/
abbrev Before (s : State n) (p : Fin n) (i : Nat) (q : Fin n) (j : Nat) : Prop :=
  Precedes (plan s) Entry.barrier p i q j

/-- The request `e` has place `i` in the plan of `p`. -/
structure Place (s : State n) (p : Fin n) (i : Nat) (e : Entry) : Prop where
  at_ : (plan s p)[i]? = some e
  request : e.barrier = none

/-- A key mapped to `q`, or to no partition at all, is in the reach of `q`: a request on it may
be sent to `q` next. -/
def InReach (mapping : Mapping n) (key : Int) (q : Fin n) : Prop :=
  mapping.dataToPartition.lookup key = some q ∨ mapping.dataToPartition.lookup key = none

/-- What is ordered at the end of the plans, and between conflicting requests. -/
structure Ordered (s : State n) : Prop where
  reach : ∀ p i e, Place s p i e → ∀ key ∈ e.message.keys, ∀ q, InReach s.mapping key q →
    Before s p i q (plan s q).length
  conflict : ∀ p i e, Place s p i e → ∀ q j f, Place s q j f → e.number < f.number →
    e.message.Conflict f.message → Before s p i q j

theorem init_ordered : Ordered (init cfg) := by
  have none : ∀ p i e, ¬ Place (init cfg) p i e := by
    intro p i e place
    have mem := List.mem_of_getElem? place.at_
    exact List.not_mem_nil mem
  exact ⟨fun p i e place => absurd place (none p i e), fun p i e place => absurd place (none p i e)⟩

/-- Steps that keep the plans and the mapping keep the order. -/
theorem Ordered.of_same (ordered : Ordered s) (plans : ∀ p, plan s' p = plan s p)
    (mapping : s'.mapping = s.mapping) : Ordered s' := by
  have same : plan s' = plan s := funext plans
  have place : ∀ {p i e}, Place s' p i e → Place s p i e := fun h => ⟨by rw [← same]; exact h.at_, h.request⟩
  constructor
  · intro p i e h key mem q reach
    rw [mapping] at reach
    unfold Before
    rw [same]
    exact ordered.reach p i e (place h) key mem q reach
  · intro p i e h q j f h' lt conflict
    unfold Before
    rw [same]
    exact ordered.conflict p i e (place h) q j f (place h') lt conflict

section Grow

/-- A place of the new plans is an old one or in the calls just set up. -/
theorem SetUp.place (h : SetUp cfg s s') {i : Nat} {e : Entry} (place : Place s' p i e) :
    Place s p i e ∨ (plan s p).length ≤ i ∧ (pending s'.todo p)[i - (plan s p).length]? = some e := by
  have at_ := place.at_
  rw [h.plan_eq] at at_
  by_cases old : i < (plan s p).length
  · rw [List.getElem?_append_left old] at at_
    exact Or.inl ⟨at_, place.request⟩
  · rw [List.getElem?_append_right (by omega)] at at_
    exact Or.inr ⟨by omega, at_⟩

/-- Setting up calls keeps what was ordered before. -/
theorem SetUp.before (h : SetUp cfg s s') {i j : Nat} (before : Before s p i q j) : Before s' p i q j :=
  before.append (pending s'.todo) h.plan_eq

theorem SetUp.length (h : SetUp cfg s s') (q : Fin n) : (plan s q).length ≤ (plan s' q).length := by
  rw [h.plan_eq, List.length_append]
  exact Nat.le_add_right _ _

/-- An old request is ahead of everything put behind its end of plan. -/
theorem SetUp.before_end (h : SetUp cfg s s') {i : Nat} (before : Before s p i q (plan s q).length) :
    Before s' p i q (plan s' q).length :=
  (h.before before).later (h.length q)

/-- A repartition orders every request before whatever comes next, on every partition. -/
theorem Repartition.ordered {scheme : Lib.UnorderedMap Int (Fin n)} {order : List (Fin n)}
    (h : Repartition s scheme order s') (setUp : SetUp cfg s s') (ordered : Ordered s) : Ordered s' := by
  have grow : ∀ q, plan s' q = plan s q ++ [syncEntry s.syncCounter s.issue s.dispatched] := by
    intro q
    rw [setUp.plan_eq]
    cases h with
    | mk _ _ nodup listing => rw [pending_repartition nodup listing]
  have old : ∀ {p i e}, Place s' p i e → Place s p i e := by
    intro p i e place
    have mem := List.mem_of_getElem? place.at_
    have at_ := place.at_
    rw [grow] at at_
    by_cases lt : i < (plan s p).length
    · rw [List.getElem?_append_left lt] at at_
      exact ⟨at_, place.request⟩
    · rw [List.getElem?_append_right (by omega)] at at_
      have sync := List.mem_singleton.mp (List.mem_of_getElem? at_)
      have none := place.request
      rw [sync, syncEntry_barrier] at none
      cases none
  have fence : ∀ q, fenceAt Entry.barrier (plan s' q) (plan s q).length = some s.issue :=
    fun q => fenceAt_between (grow q) (syncEntry_barrier _ _ _)
  constructor
  · intro p i e place key mem q _
    have lt := (List.getElem?_eq_some_iff.mp (old place).at_).1
    refine .fence (.queue lt) (fence p) (fence q) ?_
    rw [grow, List.length_append]
    exact Nat.lt_succ_self _
  · intro p i e place q j f place' lt conflict
    exact setUp.before (ordered.conflict p i e (old place) q j f (old place') lt conflict)

end Grow

/-- The last position of a plan that ends with `e`. -/
theorem plan_end {l pre : List Entry} {e : Entry} (h : l = pre ++ [e]) : pre.length < l.length := by
  rw [h, List.length_append]
  exact Nat.lt_succ_self _

/-- Where `dispatch` puts the request and its SYNC messages. -/
structure Sent (s s' : State n) (first : Fin n) (rest : List (Fin n)) (request : ClientMessage) : Prop where
  alone : rest = [] → plan s' first = plan s first ++ [requestEntry s request]
  opened : rest ≠ [] → ∀ q ∈ first :: rest, ∃ post,
    plan s' q = plan s q ++ syncEntry s.syncCounter s.issue s.dispatched :: post
  middle : rest ≠ [] → ∃ post, plan s' first =
    (plan s first ++ [syncEntry s.syncCounter s.issue s.dispatched]) ++ requestEntry s request :: post
  closed : rest ≠ [] → ∀ q ∈ first :: rest, ∃ pre,
    plan s' q = pre ++ [syncEntry s.syncCounter (s.issue + 2) s.dispatched] ∧
      (q = first → pre.length = (plan s first).length + 2)

/-- Where the entries of a dispatch stand in the plan: one SYNC in front and one at the end at every partition, and
the request between the two at the first. -/
theorem sent_of_dispatch {first : Fin n} {rest : List (Fin n)} {request : ClientMessage}
    (nodup : (first :: rest).Nodup) (setUp : SetUp cfg s s')
    (todo : s'.todo = dispatchCalls s.syncCounter s.issue s.dispatched request first rest) :
    Sent s s' first rest request := by
  have grow : ∀ q, plan s' q = plan s q ++ pending s'.todo q := setUp.plan_eq
  simp only [todo, pending_dispatch nodup] at grow
  constructor
  · intro single
    rw [grow, if_pos single, if_pos rfl]
  · intro cross q mem
    rw [grow, if_neg cross, if_pos mem]
    exact ⟨_, rfl⟩
  · intro cross
    rw [grow, if_neg cross, if_pos List.mem_cons_self, if_pos rfl]
    exact ⟨[syncEntry s.syncCounter (s.issue + 2) s.dispatched], by simp⟩
  · intro cross q mem
    refine ⟨plan s q ++ syncEntry s.syncCounter s.issue s.dispatched ::
      (if first = q then [requestEntry s request] else []), ?_, ?_⟩
    · rw [grow, if_neg cross, if_pos mem]
      simp
    · rintro rfl
      simp

/-- The only new place after a dispatch is the request's. -/
theorem Sent.place {first : Fin n} {rest : List (Fin n)} {request : ClientMessage}
    (sent : Sent s s' first rest request) (setUp : SetUp cfg s s') (planned' : Planned cfg s')
    (todo : s'.todo = dispatchCalls s.syncCounter s.issue s.dispatched request first rest) {i : Nat} {e : Entry}
    (place : Place s' p i e) : Place s p i e ∨ p = first ∧ e = requestEntry s request ∧
      (rest = [] → i = (plan s first).length) ∧ (rest ≠ [] → i = (plan s first).length + 1) := by
  rcases setUp.place place with old | ⟨le, at_⟩
  · exact Or.inl old
  · have mem := mem_pending.mp (List.mem_of_getElem? at_)
    rw [todo] at mem
    have none := place.request
    have eq : (p, e) = (first, requestEntry s request) := by
      rcases mem_dispatchCalls mem with eq | ⟨-, eq | eq⟩
      · exact eq
      · rw [show e = _ from eq, syncEntry_barrier] at none
        cases none
      · rw [show e = _ from eq, syncEntry_barrier] at none
        cases none
    cases eq
    refine Or.inr ⟨rfl, rfl, fun single => ?_, fun cross => ?_⟩
    · refine position_unique (planned'.sorted p) place.at_ (f := requestEntry s request) ?_ rfl
      rw [sent.alone single, List.getElem?_append_right (Nat.le_refl _), Nat.sub_self]
      rfl
    · obtain ⟨post, here⟩ := sent.middle cross
      refine position_unique (planned'.sorted p) place.at_ (f := requestEntry s request) ?_ rfl
      rw [here, List.getElem?_append_right (by simp)]
      simp

/-- A key of the request just dispatched is ordered where it may be sent to next: on its only
partition, or behind the second SYNC of each involved one. -/
theorem Sent.reach {first : Fin n} {rest : List (Fin n)} {request : ClientMessage}
    (sent : Sent s s' first rest request) {i : Nat}
    (single : rest = [] → i = (plan s first).length) (cross : rest ≠ [] → i = (plan s first).length + 1)
    (involved : q ∈ first :: rest) : Before s' first i q (plan s' q).length := by
  by_cases alone : rest = []
  · subst alone
    cases List.mem_singleton.mp involved
    rw [single rfl]
    exact .queue (plan_end (sent.alone rfl))
  · obtain ⟨pre, here, len⟩ := sent.closed alone first List.mem_cons_self
    obtain ⟨pre', there, -⟩ := sent.closed alone q involved
    have fence := fenceAt_between here (syncEntry_barrier s.syncCounter (s.issue + 2) s.dispatched)
    have fence' := fenceAt_between there (syncEntry_barrier s.syncCounter (s.issue + 2) s.dispatched)
    rw [len rfl] at fence
    refine .fence (.queue ?_) fence fence' (plan_end there)
    rw [cross alone]
    exact Nat.lt_succ_self _

/-- A request that is ahead of the end of an involved partition's plan is ahead of the request
just dispatched. -/
theorem Sent.conflict {first r : Fin n} {rest : List (Fin n)} {request : ClientMessage}
    (sent : Sent s s' first rest request) (setUp : SetUp cfg s s') {i j : Nat}
    (single : rest = [] → j = (plan s first).length) (cross : rest ≠ [] → j = (plan s first).length + 1)
    (involved : r ∈ first :: rest) (before : Before s p i r (plan s r).length) : Before s' p i first j := by
  by_cases alone : rest = []
  · subst alone
    cases List.mem_singleton.mp involved
    rw [single rfl]
    exact setUp.before before
  · obtain ⟨post, here⟩ := sent.opened alone r involved
    obtain ⟨post', there⟩ := sent.opened alone first List.mem_cons_self
    have fence := fenceAt_between here (syncEntry_barrier s.syncCounter s.issue s.dispatched)
    have fence' := fenceAt_between there (syncEntry_barrier s.syncCounter s.issue s.dispatched)
    refine .fence (setUp.before before) fence fence' ?_
    rw [cross alone]
    exact Nat.lt_succ_self _

/-- A dispatch orders its request behind all earlier ones that share a key with it. -/
theorem Dispatch.ordered {first : Fin n} {rest : List (Fin n)} (h : Dispatch cfg s first rest s')
    (setUp : SetUp cfg s s') (planned : Planned cfg s) (planned' : Planned cfg s') (ordered : Ordered s) :
    Ordered s' := by
  cases h with
  | @mk request mapping partitions stage todo next involved nodup listing =>
    have spec := Mapping.involvedPartitions_spec involved
    have sent := sent_of_dispatch nodup setUp rfl
    have listed : ∀ r, r ∈ partitions ↔ r ∈ first :: rest := fun r => by rw [← listing, List.mem_toFinset]
    have new := fun {p i e} => sent.place (p := p) (i := i) (e := e) setUp planned' rfl
    constructor
    · intro p i e place key mem q reach
      rcases new place with old | ⟨rfl, rfl, single, cross⟩
      · refine setUp.before_end (ordered.reach p i e old key mem q ?_)
        cases before : s.mapping.dataToPartition.lookup key with
        | none => exact Or.inr before
        | some r =>
          have kept := spec.kept key r before
          rcases reach with there | gone
          · rw [kept] at there
            cases there
            exact Or.inl before
          · rw [kept] at gone
            cases gone
      · obtain ⟨r, mem', there⟩ := spec.covered key mem
        have eq : q = r := by
          rcases reach with h | h
          · rw [there] at h
            exact (Option.some.inj h).symm
          · rw [there] at h
            cases h
        subst eq
        exact sent.reach single cross ((listed q).mp mem')
    · intro p i e place q j f place' lt conflict
      rcases new place' with old' | ⟨rfl, rfl, single, cross⟩
      · rcases new place with old | ⟨rfl, rfl, -⟩
        · exact setUp.before (ordered.conflict p i e old q j f old' lt conflict)
        · have := (planned.request q f (List.mem_of_getElem? old'.at_) old'.request).1
          simp only [requestEntry] at lt
          omega
      · rcases new place with old | ⟨rfl, rfl, -⟩
        · obtain ⟨key, mine, its⟩ := conflict
          obtain ⟨r, mem', there⟩ := spec.covered key its
          refine sent.conflict setUp single cross ((listed r).mp mem')
            (ordered.reach p i e old key mine r ?_)
          cases before : s.mapping.dataToPartition.lookup key with
          | none => exact Or.inr before
          | some r' =>
            have kept := spec.kept key r' before
            rw [there] at kept
            cases kept
            exact Or.inl before
        · exact absurd lt (Nat.lt_irrefl _)

theorem ordered_step {l : Label n} (requests : ∀ m ∈ cfg.requests, m.IsRequest) (sound : Sound cfg s)
    (ordered : Ordered s) (h : step cfg s l = some s') : Ordered s' := by
  have planned' := (sound_step requests sound h).planned
  cases l with
  | dispatch first rest =>
    have dispatched := dispatch_cases h
    exact dispatched.ordered (dispatched.setUp requests) sound.planned planned' ordered
  | repartition scheme order =>
    have setUp : SetUp cfg s s' := (repartition_cases h).setUp s.mapping.roundRobinCounter.pos
    exact (repartition_cases h).ordered setUp ordered
  | push =>
    refine ordered.of_same (push_cases h).plan_eq ?_
    cases push_cases h <;> rfl
  | work p serial => exact ordered.of_same (work_cases h).plan_eq (work_cases h).sameCalls.mapping

/-- **Conflicting requests are ordered** in every reachable state: the earlier one is handled
when a worker has come to the later one. -/
theorem earlier_handled (sound : Sound cfg s) (ordered : Ordered s) {i j : Nat} {e f : Entry} (he : Place s p i e) (hf : Place s q j f)
    (lt : e.number < f.number) (conflict : e.message.Conflict f.message)
    (reached : j ≤ (s.partitions q).handled) : i < (s.partitions p).handled :=
  (ordered.conflict p i e he q j f hf lt conflict).handled (fun r => (s.partitions r).handled)
    (fenced sound.accounted sound.planned sound.synced) reached

end KvPaxos.Pool
