import Mathlib.Data.Finset.Basic
import Mathlib.Data.Fintype.Basic
import KvPaxos.Lib.UnorderedMap
import KvPaxos.Types.ClientMessage

/-!
# What the scheduler decides for one request

`Scheduler::involved_partitions` looks a request's keys up in `data_to_partition_`, maps
the missing ones to the round-robin partition and returns the set of partitions;
`dispatch` turns that set into the `push_request` calls it makes, SYNC messages around
a request that involves several partitions. Only the scheduling thread reads or writes this data, so
the calls of one `dispatch` are computed at once and made one by one by the pool.

The iteration order of an `unordered_set` is open: `order` is any listing of the set,
the same for `*begin` and for both SYNC rounds.
-/

namespace KvPaxos

open Lib

/-- `data_to_partition_` and `round_robin_counter_`. -/
structure Mapping (n : Nat) where
  dataToPartition : UnorderedMap Int (Fin n)
  roundRobinCounter : Fin n

namespace Mapping

variable {n : Nat}

/-- `(round_robin_counter_ + 1) % n_partitions_`. -/
def nextPartition (i : Fin n) : Fin n := ⟨(i.val + 1) % n, Nat.mod_lt _ i.pos⟩

/-- `Scheduler::map_key(key)`, which also advances the counter. -/
def mapKey (s : Mapping n) (key : Int) : Mapping n where
  dataToPartition := UnorderedMap.emplace s.dataToPartition key s.roundRobinCounter
  roundRobinCounter := nextPartition s.roundRobinCounter

/-- Populating maps the populated keys. -/
theorem mem_foldl_mapKey (keys : List Int) : ∀ {m : Mapping n} {k : Int},
    k ∈ (keys.foldl mapKey m).dataToPartition → k ∈ keys ∨ k ∈ m.dataToPartition := by
  induction keys with
  | nil => exact Or.inr
  | cons key keys ih =>
    intro m k mem
    rcases ih mem with mem | mem
    · exact Or.inl (List.mem_cons_of_mem key mem)
    · rcases UnorderedMap.mem_emplace.mp mem with rfl | mem
      · exact Or.inl List.mem_cons_self
      · exact Or.inr mem

/-- The locals of the loop in `involved_partitions`. -/
structure Involved (n : Nat) where
  dataToPartition : UnorderedMap Int (Fin n)
  newMapping : Bool
  partitions : Finset (Fin n)

/-- One iteration of the loop: look `key` up, or `map_key(key, round_robin_counter_)`. -/
def involveKey (roundRobin : Fin n) (acc : Involved n) (key : Int) : Involved n :=
  match acc.dataToPartition.lookup key with
  | none => { acc with
      dataToPartition := UnorderedMap.emplace acc.dataToPartition key roundRobin
      newMapping := true }
  | some p => { acc with partitions := insert p acc.partitions }

/-- `Scheduler::involved_partitions`; `none` where `stoi` throws. -/
def involvedPartitions (s : Mapping n) (request : ClientMessage) : Option (Mapping n × Finset (Fin n)) :=
  request.range.map fun range =>
    let acc := (request.keysFrom range).foldl (involveKey s.roundRobinCounter) ⟨s.dataToPartition, false, ∅⟩
    if acc.newMapping then
      (⟨acc.dataToPartition, nextPartition s.roundRobinCounter⟩, insert s.roundRobinCounter acc.partitions)
    else
      (⟨acc.dataToPartition, s.roundRobinCounter⟩, acc.partitions)

/-- What the loop has established after the keys `done`: all of them are mapped, into the
collected partitions or newly to the round-robin one, and no mapping has changed. -/
structure LoopSpec (s : Mapping n) (done : List Int) (acc : Involved n) : Prop where
  kept : ∀ k p, s.dataToPartition.lookup k = some p → acc.dataToPartition.lookup k = some p
  fresh : ∀ k p, s.dataToPartition.lookup k = none → acc.dataToPartition.lookup k = some p →
    k ∈ done ∧ p = s.roundRobinCounter
  covered : ∀ k ∈ done, ∃ p, acc.dataToPartition.lookup k = some p ∧
    (p ∈ acc.partitions ∨ acc.newMapping = true ∧ p = s.roundRobinCounter)

/-- One round of the loop: a key that is mapped brings in its partition, one that is not is mapped to the partition
the round robin stands at, which the loop has not moved. -/
theorem involveKey_spec {s : Mapping n} {done : List Int} {acc : Involved n} (h : LoopSpec s done acc)
    (key : Int) : LoopSpec s (done ++ [key]) (involveKey s.roundRobinCounter acc key) := by
  unfold involveKey
  cases hk : acc.dataToPartition.lookup key with
  | some p =>
    refine ⟨h.kept, fun k q hs ha => ?_, fun k hk' => ?_⟩
    · obtain ⟨hd, hq⟩ := h.fresh k q hs ha
      exact ⟨List.mem_append_left _ hd, hq⟩
    · rcases List.mem_append.mp hk' with hd | he
      · obtain ⟨q, hq, mem⟩ := h.covered k hd
        exact ⟨q, hq, mem.imp (Finset.mem_insert_of_mem) id⟩
      · rw [List.mem_singleton] at he
        subst he
        exact ⟨p, hk, Or.inl (Finset.mem_insert_self _ _)⟩
  | none =>
    have unmapped : key ∉ acc.dataToPartition := Finmap.lookup_eq_none.mp hk
    refine ⟨fun k q hs => UnorderedMap.lookup_emplace_of_some (h.kept k q hs), fun k q hs ha => ?_,
      fun k hk' => ?_⟩
    · rw [UnorderedMap.lookup_emplace] at ha
      split at ha
      · rename_i new
        exact ⟨by simp [new.1], (Option.some.inj ha).symm⟩
      · obtain ⟨hd, hq⟩ := h.fresh k q hs ha
        exact ⟨List.mem_append_left _ hd, hq⟩
    · rcases List.mem_append.mp hk' with hd | he
      · obtain ⟨q, hq, mem⟩ := h.covered k hd
        exact ⟨q, UnorderedMap.lookup_emplace_of_some hq, mem.imp id fun m => ⟨rfl, m.2⟩⟩
      · rw [List.mem_singleton] at he
        subst he
        refine ⟨s.roundRobinCounter, ?_, Or.inr ⟨rfl, rfl⟩⟩
        rw [UnorderedMap.lookup_emplace, if_pos ⟨rfl, unmapped⟩]

theorem involveKeys_spec {s : Mapping n} (keys : List Int) :
    ∀ {done : List Int} {acc : Involved n}, LoopSpec s done acc →
      LoopSpec s (done ++ keys) (keys.foldl (involveKey s.roundRobinCounter) acc) := by
  induction keys with
  | nil =>
    intro done acc h
    simpa using h
  | cons key keys ih =>
    intro done acc h
    have := ih (involveKey_spec h key)
    rwa [List.append_assoc] at this

/-- What `involved_partitions` establishes: every key of the request is mapped to one of the
returned partitions, mappings that were there stay, and the new ones are the request's. -/
structure InvolvedSpec (s : Mapping n) (request : ClientMessage) (s' : Mapping n)
    (partitions : Finset (Fin n)) : Prop where
  kept : ∀ k p, s.dataToPartition.lookup k = some p → s'.dataToPartition.lookup k = some p
  fresh : ∀ k p, s.dataToPartition.lookup k = none → s'.dataToPartition.lookup k = some p → k ∈ request.keys
  covered : ∀ k ∈ request.keys, ∃ p ∈ partitions, s'.dataToPartition.lookup k = some p

/-- The loop key by key, and what comes behind it: the partition that the new keys have been mapped to joins the set,
and the round robin goes on to the next. -/
theorem involvedPartitions_spec {s s' : Mapping n} {request : ClientMessage} {partitions : Finset (Fin n)}
    (h : s.involvedPartitions request = some (s', partitions)) : InvolvedSpec s request s' partitions := by
  obtain ⟨range, hr, h⟩ := Option.map_eq_some_iff.mp h
  have keys : request.keys = request.keysFrom range := by rw [ClientMessage.keys, hr]; rfl
  have start : LoopSpec s [] ⟨s.dataToPartition, false, ∅⟩ := by
    refine ⟨fun k p hk => hk, fun k p hs ha => ?_, fun k hk => ?_⟩
    · rw [hs] at ha
      cases ha
    · cases hk
  have spec := involveKeys_spec request.keys start
  rw [List.nil_append] at spec
  rw [← keys] at h
  generalize request.keys.foldl _ _ = acc at h spec
  dsimp only at h
  split at h
  · obtain ⟨rfl, rfl⟩ := Prod.mk.inj h
    refine ⟨spec.kept, fun k p hs ha => (spec.fresh k p hs ha).1, fun k hk => ?_⟩
    obtain ⟨p, hp, mem⟩ := spec.covered k hk
    rcases mem with mem | ⟨-, rfl⟩
    · exact ⟨p, Finset.mem_insert_of_mem mem, hp⟩
    · exact ⟨_, Finset.mem_insert_self _ _, hp⟩
  · rename_i old
    obtain ⟨rfl, rfl⟩ := Prod.mk.inj h
    refine ⟨spec.kept, fun k p hs ha => (spec.fresh k p hs ha).1, fun k hk => ?_⟩
    obtain ⟨p, hp, mem⟩ := spec.covered k hk
    rcases mem with mem | ⟨new, -⟩
    · exact ⟨p, mem, hp⟩
    · exact absurd new old

end Mapping

/-- A message on a partition's queue. `issue` and `number` are ghosts: `issue` increases with
every message group the scheduler sends, and `number` counts the requests dispatched before. -/
structure Entry where
  issue : Nat
  number : Nat
  message : ClientMessage
  deriving DecidableEq

/-- The barrier a SYNC message carries in its address field. -/
def Entry.barrier (e : Entry) : Option Nat :=
  if e.message.type = .SYNC then some e.message.sAddr else none

section Calls

variable {n : Nat}

/-- `Scheduler::create_sync_request`, the barrier being the allocation `barrier`. -/
def createSyncRequest (syncCounter : Int) (barrier : Nat) : ClientMessage :=
  { id := syncCounter, sAddr := barrier, type := .SYNC }

/-- The pushes of `Scheduler::sync_partitions`. -/
def syncPartitions (syncCounter : Int) (issue number : Nat) (order : List (Fin n)) : List (Fin n × Entry) :=
  order.map fun p => (p, ⟨issue, number, createSyncRequest syncCounter issue⟩)

/-- The pushes of `Scheduler::dispatch` for the involved partitions `first :: rest`. -/
def dispatchCalls (syncCounter : Int) (issue number : Nat) (request : ClientMessage) (first : Fin n)
    (rest : List (Fin n)) : List (Fin n × Entry) :=
  if rest = [] then [(first, ⟨issue + 1, number, request⟩)]
  else syncPartitions syncCounter issue number (first :: rest) ++ [(first, ⟨issue + 1, number, request⟩)] ++
    syncPartitions syncCounter (issue + 2) number (first :: rest)

end Calls

end KvPaxos
