import Mathlib.Data.Finmap
import Mathlib.Data.Finset.Sort

/-!
# `std::unordered_map` as a finite map

The container without its iteration order, which the standard leaves open: two maps are
equal when they answer every `find` alike. `find` and `at` are `lookup`, `m[k] = v` is
`insert`, and this file adds the operations with a C++ default: `emplace`, which keeps a
mapping that is there, and `operator[]` on integers, which reads a missing key as 0.
-/

namespace KvPaxos.Lib

/-- `std::unordered_map<K, V>` up to iteration order. -/
abbrev UnorderedMap (K V : Type) := Finmap fun _ : K => V

namespace UnorderedMap

variable {K V : Type} [DecidableEq K]

/-- `size()`. -/
def size (m : UnorderedMap K V) : Nat := m.keys.card

/-- `emplace(k, v)`: no effect where `k` is mapped already. -/
def emplace (m : UnorderedMap K V) (k : K) (v : V) : UnorderedMap K V :=
  if k ∈ m then m else m.insert k v

theorem lookup_insert_ite (m : UnorderedMap K V) (k a : K) (v : V) :
    (m.insert k v).lookup a = if a = k then some v else m.lookup a := by
  by_cases h : a = k
  · subst h
    simp
  · simp [h]

theorem lookup_erase_ite (m : UnorderedMap K V) (k a : K) :
    (m.erase k).lookup a = if a = k then none else m.lookup a := by
  by_cases h : a = k
  · subst h
    simp
  · simp [h]

theorem lookup_emplace (m : UnorderedMap K V) (k a : K) (v : V) :
    (emplace m k v).lookup a = if a = k ∧ k ∉ m then some v else m.lookup a := by
  unfold emplace
  by_cases hk : k ∈ m
  · simp [hk]
  · rw [if_neg hk, lookup_insert_ite]
    simp [hk]

/-- `emplace` never changes a mapping that is there. -/
theorem lookup_emplace_of_some {m : UnorderedMap K V} {k a : K} {v w : V} (h : m.lookup a = some w) :
    (emplace m k v).lookup a = some w := by
  rw [lookup_emplace, if_neg, h]
  rintro ⟨rfl, hk⟩
  exact hk (Finmap.mem_of_lookup_eq_some h)

theorem mem_emplace {m : UnorderedMap K V} {k a : K} {v : V} :
    a ∈ emplace m k v ↔ a = k ∨ a ∈ m := by
  unfold emplace
  by_cases hk : k ∈ m
  · rw [if_pos hk]
    constructor
    · exact Or.inr
    · rintro (rfl | h)
      · exact hk
      · exact h
  · rw [if_neg hk, Finmap.mem_insert]

/-- An order in which a loop over the container may meet its entries. -/
structure Iteration (m : UnorderedMap K V) where
  entries : List (K × V)
  nodup : (entries.map Prod.fst).Nodup
  listed : ∀ k v, (k, v) ∈ entries ↔ m.lookup k = some v

/-- A loop meets every key of the container. -/
theorem Iteration.mem_keys {m : UnorderedMap K V} (order : Iteration m) {k : K} :
    k ∈ order.entries.map Prod.fst ↔ k ∈ m := by
  rw [List.mem_map]
  constructor
  · rintro ⟨⟨k, v⟩, mem, rfl⟩
    exact Finmap.mem_of_lookup_eq_some ((order.listed k v).mp mem)
  · intro mem
    obtain ⟨v, hv⟩ := Finmap.mem_iff.mp mem
    exact ⟨(k, v), (order.listed k v).mpr hv, rfl⟩

/-- The loop that meets the keys in their order. -/
def Iteration.sorted [LinearOrder K] (m : UnorderedMap K V) : Iteration m where
  entries := (m.keys.sort (· ≤ ·)).filterMap fun k => (m.lookup k).map (k, ·)
  nodup := by
    have keys : ((m.keys.sort (· ≤ ·)).filterMap fun k => (m.lookup k).map (k, ·)).map Prod.fst =
        (m.keys.sort (· ≤ ·)).filterMap fun k => if (m.lookup k).isSome then some k else none := by
      rw [List.map_filterMap]
      congr 1
      funext k
      cases m.lookup k <;> rfl
    rw [keys]
    apply (Finset.sort_nodup m.keys (· ≤ ·)).filterMap
    intro a b c ha hb
    split at ha
    · split at hb
      · cases ha
        cases hb
        rfl
      · cases hb
    · cases ha
  listed k v := by
    rw [List.mem_filterMap]
    constructor
    · rintro ⟨k', -, eq⟩
      obtain ⟨v', hv, eq⟩ := Option.map_eq_some_iff.mp eq
      cases eq
      exact hv
    · intro hv
      refine ⟨k, ?_, by rw [hv]; rfl⟩
      rw [Finset.mem_sort, Finmap.mem_keys]
      exact Finmap.mem_of_lookup_eq_some hv

end UnorderedMap

end KvPaxos.Lib
