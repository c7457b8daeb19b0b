import KvPaxos.Lib.UnorderedMap
import KvPaxos.Types.ClientMessage

/-!
# The shared storage

`kvstorage::Storage`: a map from keys to compressed values. `write` ignores the value it
is given and stores the compressed template; `read` throws (`none`) for a missing key
and falls back to the template where decompression fails; `scan` reduces every key modulo
the number of stored keys before it reads it. The zlib wrapper is a parameter.
-/

namespace KvPaxos

open Lib

/-- `compress` and `decompress`; `none` where `decompress` throws. -/
structure Compresser where
  compress : List Char → List Char
  decompress : List Char → Option (List Char)

/-- `VALUE_SIZE`. -/
def valueSize : Nat := 4096

/-- `template_value`. -/
def templateValue : List Char := List.replicate valueSize '*'

/-- The contents of `storage_`. -/
abbrev Storage := UnorderedMap Int (List Char)

namespace Storage

variable (z : Compresser)

/-- What `read` returns for a stored compressed value. -/
def decompressed (val : List Char) : List Char := (z.decompress val).getD templateValue

/-- `Storage::read`; `none` where `at` throws. -/
def read (s : Storage) (key : Int) : Option (List Char) :=
  (s.lookup key).map (decompressed z)

/-- `Storage::write`. -/
def write (s : Storage) (key : Int) (_value : List Char) : Storage :=
  s.insert key (z.compress templateValue)

/-- The value of a number converted to `int`. -/
def toInt (x : Int) : Int := Int.bmod x (2 ^ 32)

/-- A number that is an `int` already. -/
theorem toInt_eq {x : Int} (lower : -2 ^ 31 ≤ x) (upper : x < 2 ^ 31) : toInt x = x :=
  Int.bmod_eq_of_le (by omega) (by omega)

/-- The key `(start + i) % storage_.size()` that `scan` reads for `x = start + i`: the sum is
converted to `size_t` for the division and back to `int` for `read`. The division traps on
an empty storage; callers exclude it. -/
def scanKey (s : Storage) (x : Int) : Int :=
  toInt ((x % 2 ^ 64) % UnorderedMap.size s)

/-- `Storage::scan` with nothing else running; `none` where a read throws. -/
def scan (s : Storage) (start length : Int) : Option (List (List Char)) :=
  (List.range length.toNat).mapM fun i : Nat => s.read z (s.scanKey (start + i))

/-- `Partition::populate_storage` of one message. -/
def populate (s : Storage) (m : ClientMessage) : Storage := s.write z m.key []

/-- The storage after populating the keys `ks`. -/
def populated (ks : List Int) : Storage :=
  ks.foldl (fun s k => s.populate z { key := k, type := .WRITE }) ∅

/-- What a stored template reads as. -/
def uniformValue : List Char := decompressed z (z.compress templateValue)

/-- Every stored value is the compressed template. -/
def Uniform (s : Storage) : Prop :=
  ∀ k v, s.lookup k = some v → v = z.compress templateValue

variable {z}

theorem mem_write {s : Storage} {k a : Int} {v : List Char} : a ∈ s.write z k v ↔ a = k ∨ a ∈ s :=
  Finmap.mem_insert

theorem Uniform.write {s : Storage} (h : s.Uniform z) (k : Int) (v : List Char) :
    (s.write z k v).Uniform z := by
  intro a w hw
  rw [Storage.write, UnorderedMap.lookup_insert_ite] at hw
  split at hw
  · exact (Option.some.inj hw).symm
  · exact h a w hw

theorem populated_spec (ks : List Int) :
    (populated z ks).Uniform z ∧ ∀ a, a ∈ populated z ks ↔ a ∈ ks := by
  have go : ∀ (ks : List Int) (s : Storage), s.Uniform z →
      (ks.foldl (fun s k => s.populate z { key := k, type := .WRITE }) s).Uniform z ∧
      ∀ a, a ∈ ks.foldl (fun s k => s.populate z { key := k, type := .WRITE }) s ↔ a ∈ ks ∨ a ∈ s := by
    intro ks
    induction ks with
    | nil => intro s hs; exact ⟨hs, by simp⟩
    | cons k ks ih =>
      intro s hs
      obtain ⟨uniform, mem⟩ := ih (s.populate z { key := k, type := .WRITE }) (hs.write k [])
      refine ⟨uniform, fun a => ?_⟩
      rw [List.foldl_cons, mem, populate, mem_write, List.mem_cons]
      tauto
  obtain ⟨uniform, mem⟩ := go ks ∅ (by intro k v h; simp at h)
  refine ⟨uniform, fun a => (mem a).trans ⟨?_, Or.inl⟩⟩
  rintro (h | h)
  · exact h
  · exact absurd h Finmap.notMem_empty

/-- What a read of a uniform storage returns, by presence alone. -/
theorem Uniform.read {s : Storage} (h : s.Uniform z) (k : Int) :
    s.read z k = if k ∈ s then some (uniformValue z) else none := by
  unfold Storage.read
  cases hk : s.lookup k with
  | none => rw [if_neg (Finmap.lookup_eq_none.mp hk)]; rfl
  | some v =>
    rw [if_pos (Finmap.mem_of_lookup_eq_some hk), h k v hk]
    rfl

/-- Uniform storages with the same keys are equal. -/
theorem Uniform.ext {s t : Storage} (hs : s.Uniform z) (ht : t.Uniform z)
    (same : ∀ k, k ∈ s ↔ k ∈ t) : s = t := by
  apply Finmap.ext_lookup
  intro k
  by_cases hk : k ∈ s
  · obtain ⟨v, hv⟩ := Finmap.mem_iff.mp hk
    obtain ⟨w, hw⟩ := Finmap.mem_iff.mp ((same k).mp hk)
    rw [hv, hw, hs k v hv, ht k w hw]
  · rw [Finmap.lookup_eq_none.mpr hk, Finmap.lookup_eq_none.mpr (fun h => hk ((same k).mpr h))]

/-- The modulo leaves a key below the number of stored keys. -/
theorem scanKey_of_lt {s : Storage} {x : Int} (lower : 0 ≤ x) (int : x < 2 ^ 31)
    (small : x < UnorderedMap.size s) : s.scanKey x = x := by
  have word : x % 2 ^ 64 = x := Int.emod_eq_of_lt lower (by omega)
  have size : x % (UnorderedMap.size s : Int) = x := Int.emod_eq_of_lt lower small
  rw [scanKey, word, size]
  exact toInt_eq (by omega) int

/-- A non-negative key is left by the modulo exactly if it is below the number of stored keys. -/
theorem scanKey_eq_iff {s : Storage} {x : Int} (stored : UnorderedMap.size s ≠ 0) (lower : 0 ≤ x)
    (int : x < 2 ^ 31) : s.scanKey x = x ↔ x < UnorderedMap.size s := by
  constructor
  · intro same
    by_contra large
    have word : x % 2 ^ 64 = x := Int.emod_eq_of_lt lower (by omega)
    have pos : (0 : Int) < UnorderedMap.size s := by omega
    have less := Int.emod_lt_of_pos x pos
    have nonneg := Int.emod_nonneg x (show (UnorderedMap.size s : Int) ≠ 0 by omega)
    rw [scanKey, word, toInt_eq (by omega) (by omega)] at same
    omega
  · exact scanKey_of_lt lower int

/-- A stored key makes the storage not empty. -/
theorem size_ne_zero {s : Storage} {k : Int} (h : k ∈ s) : UnorderedMap.size s ≠ 0 := by
  unfold UnorderedMap.size
  exact Finset.card_ne_zero_of_mem (Finmap.mem_keys.mpr h)

end Storage

end KvPaxos
