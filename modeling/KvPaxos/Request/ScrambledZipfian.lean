import Mathlib.Logic.Function.Iterate
import KvPaxos.Lib.Residue

/-!
# The keys of a scrambled Zipfian draw

`scrambled_zipfian_int_distribution` hashes the item its Zipfian draw returns with eight rounds of
FNV and takes the hash modulo its item count. The hash is the `labs` of the last round's word as a
`long`, which is negative for one word only, `mostNegative`. No item up to `ITEM_COUNT` + 1 reaches it: its
last octets are known, so the last four rounds can be inverted, and the first four lead nowhere near what they
come from, in the distance of `separator` times a word from the multiples of `2 ^ 64`.
-/

namespace KvPaxos

open Lib

namespace ScrambledZipfian

def FNV_OFFSET_BASIS_64 : UInt64 := 0xCBF29CE484222325
def FNV_PRIME_64 : UInt64 := 1099511628211

/-- What a turn of the loop of `fnvhash64` does to `hashval`. -/
def round (hashval octet : UInt64) : UInt64 := (hashval ^^^ octet) * FNV_PRIME_64

/-- A turn of the loop, on `val` and `hashval`. -/
def turn (s : UInt64 × UInt64) : UInt64 × UInt64 := (s.1 >>> 8, round s.2 (s.1 &&& 0x00ff))

/-- `hashval` after `i` turns. -/
def rounds (i : Nat) (val hashval : UInt64) : UInt64 := (turn^[i] (val, hashval)).2

/-- `labs`; the absolute value of the most negative `long` is itself. -/
def labs (x : Int64) : Int64 := x.abs

def fnvhash64 (val : UInt64) : UInt64 := (labs (rounds 8 val FNV_OFFSET_BASIS_64).toInt64).toUInt64

end ScrambledZipfian

/-- `scrambled_zipfian_int_distribution<long>`, without the draw it hashes. -/
structure ScrambledZipfian where
  min : Int64
  max : Int64
  itemcount : Int64

namespace ScrambledZipfian

/-- The constructor. -/
def new (min max : Int64) : ScrambledZipfian := { min := min, max := max, itemcount := max - min + 1 }

/-- `operator()`, where the Zipfian draw returns `ret`. -/
def draw (g : ScrambledZipfian) (ret : Int64) : Int64 :=
  let hash := (fnvhash64 ret.toUInt64).toInt64
  g.min + hash % g.itemcount

/-! ### What the rounds do to a word -/

theorem rounds_zero (val hashval : UInt64) : rounds 0 val hashval = hashval := rfl

theorem rounds_succ (i : Nat) (val hashval : UInt64) :
    rounds (i + 1) val hashval = rounds i (val >>> 8) (round hashval (val &&& 0x00ff)) := by
  unfold rounds
  rw [Function.iterate_succ_apply, turn]

/-- The word whose `labs` is negative. -/
def mostNegative : UInt64 := 0x8000000000000000

/-- The inverse of `FNV_PRIME_64` modulo `2 ^ 64`. -/
def primeInverse : UInt64 := 0xCE965057AFF6957B

/-- A round taken back. -/
theorem eq_of_round {h octet word : UInt64} (eq : round h octet = word) : h = (word * primeInverse) ^^^ octet := by
  have inverse : FNV_PRIME_64 * primeInverse = 1 := by decide
  rw [← eq, round, UInt64.mul_assoc, inverse, UInt64.mul_one, UInt64.xor_assoc, UInt64.xor_self, UInt64.xor_zero]

/-- An octet changes a word by less than 256. -/
theorem xor_octet (h : UInt64) {octet : UInt64} (small : octet.toNat < 256) :
    ∃ d : Int, d.natAbs ≤ 255 ∧ ((h ^^^ octet).toNat : Int) = h.toNat + d := by
  have block : (h.toNat ^^^ octet.toNat) / 2 ^ 8 = h.toNat / 2 ^ 8 := by
    rw [Nat.xor_div_two_pow, Nat.div_eq_of_lt (a := octet.toNat) small, Nat.xor_zero]
  refine ⟨(h ^^^ octet).toNat - h.toNat, ?_, by ring⟩
  rw [UInt64.toNat_xor]
  omega

/-- A round, as far as multiples of `2 ^ 64` do not matter. -/
theorem round_spec (h : UInt64) {octet : UInt64} (small : octet.toNat < 256) :
    ∃ d k : Int, d.natAbs ≤ 255 ∧ ((round h octet).toNat : Int) = (h.toNat + d) * 1099511628211 + 2 ^ 64 * k := by
  obtain ⟨d, bound, eq⟩ := xor_octet h small
  have product : (round h octet).toNat = (h ^^^ octet).toNat * 1099511628211 % 2 ^ 64 := UInt64.toNat_mul _ _
  refine ⟨d, -((h ^^^ octet).toNat * 1099511628211 / 2 ^ 64), bound, ?_⟩
  rw [← eq, product]
  omega

theorem octet_lt (val : UInt64) : (val &&& 0x00ff).toNat < 256 := by
  rw [UInt64.toNat_and]
  exact Nat.and_lt_two_pow (n := 8) _ (by decide)

/-- What `i` rounds can add to `c` times a word, up to multiples of `2 ^ 64`. -/
def spread (c : Int) : Nat → Nat
  | 0 => 0
  | i + 1 => spread c i + distance (2 ^ 64) (c * 1099511628211 ^ (i + 1)) * 255

/-- **The rounds keep near** what they come from, whatever the octets. -/
theorem rounds_near (c : Int) (i : Nat) : ∀ val h : UInt64,
    distance (2 ^ 64) (c * (rounds i val h).toNat - c * 1099511628211 ^ i * h.toNat) ≤ spread c i := by
  induction i with
  | zero =>
    intro val h
    have same : c * (rounds 0 val h).toNat - c * 1099511628211 ^ 0 * h.toNat = 0 := by
      rw [rounds_zero]
      ring
    rw [same]
    exact distance_le (by decide) 0
  | succ i ih =>
    intro val h
    obtain ⟨d, k, bound, next⟩ := round_spec h (octet_lt val)
    set word := rounds (i + 1) val h with last
    set coefficient := c * 1099511628211 ^ (i + 1) with power
    have before := ih (val >>> 8) (round h (val &&& 0x00ff))
    rw [← rounds_succ, ← last, next] at before
    have split : c * (word.toNat : Int) - coefficient * h.toNat =
        (c * word.toNat - c * 1099511628211 ^ i * ((h.toNat + d) * 1099511628211 + 2 ^ 64 * k)) + coefficient * d +
          ((2 ^ 64 : Nat) : Int) * (c * 1099511628211 ^ i * k) := by
      rw [power]
      push_cast
      ring
    rw [split, distance_add_mul]
    have octet : distance (2 ^ 64) (coefficient * d) ≤ distance (2 ^ 64) coefficient * 255 :=
      (distance_mul_le (by decide) _ _).trans (Nat.mul_le_mul_left _ bound)
    exact (distance_add_le (by decide) _ _).trans (Nat.add_le_add before octet)

/-- Four rounds with it add little, and from the start of the hash they would have to add much. -/
def separator : Int := 58492815044174969

theorem item_cases {w : UInt64} (small : w.toNat ≤ 2) : w = 0 ∨ w = 1 ∨ w = 2 := by
  have numbers : (0 : UInt64).toNat = 0 ∧ (1 : UInt64).toNat = 1 ∧ (2 : UInt64).toNat = 2 := by decide
  simp only [← UInt64.toNat_inj]
  omega

/-- The last four rounds of a small item, taken back. -/
theorem word_before {w h : UInt64} (small : w.toNat ≤ 2) (last : rounds 4 w h = mostNegative) :
    h = mostNegative ^^^ w := by
  simp only [rounds_succ, rounds_zero] at last
  have back := eq_of_round (eq_of_round (eq_of_round (eq_of_round last)))
  rw [back]
  rcases item_cases small with rfl | rfl | rfl <;> decide +kernel

/-- **No item of the draw is hashed to the most negative word.** -/
theorem rounds_ne_mostNegative {v : UInt64} (high : v.toNat ≤ 10000000001) :
    rounds 8 v FNV_OFFSET_BASIS_64 ≠ mostNegative := by
  intro hit
  set w := v >>> 8 >>> 8 >>> 8 >>> 8 with shifted
  have small : w.toNat ≤ 2 := by
    have eight : (8 : UInt64).toNat % 64 = 8 := by decide
    rw [shifted]
    simp only [UInt64.toNat_shiftRight, Nat.shiftRight_eq_div_pow, eight]
    omega
  have halves : rounds 8 v FNV_OFFSET_BASIS_64 = rounds 4 w (rounds 4 v FNV_OFFSET_BASIS_64) := by
    simp only [rounds_succ, rounds_zero, shifted]
  have word := word_before small (halves.symm.trans hit)
  have near := rounds_near separator 4 v FNV_OFFSET_BASIS_64
  rw [word] at near
  revert near
  rcases item_cases small with same | same | same <;> rw [same] <;> decide +kernel

/-! ### The keys -/

theorem labs_nonneg {x : Int64} (ne : x.toUInt64 ≠ mostNegative) : 0 ≤ (labs x).toInt := by
  have minimum : mostNegative.toBitVec = BitVec.intMin 64 := by decide +kernel
  have word : x.toBitVec ≠ BitVec.intMin 64 := fun eq => ne (UInt64.toBitVec_inj.mp (eq.trans minimum.symm))
  have absolute : (labs x).toInt = x.toBitVec.toInt.natAbs := BitVec.toInt_abs_eq_natAbs_of_ne_intMin word
  rw [absolute]
  exact Int.natCast_nonneg _

theorem fnvhash64_nonneg {v : UInt64} (high : v.toNat ≤ 10000000001) : 0 ≤ (fnvhash64 v).toInt64.toInt := by
  unfold fnvhash64
  rw [Int64.toInt64_toUInt64]
  exact labs_nonneg (by rw [UInt64.toUInt64_toInt64]; exact rounds_ne_mostNegative high)

/-- **Every key is in range**, for every range whose size is a `long` and every item the inner Zipfian generator may
draw. `fnvhash64` returns `labs` of its last word, so the one word to look at is the most negative one, which `labs`
leaves as it is: no item that can be drawn is hashed to it. -/
theorem draw_mem_range (min max v : Int64) (nonempty : min ≤ max) (fits : max.toInt - min.toInt + 1 < 2 ^ 63)
    (low : 0 ≤ v) (high : v ≤ 10000000001) : min ≤ (new min max).draw v ∧ (new min max).draw v ≤ max := by
  have item : v.toUInt64.toNat ≤ 10000000001 := by
    have bound := Int64.le_iff_toInt_le.mp high
    have literal : (10000000001 : Int64).toInt = 10000000001 := by decide
    rw [Int64.toNat_toUInt64_of_le low, ← Int64.toNat_toInt]
    omega
  have hash := fnvhash64_nonneg item
  have count : (new min max).itemcount.toInt = max.toInt - min.toInt + 1 := by
    have one : (1 : Int64).toInt = 1 := by decide
    have order := Int64.le_iff_toInt_le.mp nonempty
    unfold new
    rw [Int64.toInt_add, Int64.toInt_sub, one, Int.bmod_add_bmod]
    exact Int.bmod_eq_of_le (by omega) (by omega)
  have order := Int64.le_iff_toInt_le.mp nonempty
  have remainder := Int.tmod_nonneg (new min max).itemcount.toInt hash
  have less := Int.tmod_lt_of_pos (fnvhash64 v.toUInt64).toInt64.toInt (b := (new min max).itemcount.toInt) (by omega)
  have sum : ((new min max).draw v).toInt =
      (min.toInt + (fnvhash64 v.toUInt64).toInt64.toInt.tmod (new min max).itemcount.toInt).bmod (2 ^ 64) := by
    unfold draw
    rw [Int64.toInt_add, Int64.toInt_mod]
    rfl
  generalize (fnvhash64 v.toUInt64).toInt64.toInt.tmod (new min max).itemcount.toInt = offset at remainder less sum
  have lower := min.le_toInt
  have upper := max.toInt_lt
  rw [Int.bmod_eq_of_le (by omega) (by omega)] at sum
  rw [Int64.le_iff_toInt_le, Int64.le_iff_toInt_le, sum]
  omega

theorem draw_mem_range_last : (0 : Int64) ≤ (new 0 99).draw 10000000001 ∧ (new 0 99).draw 10000000001 ≤ 99 :=
  draw_mem_range 0 99 10000000001 (by decide) (by decide) (by decide) (by decide)

end ScrambledZipfian

end KvPaxos
