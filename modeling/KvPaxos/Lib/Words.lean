import Mathlib.Data.Nat.Basic
import Mathlib.Algebra.Group.Int.Defs
import Mathlib.Algebra.GroupWithZero.Nat

/-!
# Counts in machine words

A count kept in a 32-bit signed word, up to its first wrap-around and in the one that follows, and what
the word is when it is converted to an unsigned word of 64 bits.
-/

namespace KvPaxos.Lib

variable {d : Nat}

theorem ofNat_succ (d : Nat) : Int32.ofNat (d + 1) = Int32.ofNat d + 1 := Int32.ofNat_add d 1

/-- From `2 ^ 31` on the word is negative. -/
theorem toInt_wrapped (low : 2 ^ 31 ≤ d) (high : d < 2 ^ 32) : (Int32.ofNat d).toInt = (d : Int) - 2 ^ 32 := by
  have shift : (d : Int) = (d - 2 ^ 32 : Int) + Int32.size := by
    rw [Int32.size]
    omega
  rw [Int32.toInt_ofNat', shift, Int.add_bmod_right, Int.bmod_eq_of_le] <;> (rw [Int32.size]; omega)

/-- The conversion to 64 bits extends the sign. -/
theorem toNat_converted (x : Int32) : (x.toInt64.toUInt64.toNat : Int) = x.toInt % 2 ^ 64 := by
  have word : x.toInt64.toInt = (x.toInt64.toUInt64.toNat : Int).bmod (2 ^ 64) := BitVec.toInt_eq_toNat_bmod _
  have lt := x.toInt64.toUInt64.toNat_lt
  have reduced := Int.bmod_emod (x := x.toInt64.toUInt64.toNat) (m := 2 ^ 64)
  rw [Int32.toInt_toInt64] at word
  rw [← word] at reduced
  omega

theorem toNat_succ {p : Nat} (small : p + 1 < 2 ^ 64) : (UInt64.ofNat p + 1).toNat = p + 1 := by
  rw [← UInt64.ofNat_one, ← UInt64.ofNat_add, UInt64.toNat_ofNat_of_lt' small]

end KvPaxos.Lib
