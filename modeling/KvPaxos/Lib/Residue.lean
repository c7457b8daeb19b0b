import Mathlib.Tactic.Ring
import Mathlib.Tactic.Linarith
import Mathlib.Algebra.GroupWithZero.Nat

/-!
# The distance to the multiples of a number

`distance M x` is how far `x` is from the nearest multiple of `M`. It does not change when a multiple is
added and it is subadditive, so a sum of few small terms is near the multiples: a number that is far
from them is no such sum.
-/

namespace KvPaxos.Lib

variable {M : Nat} {x y : Int}

/-- How far `x` is from the nearest multiple of `M`. -/
def distance (M : Nat) (x : Int) : Nat := (x.bmod M).natAbs

theorem distance_add_mul (x k : Int) : distance M (x + M * k) = distance M x := by
  unfold distance
  rw [Int.add_mul_bmod_self_left]

/-- No multiple is nearer than the nearest. -/
theorem distance_le (positive : 0 < M) (x : Int) : distance M x ≤ x.natAbs := by
  have upper := Int.bmod_le (x := x) positive
  have lower := Int.le_bmod (x := x) positive
  unfold distance
  by_cases small : -(M / 2 : Int) ≤ x ∧ x < ((M + 1) / 2 : Int)
  · rw [Int.bmod_eq_of_le small.1 small.2]
  · omega

theorem distance_le_of_eq (positive : 0 < M) {k : Int} (eq : x = y + M * k) : distance M x ≤ y.natAbs := by
  rw [eq, distance_add_mul]
  exact distance_le positive y

/-- The nearest multiple. -/
theorem exists_nearest (M : Nat) (x : Int) : ∃ r k : Int, x = r + M * k ∧ r.natAbs = distance M x :=
  ⟨x.bmod M, x.bdiv M, (Int.bmod_add_bdiv x M).symm, rfl⟩

theorem distance_add_le (positive : 0 < M) (x y : Int) : distance M (x + y) ≤ distance M x + distance M y := by
  obtain ⟨r, k, eq, near⟩ := exists_nearest M x
  obtain ⟨r', k', eq', near'⟩ := exists_nearest M y
  have sum : x + y = (r + r') + M * (k + k') := by
    rw [eq, eq']
    ring
  calc distance M (x + y) ≤ (r + r').natAbs := distance_le_of_eq positive sum
    _ ≤ distance M x + distance M y := by
      rw [← near, ← near']
      exact Int.natAbs_add_le r r'

theorem distance_mul_le (positive : 0 < M) (x y : Int) : distance M (x * y) ≤ distance M x * y.natAbs := by
  obtain ⟨r, k, eq, near⟩ := exists_nearest M x
  have product : x * y = r * y + M * (k * y) := by
    rw [eq]
    ring
  calc distance M (x * y) ≤ (r * y).natAbs := distance_le_of_eq positive product
    _ = distance M x * y.natAbs := by rw [Int.natAbs_mul, near]

end KvPaxos.Lib
