import Mathlib.Algebra.GroupWithZero.Nat
import Mathlib.Data.Fin.Basic

/-!
# Two parties

The two parties of an exchange are the elements of `Fin 2`, and the other one of `h` is
`h + 1`. The instance is a constant, so that the literals 0 and 1 are the same terms
wherever they are written.
-/

namespace KvPaxos.Lib

instance neZeroTwo : NeZero 2 := ⟨Nat.succ_ne_zero 1⟩

theorem other_ne (h : Fin 2) : h + 1 ≠ h := by
  revert h
  decide

theorem other_other (h : Fin 2) : h + 1 + 1 = h := by
  revert h
  decide

theorem eq_or_other (h h' : Fin 2) : h' = h ∨ h' = h + 1 := by
  revert h h'
  decide

end KvPaxos.Lib
