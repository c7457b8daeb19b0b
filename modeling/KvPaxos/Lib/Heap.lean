import Mathlib.Logic.Function.Basic
import Mathlib.Data.Option.Basic

/-!
# A heap of objects with `new` and `delete`

A pointer is the identity of the object it points to, so `new` never gives a pointer twice:
what depends on an address being used again is outside the model. `bounded` keeps the
pointers to come free, and every operation carries it along.
-/

namespace KvPaxos.Lib

/-- The objects that live, and the pointer the next `new` gives. -/
structure Heap (α : Type*) where
  cells : Nat → Option α
  next : Nat
  bounded : ∀ p, next ≤ p → cells p = none

namespace Heap

variable {α : Type*} (h : Heap α) (p : Nat) (a : α)

/-- No object has been made. -/
def empty : Heap α where
  cells := fun _ => none
  next := 0
  bounded := fun _ _ => rfl

/-- `new`, which gives the pointer `h.next`. -/
def new : Heap α where
  cells := Function.update h.cells h.next (some a)
  next := h.next + 1
  bounded q le := by
    rw [Function.update_of_ne (by omega)]
    exact h.bounded q (by omega)

/-- `delete p`. -/
def delete : Heap α where
  cells := Function.update h.cells p none
  next := h.next
  bounded q le := by
    rw [Function.update_apply]
    split
    · rfl
    · exact h.bounded q le

/-- `*p = a`, for a `p` that lives; it has no effect on any other. -/
def write : Heap α where
  cells := Function.update h.cells p ((h.cells p).map fun _ => a)
  next := h.next
  bounded q le := by
    rw [Function.update_apply]
    split
    · rename_i eq
      rw [← eq, h.bounded q le, Option.map_none]
    · exact h.bounded q le

/-- The pointer points to an object. -/
def Live : Prop := (h.cells p).isSome = true

variable {h p a}

theorem Live.lt (live : h.Live p) : p < h.next := by
  by_contra le
  rw [Live, h.bounded p (by omega)] at live
  cases live

theorem live_new_self : (h.new a).Live h.next := by
  simp [Live, new]

theorem Live.new (live : h.Live p) : (h.new a).Live p := by
  have ne : p ≠ h.next := Nat.ne_of_lt live.lt
  simpa [Live, Heap.new, ne] using live

theorem Live.delete {q : Nat} (live : h.Live p) (ne : p ≠ q) : (h.delete q).Live p := by
  simpa [Live, Heap.delete, ne] using live

theorem Live.write {q : Nat} (live : h.Live p) : (h.write q a).Live p := by
  show (Function.update h.cells q _ p).isSome = true
  rw [Function.update_apply]
  split
  · rename_i eq
    rw [Option.isSome_map, ← eq]
    exact live
  · exact live

end Heap

end KvPaxos.Lib
