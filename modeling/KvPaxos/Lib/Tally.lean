import Mathlib.Algebra.BigOperators.Group.Finset.Basic
import Mathlib.Algebra.Order.BigOperators.Group.Finset
import Mathlib.Algebra.Order.BigOperators.Group.List

/-!
# Sums of counters that are still counting

A loop that adds up one counter after another while other threads raise them reads no state of the counters
that ever was. What it comes to is `worth`: the sum so far and what the counters still to be read hold now.
Reading a counter does not change it, raising one does not lower it, and raises no more than the total.
-/

namespace KvPaxos.Lib

/-- The counters still to be read, and the sum of those that have been read. -/
structure Tally (ι M : Type*) where
  left : List ι
  sum : M

namespace Tally

variable {ι M : Type*}

section Sum

variable [AddCommMonoid M]

def start (order : List ι) : Tally ι M := ⟨order, 0⟩

/-- The next counter is read; there is none at the end. -/
def next (t : Tally ι M) (c : ι → M) : Option (Tally ι M) :=
  match t.left with
  | [] => none
  | p :: rest => some ⟨rest, t.sum + c p⟩

/-- What the loop comes to if no counter changes any more. -/
def worth (t : Tally ι M) (c : ι → M) : M := t.sum + (t.left.map c).sum

variable {t t' : Tally ι M} {c : ι → M}

theorem next_eq_some : t.next c = some t' ↔ ∃ p, t.left = p :: t'.left ∧ t'.sum = t.sum + c p := by
  unfold next
  cases left : t.left with
  | nil => simp
  | cons p rest =>
    constructor
    · rintro ⟨⟩
      exact ⟨p, rfl, rfl⟩
    · rintro ⟨q, same, sum⟩
      cases same
      show some (⟨t'.left, t.sum + c p⟩ : Tally ι M) = some t'
      rw [← sum]

theorem next_eq_none : t.next c = none ↔ t.left = [] := by
  unfold next
  cases t.left <;> simp

theorem worth_next (h : t.next c = some t') : t'.worth c = t.worth c := by
  obtain ⟨p, left, sum⟩ := next_eq_some.mp h
  rw [worth, worth, left, sum, List.map_cons, List.sum_cons, add_assoc]

theorem worth_end (h : t.next c = none) : t.worth c = t.sum := by
  rw [worth, next_eq_none.mp h, List.map_nil, List.sum_nil, add_zero]

theorem nodup_next (nodup : t.left.Nodup) (h : t.next c = some t') : t'.left.Nodup := by
  obtain ⟨p, left, -⟩ := next_eq_some.mp h
  rw [left] at nodup
  exact nodup.of_cons

theorem length_next (h : t.next c = some t') : t.left.length = t'.left.length + 1 := by
  obtain ⟨p, left, -⟩ := next_eq_some.mp h
  rw [left, List.length_cons]

variable [DecidableEq ι]

theorem worth_eq (nodup : t.left.Nodup) : t.worth c = t.sum + ∑ p ∈ t.left.toFinset, c p := by
  rw [worth, List.sum_toFinset c nodup]

variable [Fintype ι]

theorem worth_start {order : List ι} (nodup : order.Nodup) (all : order.toFinset = Finset.univ) :
    (start order).worth c = ∑ p, c p := by
  rw [worth_eq nodup]
  show 0 + ∑ p ∈ order.toFinset, c p = _
  rw [zero_add, all]

end Sum

section Order

variable [AddCommMonoid M] [PartialOrder M] [IsOrderedCancelAddMonoid M] {t : Tally ι M} {c c' : ι → M}

theorem worth_mono (grows : ∀ p, c p ≤ c' p) : t.worth c ≤ t.worth c' :=
  add_le_add_right (List.sum_le_sum fun p _ => grows p) _

variable [DecidableEq ι] [Fintype ι]

/-- **A tally stays below the total** while the counters grow. -/
theorem worth_le (nodup : t.left.Nodup) (grows : ∀ p, c p ≤ c' p) (below : t.worth c ≤ ∑ p, c p) :
    t.worth c' ≤ ∑ p, c' p := by
  rw [worth_eq nodup, ← Finset.sum_add_sum_compl t.left.toFinset, add_comm] at below ⊢
  have read := le_of_add_le_add_left below
  have more : ∑ p ∈ t.left.toFinsetᶜ, c p ≤ ∑ p ∈ t.left.toFinsetᶜ, c' p := Finset.sum_le_sum fun p _ => grows p
  exact add_le_add_right (read.trans more) _

end Order

end Tally

end KvPaxos.Lib
