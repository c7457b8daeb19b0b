import Mathlib.Data.List.Nodup
import Mathlib.Data.List.Pairwise

/-!
# FIFO lanes with shared fences

Lanes are handled independently, each in its own order. Some entries are fences: the same
fence stands in several lanes, and no lane gets past it before all of them have reached
it. `Precedes line fence p i q j` is the order this forces between entry `i` of lane `p`
and position `j` of lane `q`: same lane and earlier, or through a fence whose other copy
stands before `j`. It only looks at the lines, so it is proved while entries are appended
and used (`Precedes.handled`) at any later moment of the lanes' progress.
-/

namespace KvPaxos.Lib.Lanes

variable {ι ε β : Type*}

/-- The fence at position `i` of a line. -/
def fenceAt (fence : ε → Option β) (l : List ε) (i : Nat) : Option β :=
  l[i]?.bind fence

/-- Entry `i` of lane `p` is handled before position `j` of lane `q` is reached. -/
inductive Precedes (line : ι → List ε) (fence : ε → Option β) (p : ι) (i : Nat) : ι → Nat → Prop
  | queue {j : Nat} : i < j → Precedes line fence p i p j
  | fence {q r : ι} {a c j : Nat} {b : β} : Precedes line fence p i q a →
      fenceAt fence (line q) a = some b → fenceAt fence (line r) c = some b → c < j →
      Precedes line fence p i r j

section Lines

variable {line line' : ι → List ε} {fence : ε → Option β} {p q : ι} {i j j' : Nat}

theorem fenceAt_append {l l' : List ε} {b : β} (h : fenceAt fence l i = some b) :
    fenceAt fence (l ++ l') i = some b := by
  obtain ⟨e, he, hb⟩ := Option.bind_eq_some_iff.mp h
  rw [fenceAt, List.getElem?_append_left (List.getElem?_eq_some_iff.mp he).1, he]
  exact hb

/-- The entry between two parts of a line. -/
theorem fenceAt_between {l pre post : List ε} {e : ε} {b : β} (h : l = pre ++ e :: post)
    (hb : fence e = some b) : fenceAt fence l pre.length = some b := by
  rw [fenceAt, h, List.getElem?_append_right (Nat.le_refl _), Nat.sub_self]
  exact hb

/-- Later positions of the target lane are preceded too. -/
theorem Precedes.later (h : Precedes line fence p i q j) (le : j ≤ j') :
    Precedes line fence p i q j' := by
  cases h with
  | queue lt => exact .queue (by omega)
  | fence before hq hr lt => exact .fence before hq hr (by omega)

/-- Appending to the lanes keeps the order. -/
theorem Precedes.append (more : ι → List ε) (grow : ∀ r, line' r = line r ++ more r)
    (h : Precedes line fence p i q j) : Precedes line' fence p i q j := by
  induction h with
  | queue lt => exact .queue lt
  | @fence q r a c j b _ hq hr lt ih =>
    have hq' : fenceAt fence (line' q) a = some b := by rw [grow]; exact fenceAt_append hq
    have hr' : fenceAt fence (line' r) c = some b := by rw [grow]; exact fenceAt_append hr
    exact .fence ih hq' hr' lt

/-- **What the order is for.** If no lane is past a fence that some lane has not reached,
then a lane that has reached position `j` finds every entry preceding it handled. -/
theorem Precedes.handled (handled : ι → Nat)
    (fenced : ∀ r c b, fenceAt fence (line r) c = some b → c < handled r →
      ∀ s a, fenceAt fence (line s) a = some b → a ≤ handled s)
    (h : Precedes line fence p i q j) (reached : j ≤ handled q) : i < handled p := by
  induction h with
  | queue lt => omega
  | fence _ hq hr lt ih => exact ih (fenced _ _ _ hr (by omega) _ _ hq)

end Lines

section Unique

variable {key : ε → Nat} {l : List ε} {i j : Nat} {e f : ε}

/-- In a line of increasing keys an entry is found at one position. -/
theorem position_unique (sorted : l.Pairwise fun x y => key x < key y)
    (hi : l[i]? = some e) (hj : l[j]? = some f) (same : key e = key f) : i = j := by
  obtain ⟨li, rfl⟩ := List.getElem?_eq_some_iff.mp hi
  obtain ⟨lj, rfl⟩ := List.getElem?_eq_some_iff.mp hj
  have pairs := List.pairwise_iff_getElem.mp sorted
  rcases Nat.lt_trichotomy i j with lt | eq | gt
  · have := pairs i j li lj lt
    omega
  · exact eq
  · have := pairs j i lj li gt
    omega

end Unique

end KvPaxos.Lib.Lanes
