import Mathlib.Data.List.Induction

/-!
# Rows laid end to end

A list of rows stored as their concatenation and the list of the positions where each row
starts, closed by the total length: the compressed form in which sparse graphs are
exchanged. `segment` reads a row back from the two flat lists.
-/

namespace KvPaxos.Lib

variable {α : Type*}

/-- Where each row starts, counting from `start`, and where the last one ends. -/
def offsetsFrom (start : Nat) : List (List α) → List Nat
  | [] => [start]
  | row :: rows => start :: offsetsFrom (start + row.length) rows

/-- The entries between the offsets at `i` and `i + 1`. -/
def segment (offsets : List Nat) (entries : List α) (i : Nat) : List α :=
  let first := offsets.getD i 0
  (entries.drop first).take (offsets.getD (i + 1) 0 - first)

section Offsets

variable {start : Nat} {rows : List (List α)}

@[simp] theorem length_offsetsFrom : (offsetsFrom start rows).length = rows.length + 1 := by
  induction rows generalizing start with
  | nil => rfl
  | cons row rows ih => rw [offsetsFrom, List.length_cons, ih, List.length_cons]

theorem head_offsetsFrom : (offsetsFrom start rows)[0]? = some start := by
  cases rows <;> rfl

/-- One more row adds the offset of its end. -/
theorem offsetsFrom_snoc (row : List α) :
    offsetsFrom start (rows ++ [row]) =
      offsetsFrom start rows ++ [start + rows.flatten.length + row.length] := by
  induction rows generalizing start with
  | nil => rfl
  | cons first rows ih =>
    rw [List.cons_append, offsetsFrom, ih, offsetsFrom, List.flatten_cons, List.length_append, ← Nat.add_assoc,
      List.cons_append]

theorem last_offsetsFrom : (offsetsFrom start rows).getLast? = some (start + rows.flatten.length) := by
  induction rows using List.reverseRecOn with
  | nil => rfl
  | append_singleton rows row ih =>
    rw [offsetsFrom_snoc, List.getLast?_append, List.flatten_append, List.length_append, List.flatten_singleton,
      ← Nat.add_assoc]
    rfl

theorem le_of_mem_offsetsFrom {n : Nat} (h : n ∈ offsetsFrom start rows) : start ≤ n := by
  induction rows generalizing start with
  | nil =>
    rw [offsetsFrom, List.mem_singleton] at h
    omega
  | cons row rows ih =>
    rw [offsetsFrom, List.mem_cons] at h
    rcases h with rfl | h
    · exact Nat.le_refl _
    · have := ih h
      omega

/-- The offsets never go back. -/
theorem offsetsFrom_pairwise : (offsetsFrom start rows).Pairwise (· ≤ ·) := by
  induction rows generalizing start with
  | nil => exact List.pairwise_singleton _ _
  | cons row rows ih =>
    refine List.pairwise_cons.mpr ⟨fun n h => ?_, ih⟩
    have := le_of_mem_offsetsFrom h
    omega

/-- The offset of row `i` is the length of the rows before it. -/
theorem getD_offsetsFrom {i : Nat} (hi : i ≤ rows.length) :
    (offsetsFrom start rows).getD i 0 = start + (rows.take i).flatten.length := by
  induction rows generalizing start i with
  | nil =>
    obtain rfl : i = 0 := by simpa using hi
    rfl
  | cons row rows ih =>
    cases i with
    | zero => rfl
    | succ i =>
      rw [offsetsFrom, List.getD_cons_succ, ih (by simpa using hi), List.take_succ_cons, List.flatten_cons,
        List.length_append, Nat.add_assoc]

/-- **Reading a row back.** -/
theorem segment_flatten {i : Nat} {row : List α} (h : rows[i]? = some row) :
    segment (offsetsFrom 0 rows) rows.flatten i = row := by
  obtain ⟨hi, rfl⟩ := List.getElem?_eq_some_iff.mp h
  have split : rows.flatten = (rows.take i).flatten ++ (rows[i] ++ (rows.drop (i + 1)).flatten) := by
    conv_lhs => rw [← List.take_append_drop i rows]
    rw [List.flatten_append, List.drop_eq_getElem_cons hi, List.flatten_cons]
  have next : (rows.take (i + 1)).flatten.length = (rows.take i).flatten.length + rows[i].length := by
    rw [List.take_succ_eq_append_getElem hi, List.flatten_append, List.length_append, List.flatten_singleton]
  unfold segment
  dsimp only
  rw [getD_offsetsFrom (by omega), getD_offsetsFrom (by omega), next, Nat.zero_add, Nat.zero_add,
    Nat.add_sub_cancel_left, split, List.drop_left, List.take_left]

end Offsets

end KvPaxos.Lib
