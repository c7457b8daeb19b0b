import KvPaxos.Storage.Storage

/-!
# Executing requests one by one

The meaning of a sequence of requests without schedulers and workers: each is executed on
the storage its predecessors have left. `execute` is the whole run, `storageBefore` the
storage a request meets, and `execute_spec` reads one off the other. The answers of a
uniform storage depend only on which keys it holds (`scan_uniform`).
-/

namespace KvPaxos

open Lib

/-- `std::copy` of the values to an `ostream_iterator` with delimiter `","`. -/
def joinValues (values : List (List Char)) : List Char :=
  values.flatMap fun v => v ++ [',']

/-- The answer of a failed SCAN and of an ERROR message. -/
def errorAnswer : List Char := ['E', 'R', 'R', 'O', 'R']

namespace Sequential

variable (z : Compresser)

/-- What a request leaves of the storage. -/
def apply (s : Storage) (m : ClientMessage) : Storage :=
  if m.type = .WRITE then s.write z m.key m.args else s

/-- The answer of a request and whether it counts as an error; `none` where the process ends. -/
def answer (s : Storage) (m : ClientMessage) : Option (List Char × Bool) :=
  match m.type with
  | .READ => (s.read z m.key).map fun value => (value, false)
  | .WRITE => some (m.args, false)
  | .SCAN => m.range.map fun length =>
    match s.scan z m.key length with
    | some values => (joinValues values, false)
    | none => (errorAnswer, true)
  | .ERROR => some (errorAnswer, false)
  | _ => some ([], false)

/-- What a run one by one comes to. -/
structure Outcome where
  storage : Storage
  answers : List (List Char) := []
  errors : Nat := 0

/-- The requests executed one by one. -/
def execute : Storage → List ClientMessage → Option Outcome
  | s, [] => some { storage := s }
  | s, m :: ms => (answer z s m).bind fun (text, failed) =>
    (execute (apply z s m) ms).map fun rest =>
      { rest with answers := text :: rest.answers, errors := failed.toNat + rest.errors }

/-- The storage request `k` meets. -/
def storageBefore (s : Storage) (ms : List ClientMessage) (k : Nat) : Storage :=
  (ms.take k).foldl (apply z) s

/-- Request `k` counts as an error. -/
def failsAt (s : Storage) (ms : List ClientMessage) (k : Nat) : Bool :=
  match ms[k]? with
  | some m => match answer z (storageBefore z s ms k) m with
    | some (_, failed) => failed
    | none => false
  | none => false

variable {z} {s : Storage} {ms : List ClientMessage} {k : Nat} {m : ClientMessage}

theorem storageBefore_cons : storageBefore z s (m :: ms) (k + 1) = storageBefore z (apply z s m) ms k := rfl

theorem failsAt_cons : failsAt z s (m :: ms) (k + 1) = failsAt z (apply z s m) ms k := rfl

theorem failsAt_eq {text : List Char} {failed : Bool} (hm : ms[k]? = some m)
    (h : answer z (storageBefore z s ms k) m = some (text, failed)) : failsAt z s ms k = failed := by
  simp only [failsAt, hm, h]

/-- **The run request by request.** If every request has an answer on the storage it meets, the run
gives those answers, their errors and the last storage. -/
theorem execute_spec (answers : ∀ k m, ms[k]? = some m → (answer z (storageBefore z s ms k) m).isSome) :
    ∃ outcome, execute z s ms = some outcome ∧ outcome.storage = storageBefore z s ms ms.length ∧
      outcome.errors = (List.range ms.length).countP (failsAt z s ms) ∧
      outcome.answers.length = ms.length ∧
      ∀ (k : Nat) (m : ClientMessage), ms[k]? = some m → ∃ text failed,
        answer z (storageBefore z s ms k) m = some (text, failed) ∧ outcome.answers[k]? = some text := by
  induction ms generalizing s with
  | nil => exact ⟨_, rfl, rfl, rfl, rfl, fun k m h => absurd h (by simp)⟩
  | cons m ms ih =>
    obtain ⟨⟨text, failed⟩, first⟩ := Option.isSome_iff_exists.mp (answers 0 m rfl)
    obtain ⟨rest, run, storage, errors, length, each⟩ := ih (s := apply z s m) fun k r hr => answers (k + 1) r hr
    refine ⟨{ rest with answers := text :: rest.answers, errors := failed.toNat + rest.errors }, ?_, storage,
      ?_, ?_, fun k r hr => ?_⟩
    · have now : answer z s m = some (text, failed) := first
      simp only [execute, now, run, Option.bind_some, Option.map_some]
    · have head : failsAt z s (m :: ms) 0 = failed := failsAt_eq rfl first
      have tail : failsAt z s (m :: ms) ∘ Nat.succ = failsAt z (apply z s m) ms := funext fun k => failsAt_cons
      simp only [List.length_cons, List.range_succ_eq_map, List.countP_cons, List.countP_map, head, tail, errors]
      cases failed <;> simp [Nat.add_comm]
    · simp only [List.length_cons, length]
    · cases k with
      | zero =>
        cases hr
        exact ⟨text, failed, first, rfl⟩
      | succ k => exact each k r hr

section Keys

theorem Uniform.apply (h : s.Uniform z) (m : ClientMessage) : (apply z s m).Uniform z := by
  unfold Sequential.apply
  split
  · exact h.write _ _
  · exact h

theorem Uniform.storageBefore (h : s.Uniform z) (ms : List ClientMessage) (k : Nat) :
    (storageBefore z s ms k).Uniform z := by
  induction k generalizing s ms with
  | zero => exact h
  | succ k ih =>
    cases ms with
    | nil => exact h
    | cons m ms => exact ih (Uniform.apply h m) ms

/-- The keys a request meets: those at the start and those written before it. -/
theorem mem_storageBefore (x : Int) : x ∈ storageBefore z s ms k ↔
    x ∈ s ∨ ∃ j < k, ∃ r, ms[j]? = some r ∧ r.type = .WRITE ∧ r.key = x := by
  induction k generalizing s ms with
  | zero => simp [storageBefore]
  | succ k ih =>
    cases ms with
    | nil => simp [storageBefore]
    | cons m ms =>
      rw [storageBefore_cons, ih]
      have first : x ∈ apply z s m ↔ x ∈ s ∨ m.type = .WRITE ∧ m.key = x := by
        unfold apply
        split
        · rename_i write
          rw [Storage.mem_write]
          simp [write, eq_comm, or_comm]
        · rename_i other
          simp [other]
      rw [first, or_assoc]
      refine or_congr_right ⟨?_, ?_⟩
      · rintro (⟨write, key⟩ | ⟨j, lt, r, hr, h⟩)
        · exact ⟨0, Nat.succ_pos k, m, rfl, write, key⟩
        · exact ⟨j + 1, by omega, r, hr, h⟩
      · rintro ⟨j, lt, r, hr, h⟩
        cases j with
        | zero =>
          cases hr
          exact Or.inl h
        | succ j => exact Or.inr ⟨j, by omega, r, hr, h⟩

end Keys

section Scan

theorem mapM_ite {α β : Type} (P : α → Prop) [DecidablePred P] (c : β) (l : List α) :
    (l.mapM fun a => if P a then some c else none) =
      if ∀ a ∈ l, P a then some (List.replicate l.length c) else none := by
  induction l with
  | nil => simp
  | cons a l ih =>
    rw [List.mapM_cons, ih]
    by_cases ha : P a
    · by_cases hl : ∀ b ∈ l, P b
      · rw [if_pos ha, if_pos hl, if_pos (List.forall_mem_cons.mpr ⟨ha, hl⟩)]
        rfl
      · rw [if_pos ha, if_neg hl, if_neg fun h => hl (List.forall_mem_cons.mp h).2]
        rfl
    · rw [if_neg ha, if_neg fun h => ha (List.forall_mem_cons.mp h).1]
      rfl

/-- A SCAN of a uniform storage succeeds if all its reduced keys are stored. -/
theorem scan_uniform (uniform : s.Uniform z) (start length : Int) :
    s.scan z start length = if ∀ i < length.toNat, s.scanKey (start + i) ∈ s then
      some (List.replicate length.toNat (Storage.uniformValue z)) else none := by
  unfold Storage.scan
  simp only [uniform.read]
  rw [mapM_ite (fun i : Nat => s.scanKey (start + i) ∈ s) (Storage.uniformValue z),
    List.length_range]
  exact if_congr (by simp only [List.mem_range]) rfl rfl

end Scan

end Sequential

end KvPaxos
