import KvPaxos.Scheduler.Pool

/-!
# One worker, message by message

`Partition::thread_loop` from one `pop_request` to the next, with nothing else running. The `catch`
of `thread_loop` is around `Storage::scan` only: what `Storage::read` throws for a READ leaves the
thread function and ends the process.

`handle` is one turn of the loop, `run` a sequence of messages, and `handle_alone` says that a
worker of the pool that moves alone does what `handle` computes.
-/

namespace KvPaxos

open Lib

namespace ThreadLoop

/-- What a turn of the loop changes. -/
structure State where
  storage : Storage
  nExecutedRequests : Nat := 0
  errorCount : Nat := 0

/-- `n_executed_requests_++`. -/
def State.count (s : State) : State := { s with nExecutedRequests := s.nExecutedRequests + 1 }

/-- What the `try` around `scan` makes of its values, or of what it throws. -/
def State.scanned (s : State) : Option (List (List Char)) → List Char × State
  | some values => (joinValues values, s.count)
  | none => (errorAnswer, { s.count with errorCount := s.errorCount + 1 })

variable (z : Compresser)

/-- The `switch` for one message and the count behind it, with the answer; `none` where the process
ends. A SYNC has passed its barrier. -/
def handle (s : State) (m : ClientMessage) : Option (List Char × State) :=
  match m.type with
  | .READ => (s.storage.read z m.key).map fun answer => (answer, s.count)
  | .WRITE => some (m.args, { s.count with storage := s.storage.write z m.key m.args })
  | .SCAN => m.range.bind fun length =>
    -- the modulo of `scan` traps on an empty storage
    if 0 < length ∧ UnorderedMap.size s.storage = 0 then none
    else some (s.scanned (s.storage.scan z m.key length))
  | .SYNC => some ([], s)
  | .ERROR => some (errorAnswer, s.count)
  | _ => some ([], s.count)

/-- The loop over a sequence of messages, with the answers. -/
def run : State → List ClientMessage → Option (List (List Char) × State)
  | s, [] => some ([], s)
  | s, m :: ms => (handle z s m).bind fun (answer, s) =>
    (run s ms).map fun (answers, s) => (answer :: answers, s)

/-- Some storage access of the message meets a key that is not stored. -/
def Fails (s : Storage) (m : ClientMessage) : Prop :=
  match m.type with
  | .READ => m.key ∉ s
  | .SCAN => ∃ i < (m.range.getD 0).toNat, s.scanKey (m.key + i) ∉ s
  | _ => False

/-- What a turn of the loop owes for the message: a count, and for a failed access the answer
ERROR, a count of the error and the storage as it was. -/
structure Answers (s : State) (m : ClientMessage) (answer : List Char) (s' : State) : Prop where
  executed : s'.nExecutedRequests = s.nExecutedRequests + if m.type = .SYNC then 0 else 1
  failed : Fails s.storage m → answer = errorAnswer ∧ s'.errorCount = s.errorCount + 1 ∧ s'.storage = s.storage
  succeeded : ¬ Fails s.storage m → s'.errorCount = s.errorCount

/-- Every message of the sequence is answered as owed, one after the other. -/
def Served : State → List ClientMessage → Prop
  | _, [] => True
  | s, m :: ms => ∃ answer s', handle z s m = some (answer, s') ∧ Answers s m answer s' ∧ Served s' ms

/-- A READ, WRITE or SCAN, with a readable length of at least 1, of any key. -/
structure IsOperation (m : ClientMessage) : Prop where
  type : m.type = .READ ∨ m.type = .WRITE ∨ m.type = .SCAN
  range : ∃ r, m.range = some r ∧ 1 ≤ r

variable {z} {s : State} {m : ClientMessage} {ms : List ClientMessage}

/-- The run of a served sequence gives an answer to each message and counts each. -/
theorem Served.run (served : Served z s ms) (sync : ∀ m ∈ ms, m.type ≠ .SYNC) :
    ∃ answers s', run z s ms = some (answers, s') ∧ answers.length = ms.length ∧
      s'.nExecutedRequests = s.nExecutedRequests + ms.length := by
  induction ms generalizing s with
  | nil => exact ⟨[], s, rfl, rfl, rfl⟩
  | cons m ms ih =>
    obtain ⟨answer, s₁, handled, answers, rest⟩ := served
    obtain ⟨texts, s', done, length, count⟩ := ih rest fun r mem => sync r (List.mem_cons_of_mem _ mem)
    have one := answers.executed
    rw [if_neg (sync m List.mem_cons_self)] at one
    refine ⟨answer :: texts, s', ?_, by rw [List.length_cons, List.length_cons, length], ?_⟩
    · simp only [ThreadLoop.run, handled, Option.bind_some, done, Option.map_some]
    · rw [count, one, List.length_cons]
      omega

theorem isSome_read {storage : Storage} {k : Int} : (storage.read z k).isSome = true ↔ k ∈ storage := by
  rw [Storage.read, Option.isSome_map, Finmap.lookup_isSome]

theorem read_eq_none {storage : Storage} {k : Int} : storage.read z k = none ↔ k ∉ storage := by
  rw [Storage.read, Option.map_eq_none_iff, Finmap.lookup_eq_none]

theorem mapM_eq_none {α β : Type} (f : α → Option β) (l : List α) : l.mapM f = none ↔ ∃ a ∈ l, f a = none := by
  induction l with
  | nil => simp
  | cons a l ih =>
    rw [List.mapM_cons]
    cases ha : f a with
    | none => exact iff_of_true rfl ⟨a, List.mem_cons_self, ha⟩
    | some b =>
      cases hl : l.mapM f with
      | none =>
        obtain ⟨c, mem, none⟩ := ih.mp hl
        exact iff_of_true rfl ⟨c, List.mem_cons_of_mem _ mem, none⟩
      | some bs =>
        refine iff_of_false (fun h => nomatch h) ?_
        rintro ⟨c, mem, none⟩
        rcases List.mem_cons.mp mem with rfl | mem
        · rw [ha] at none
          cases none
        · have := ih.mpr ⟨c, mem, none⟩
          rw [hl] at this
          cases this

theorem scan_eq_none {storage : Storage} (start length : Int) :
    storage.scan z start length = none ↔ ∃ i < length.toNat, storage.scanKey (start + i) ∉ storage := by
  rw [Storage.scan, mapM_eq_none]
  simp only [List.mem_range, read_eq_none]

theorem IsOperation.not_sync (op : IsOperation m) : m.type ≠ .SYNC := by
  rcases op.type with type | type | type <;> rw [type] <;> decide

/-- A count is all that an answered message owes whose accesses succeed. -/
theorem Answers.of_count {answer : List Char} (storage : Storage) (sync : m.type ≠ .SYNC)
    (fine : ¬ Fails s.storage m) : Answers s m answer { s.count with storage := storage } := by
  refine ⟨?_, fun h => absurd h fine, fun _ => rfl⟩
  rw [if_neg sync]
  rfl

/-- **One turn.** On a storage that is not empty an operation is answered as owed exactly if it is
no READ of an absent key, and then it leaves the storage as its one-by-one execution does. -/
theorem handle_spec (op : IsOperation m) (stored : UnorderedMap.size s.storage ≠ 0) :
    ((∃ answer s', handle z s m = some (answer, s') ∧ Answers s m answer s') ↔
      (m.type = .READ → m.key ∈ s.storage)) ∧
    ∀ answer s', handle z s m = some (answer, s') → s'.storage = Sequential.apply z s.storage m := by
  obtain ⟨length, range, pos⟩ := op.range
  have sync := op.not_sync
  unfold Sequential.apply
  rcases op.type with type | type | type
  · have other : m.type ≠ .WRITE := by rw [type]; decide
    rw [if_neg other]
    cases found : s.storage.read z m.key with
    | none =>
      have absent := read_eq_none.mp found
      have ends : handle z s m = none := by simp only [handle, type, found, Option.map_none]
      rw [ends]
      refine ⟨iff_of_false ?_ fun h => absent (h type), fun answer s' h => nomatch h⟩
      rintro ⟨answer, s', h, -⟩
      cases h
    | some answer =>
      have present : m.key ∈ s.storage := isSome_read.mp (by rw [found]; rfl)
      have goes : handle z s m = some (answer, s.count) := by simp only [handle, type, found, Option.map_some]
      have fine : ¬ Fails s.storage m := by
        simp only [Fails, type]
        exact not_not_intro present
      rw [goes]
      refine ⟨iff_of_true ⟨answer, _, rfl, .of_count _ sync fine⟩ fun _ => present, fun answer' s' h => ?_⟩
      cases h
      rfl
  · have goes : handle z s m = some (m.args, { s.count with storage := s.storage.write z m.key m.args }) := by
      simp only [handle, type]
    have fine : ¬ Fails s.storage m := by
      simp only [Fails, type]
      exact not_false
    rw [if_pos type, goes]
    refine ⟨iff_of_true ⟨_, _, rfl, .of_count _ sync fine⟩ fun read => ?_, fun answer' s' h => ?_⟩
    · rw [type] at read
      cases read
    · cases h
      rfl
  · have other : m.type ≠ .WRITE := by rw [type]; decide
    have noRead : m.type = .READ → m.key ∈ s.storage := fun read => by
      rw [type] at read
      cases read
    have guard : ¬ (0 < length ∧ UnorderedMap.size s.storage = 0) := fun h => stored h.2
    have fails : Fails s.storage m ↔ s.storage.scan z m.key length = none := by
      rw [scan_eq_none]
      simp only [Fails, type, range, Option.getD_some]
    rw [if_neg other]
    cases scanned : s.storage.scan z m.key length with
    | none =>
      have goes : handle z s m = some (errorAnswer, { s.count with errorCount := s.errorCount + 1 }) := by
        simp only [handle, type, range, Option.bind_some, if_neg guard, scanned, State.scanned]
      have owed : Answers s m errorAnswer { s.count with errorCount := s.errorCount + 1 } := by
        refine ⟨?_, fun _ => ⟨rfl, rfl, rfl⟩, fun h => absurd (fails.mpr scanned) h⟩
        rw [if_neg sync]
        rfl
      rw [goes]
      refine ⟨iff_of_true ⟨_, _, rfl, owed⟩ noRead, fun answer' s' h => ?_⟩
      cases h
      rfl
    | some values =>
      have goes : handle z s m = some (joinValues values, s.count) := by
        simp only [handle, type, range, Option.bind_some, if_neg guard, scanned, State.scanned]
      have fine : ¬ Fails s.storage m := by
        rw [fails, scanned]
        exact Option.some_ne_none values
      rw [goes]
      refine ⟨iff_of_true ⟨_, _, rfl, .of_count _ sync fine⟩ noRead, fun answer' s' h => ?_⟩
      cases h
      rfl

theorem size_apply (stored : UnorderedMap.size s.storage ≠ 0) (m : ClientMessage) :
    UnorderedMap.size (Sequential.apply z s.storage m) ≠ 0 := by
  unfold Sequential.apply
  split
  · exact Storage.size_ne_zero (Storage.mem_write.mpr (Or.inl rfl))
  · exact stored

/-- The sequence is served if every READ meets its key. -/
theorem served_iff (ops : ∀ m ∈ ms, IsOperation m) (stored : UnorderedMap.size s.storage ≠ 0) :
    Served z s ms ↔ ∀ (k : Nat) (m : ClientMessage), ms[k]? = some m → m.type = .READ →
      m.key ∈ Sequential.storageBefore z s.storage ms k := by
  induction ms generalizing s with
  | nil => exact iff_of_true True.intro fun k m h => absurd h (by simp)
  | cons m ms ih =>
    obtain ⟨turn, leaves⟩ := handle_spec (z := z) (ops m List.mem_cons_self) stored
    have rest : ∀ {answer s'}, handle z s m = some (answer, s') → (Served z s' ms ↔
        ∀ (k : Nat) (r : ClientMessage), ms[k]? = some r → r.type = .READ →
          r.key ∈ Sequential.storageBefore z (Sequential.apply z s.storage m) ms k) := by
      intro answer s' handled
      have storage := leaves answer s' handled
      rw [← storage]
      refine ih (fun r mem => ops r (List.mem_cons_of_mem _ mem)) ?_
      rw [storage]
      exact size_apply stored m
    constructor
    · rintro ⟨answer, s', handled, answers, served⟩ k r hr read
      cases k with
      | zero =>
        cases hr
        exact turn.mp ⟨answer, s', handled, answers⟩ read
      | succ k => exact (rest handled).mp served k r hr read
    · intro all
      obtain ⟨answer, s', handled, answers⟩ := turn.mpr (all 0 m rfl)
      exact ⟨answer, s', handled, answers, (rest handled).mpr fun k r hr => all (k + 1) r hr⟩

/-- **A worker survives its requests** exactly if each READ is of a key that is stored at the start or written before
it in the sequence: `at` throws for any other, and `thread_loop` catches what `scan` throws only. A SCAN that fails is
counted and answered, and the loop goes on. -/
theorem requests_served_iff (z : Compresser) (s : State) (ms : List ClientMessage) (ops : ∀ m ∈ ms, IsOperation m)
    (stored : UnorderedMap.size s.storage ≠ 0) :
    Served z s ms ↔ ∀ (k : Nat) (m : ClientMessage), ms[k]? = some m → m.type = .READ →
      m.key ∈ s.storage ∨ ∃ j < k, ∃ r, ms[j]? = some r ∧ r.type = .WRITE ∧ r.key = m.key := by
  rw [served_iff ops stored]
  simp only [Sequential.mem_storageBefore]

/-- The zlib wrapper of the runs below; nothing is compressed. -/
def plain : Compresser := ⟨id, some⟩

/-- The storage with key 0. -/
def oneKey : State := { storage := Storage.populated plain [0] }

/-- A WRITE of key 5 and then a READ of it, and a SCAN that fails: each is answered. -/
theorem requests_served_after_write :
    Served plain oneKey [{ type := .WRITE, key := 5 }, { type := .READ, key := 5 },
      { type := .SCAN, key := 1, args := ['1'] }] := by
  refine (requests_served_iff plain oneKey _ ?_ (by decide)).mpr ?_
  · intro m mem
    simp only [List.mem_cons, List.not_mem_nil, or_false] at mem
    rcases mem with rfl | rfl | rfl
    · exact ⟨Or.inr (Or.inl rfl), 1, rfl, by decide⟩
    · exact ⟨Or.inl rfl, 1, rfl, by decide⟩
    · exact ⟨Or.inr (Or.inr rfl), 1, by decide, by decide⟩
  · intro k m hm read
    match k, hm with
    | 0, hm =>
      cases hm
      cases read
    | 1, hm =>
      cases hm
      exact Or.inr ⟨0, by decide, _, rfl, rfl, rfl⟩
    | 2, hm =>
      cases hm
      cases read

/-- A READ of a key that is not stored ends the process: no answer, no ERROR. -/
theorem read_terminates : IsOperation { type := .READ, key := 5 } ∧ UnorderedMap.size oneKey.storage ≠ 0 ∧
    handle plain oneKey { type := .READ, key := 5 } = none ∧
    ¬ Served plain oneKey [{ type := .READ, key := 5 }] := by
  have ends : handle plain oneKey { type := .READ, key := 5 } = none := by
    have absent : (5 : Int) ∉ oneKey.storage := by decide
    simp only [handle, read_eq_none.mpr absent, Option.map_none]
  refine ⟨⟨Or.inl rfl, 1, rfl, by decide⟩, by decide, ends, ?_⟩
  rintro ⟨answer, s', handled, -⟩
  rw [ends] at handled
  cases handled

/-! ### A worker of the pool that moves alone -/

section Alone

variable {n : Nat} {cfg : Config n} {p : Fin n} {t t' t'' : Pool.State n} {e : Entry}

/-- Some number of steps of worker `p` leads from `t` to `t'`. -/
def Alone (cfg : Config n) (p : Fin n) (t t' : Pool.State n) : Prop :=
  ∃ k, (Pool.system cfg).exec t (List.replicate k (.work p p)) = some t'

theorem Alone.refl (t : Pool.State n) : Alone cfg p t t := ⟨0, rfl⟩

theorem Alone.step (h : Pool.work cfg t p p = some t') (rest : Alone cfg p t' t'') : Alone cfg p t t'' := by
  obtain ⟨k, hk⟩ := rest
  refine ⟨k + 1, ?_⟩
  rw [List.replicate_succ]
  show ((Pool.system cfg).step t (.work p p)).bind _ = _
  rw [show (Pool.system cfg).step t (.work p p) = some t' from h]
  exact hk

/-- The worker's part of a state of the pool. -/
def view (t : Pool.State n) (p : Fin n) : State :=
  ⟨t.storage, (t.partitions p).nExecutedRequests, (t.partitions p).errorCount⟩

/-- The worker has answered `e` and waits for its next message. -/
def Answered (t : Pool.State n) (p : Fin n) (e : Entry) (answer : List Char) (s : State) : Prop :=
  (t.partitions p).worker = .waiting ∧ view t p = s ∧ .finish p e.number answer ∈ t.trace

/-- The count at the end of a turn. -/
theorem alone_count (cfg : Config n) {answer : List Char} (place : (t.partitions p).worker = .counting e answer) :
    ∃ t', Alone cfg p t t' ∧ Answered t' p e answer (view t p).count := by
  have step : Pool.work cfg t p p = some (t.put p { t.partitions p with
      worker := .waiting
      nExecutedRequests := (t.partitions p).nExecutedRequests + 1
      handled := (t.partitions p).handled + 1 } [.finish p e.number answer]) := by
    simp only [Pool.work, place]
  refine ⟨_, .step step (.refl _), ?_, ?_, ?_⟩
  · simp [Pool.State.put]
  · simp [view, State.count, Pool.State.put]
  · simp [Pool.State.put]

theorem view_put (t : Pool.State n) (part : Partition) (events : List (Event n)) :
    view (t.put p part events) p = ⟨t.storage, part.nExecutedRequests, part.errorCount⟩ := by
  simp [view, Pool.State.put]

/-- The loop of `scan` from iteration `i` on. -/
theorem alone_scan (cfg : Config n) {length : Int} {storage : Storage} (stored : 0 < length → UnorderedMap.size storage ≠ 0)
    (k : Nat) : ∀ {t : Pool.State n} {i : Nat} {values : List (List Char)} {result : List Char × State}, i + k = length.toNat →
      t.storage = storage → (t.partitions p).worker = .scanning e length i values →
      (view t p).scanned (((List.range' i k).mapM fun j : Nat =>
        storage.read cfg.compresser (storage.scanKey (e.message.key + j))).map (values ++ ·)) = result →
      ∃ t', Alone cfg p t t' ∧ Answered t' p e result.1 result.2 := by
  induction k with
  | zero =>
    rintro t i values result last same place rfl
    have past : ¬ (i : Int) < length := by omega
    have step : Pool.work cfg t p p = some (t.put p { t.partitions p with
        worker := .counting e (joinValues values) } []) := by
      simp only [Pool.work, place, if_neg past]
    have counting : ((t.put p { t.partitions p with worker := .counting e (joinValues values) } []).partitions p).worker =
        .counting e (joinValues values) := by simp [Pool.State.put]
    obtain ⟨t', alone, answered⟩ := alone_count cfg counting
    rw [view_put] at answered
    refine ⟨t', .step step alone, ?_⟩
    simpa [view, State.scanned] using answered
  | succ k ih =>
    rintro t i values result last rfl place rfl
    have more : (i : Int) < length := by omega
    have stored := stored (by omega)
    have key : Pool.work cfg t p p = some (t.put p { t.partitions p with
        worker := .reading e length i values (t.storage.scanKey (e.message.key + i)) } []) := by
      simp only [Pool.work, place, if_pos more, if_neg stored]
    set t₁ := t.put p { t.partitions p with
        worker := .reading e length i values (t.storage.scanKey (e.message.key + i)) } [] with ht₁
    have reading : (t₁.partitions p).worker =
        .reading e length i values (t.storage.scanKey (e.message.key + i)) := by simp [ht₁, Pool.State.put]
    have sameView : view t₁ p = view t p := by rw [ht₁, view_put]; rfl
    rw [List.range'_succ, List.mapM_cons]
    cases found : t.storage.read cfg.compresser (t.storage.scanKey (e.message.key + i)) with
    | none =>
      have miss : Pool.work cfg t₁ p p = some (t₁.put p { t₁.partitions p with
          worker := .counting e errorAnswer, errorCount := (t₁.partitions p).errorCount + 1 }
          [.lookup p e.number (t.storage.scanKey (e.message.key + i)), .error p e.number]) := by
        have found : t₁.storage.read cfg.compresser (t.storage.scanKey (e.message.key + i)) = none := found
        simp only [Pool.work, reading, found]
      have counting : ((t₁.put p { t₁.partitions p with
          worker := .counting e errorAnswer, errorCount := (t₁.partitions p).errorCount + 1 }
          [.lookup p e.number (t.storage.scanKey (e.message.key + i)), .error p e.number]).partitions p).worker =
          .counting e errorAnswer := by simp [Pool.State.put]
      obtain ⟨t', alone, answered⟩ := alone_count cfg counting
      rw [view_put] at answered
      rw [← sameView]
      exact ⟨t', .step key (.step miss alone), answered⟩
    | some value =>
      have hit : Pool.work cfg t₁ p p = some (t₁.put p { t₁.partitions p with
          worker := .scanning e length (i + 1) (values ++ [value]) }
          [.lookup p e.number (t.storage.scanKey (e.message.key + i))]) := by
        have found : t₁.storage.read cfg.compresser (t.storage.scanKey (e.message.key + i)) = some value := found
        simp only [Pool.work, reading, found]
      have scanning : ((t₁.put p { t₁.partitions p with
          worker := .scanning e length (i + 1) (values ++ [value]) }
          [.lookup p e.number (t.storage.scanKey (e.message.key + i))]).partitions p).worker =
          .scanning e length (i + 1) (values ++ [value]) := by simp [Pool.State.put]
      have last : i + 1 + k = length.toNat := by omega
      obtain ⟨t', alone, answered⟩ := ih last (by rfl) scanning rfl
      refine ⟨t', .step key (.step hit alone), ?_⟩
      rw [view_put] at answered
      rw [← sameView]
      cases rest : (List.range' (i + 1) k).mapM fun j : Nat =>
          t.storage.read cfg.compresser (t.storage.scanKey (e.message.key + j)) with
      | none =>
        rw [rest] at answered
        exact answered
      | some values' =>
        rw [rest] at answered
        simpa [view] using answered

/-- **A worker that moves alone does what `handle` computes**: it answers the message it holds and
waits for the next, or it comes to a statement that ends the process. -/
theorem handle_alone (place : (t.partitions p).worker = .handling e) (sync : e.message.type ≠ .SYNC) :
    match handle cfg.compresser (view t p) e.message with
    | some (answer, s) => ∃ t', Alone cfg p t t' ∧ Answered t' p e answer s
    | none => ∃ t', Alone cfg p t t' ∧ Pool.Terminates t' p := by
  -- a message answered at once
  have atOnce : ∀ {storage : Storage} {answer : List Char} {events : List (Event n)},
      Pool.work cfg t p p = some { t.put p { t.partitions p with worker := .counting e answer } events with
        storage := storage } →
      ∃ t', Alone cfg p t t' ∧ Answered t' p e answer { (view t p).count with storage := storage } := by
    intro storage answer events step
    have counting : (({ t.put p { t.partitions p with worker := .counting e answer } events with
        storage := storage } : Pool.State n).partitions p).worker = .counting e answer := by simp [Pool.State.put]
    obtain ⟨t', alone, answered⟩ := alone_count cfg counting
    refine ⟨t', .step step alone, ?_⟩
    simpa [view, State.count, Pool.State.put] using answered
  have work : Pool.work cfg t p p = Pool.handle cfg.compresser t p p (t.partitions p) e := by
    simp only [Pool.work, place]
  unfold Pool.handle at work
  unfold handle
  cases type : e.message.type with
  | READ =>
    rw [type] at work
    cases found : t.storage.read cfg.compresser e.message.key with
    | none =>
      simp only [view, found, Option.map_none]
      refine ⟨t, .refl t, ?_⟩
      simp only [Pool.Terminates, place]
      exact Or.inl ⟨type, read_eq_none.mp found⟩
    | some answer =>
      simp only [view, found, Option.map_some]
      simp only [found, Option.map_some] at work
      exact atOnce work
  | WRITE =>
    rw [type] at work
    exact atOnce work
  | SCAN =>
    rw [type] at work
    cases range : e.message.range with
    | none =>
      refine ⟨t, .refl t, ?_⟩
      simp only [Pool.Terminates, place]
      exact Or.inr ⟨type, range⟩
    | some length =>
      simp only [range, Option.map_some] at work
      have scanning : ((t.put p { t.partitions p with worker := .scanning e length 0 [] }
          [.start p e.number]).partitions p).worker = .scanning e length 0 [] := by simp [Pool.State.put]
      simp only [Option.bind_some]
      by_cases empty : 0 < length ∧ UnorderedMap.size t.storage = 0
      · rw [view, if_pos empty]
        refine ⟨_, .step work (.refl _), ?_⟩
        unfold Pool.Terminates
        rw [scanning]
        exact empty
      · have stored : 0 < length → UnorderedMap.size t.storage ≠ 0 := fun pos none => empty ⟨pos, none⟩
        obtain ⟨t', alone, answered⟩ := alone_scan cfg stored length.toNat (Nat.zero_add _) (by rfl) scanning rfl
        rw [view, if_neg empty]
        refine ⟨t', .step work alone, ?_⟩
        rw [view_put, ← List.range_eq_range'] at answered
        have none : ∀ o : Option (List (List Char)), o.map ([] ++ ·) = o := by
          intro o
          cases o <;> rfl
        rw [none] at answered
        exact answered
  | SYNC => exact absurd type sync
  | ERROR | UPDATE | DUMMY | END =>
    rw [type] at work
    exact atOnce work

end Alone

end ThreadLoop

end KvPaxos
