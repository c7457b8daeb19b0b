import KvPaxos.Replica.Schedulers
import KvPaxos.Request.WorkloadFile

/-!
# The replica on a generated workload

`generate_export_requests` and the replica are two runs of one program, with the file between them. A
generated line touches keys that are there, by being below `n_records` or by an earlier insert, so on a replica
that populates at least `n_records` keys no READ misses its key and no worker ends the process. Executed one by
one, no SCAN fails either.
-/

namespace KvPaxos

open Lib

namespace GenerateRequests

open Storage (toInt)

variable {cfg : Config} {s s' : State} {l : Label} {k : Nat} {w : Written}

/-! ### What stands in a line -/

/-- The keys a line covers. -/
def Written.length (w : Written) : Int := if w.operation = .SCAN then w.sizeValue else 1

theorem step_chosen {type : RequestType} (h : step cfg s (.operation type) = some s') :
    s.i < cfg.nOperations ∧ type ∈ cfg.operations := by
  cases place : s.place with
  | choosing =>
    simp only [step, place] at h
    exact (Option.ite_none_right_eq_some.mp h).1
  | drawing | measuring | drawingScan => simp [step, place] at h

/-- Lines are written for operations only, one for each. -/
structure Bounded (cfg : Config) (s : State) : Prop where
  counted : s.i = s.written.length
  choosing : s.place = .choosing → s.i ≤ max 0 cfg.nOperations
  drawing : s.place ≠ .choosing → s.i < cfg.nOperations

theorem bounded_step (h : Bounded cfg s) (step : step cfg s l = some s') : Bounded cfg s' := by
  have counted := h.counted
  have later : ∀ w, (write s w).i = ((write s w).written.length : Int) := by
    intro w
    simp [write, counted]
  cases step_draw step with
  | choose place | chooseScan place => exact ⟨counted, fun choosing => (by cases choosing), fun _ => (step_chosen step).1⟩
  | insert place =>
    have less := (step_chosen step).1
    refine ⟨by simp [insert, write, counted], fun _ => ?_, fun drawing => absurd rfl drawing⟩
    show s.i + 1 ≤ max 0 cfg.nOperations
    omega
  | reject | rejectScan => exact h
  | measure place => exact ⟨counted, fun choosing => (by cases choosing), fun _ => h.drawing (by rw [place]; decide)⟩
  | accept place | acceptScan place =>
    have less : s.i < cfg.nOperations := h.drawing fun choosing => by
      rw [place] at choosing
      cases choosing
    refine ⟨later _, fun _ => ?_, fun drawing => absurd rfl drawing⟩
    show s.i + 1 ≤ max 0 cfg.nOperations
    omega

/-- **The file has at most `n_operations` lines.** -/
theorem via_length (via : (system cfg).Via Fits s) : s.written.length ≤ cfg.nOperations.toNat := by
  have bounded : Bounded cfg s := via.invariant (P := Bounded cfg) ⟨rfl, fun _ => le_max_left _ _, fun drawing => absurd rfl drawing⟩
    fun _ _ _ _ held _ step => bounded_step held step
  have counted := bounded.counted
  by_cases place : s.place = .choosing
  · have le := bounded.choosing place
    omega
  · have less := bounded.drawing place
    omega

/-- Only operations with a proportion above 0 are drawn, and the keys stay `int`s. -/
structure Drawn (cfg : Config) (s : State) : Prop where
  written : ∀ w ∈ s.written, w.operation ∈ cfg.operations
  drawing : ∀ type, s.place = .drawing type → type ∈ cfg.operations
  scanning : (s.place = .measuring ∨ ∃ size, s.place = .drawingScan size) → .SCAN ∈ cfg.operations
  counter : s.insertkeysequence.counter ≤ 2 ^ 31

theorem drawn_init (cfg : Config) : Drawn cfg (init cfg) where
  written := nofun
  drawing := nofun
  scanning h := by simp [init] at h
  counter := cfg.records_lt.le

/-- A draw that fits chooses an operation of the configuration, and an insert has room for its key. -/
theorem drawn_step (h : Drawn cfg s) (fits : Fits s l) (step : step cfg s l = some s') : Drawn cfg s' := by
  have line : ∀ w, w.operation ∈ cfg.operations → ∀ v ∈ s.written ++ [w], v.operation ∈ cfg.operations := by
    intro w allowed v mem
    rcases List.mem_append.mp mem with old | new
    · exact h.written v old
    · exact List.mem_singleton.mp new ▸ allowed
  cases step_draw step with
  | choose =>
    refine ⟨h.written, fun type place => ?_, fun place => by simp at place, h.counter⟩
    cases place
    exact (step_chosen step).2
  | chooseScan => exact ⟨h.written, (fun _ place => by cases place), fun _ => (step_chosen step).2, h.counter⟩
  | insert =>
    have limit : (s.insertkeysequence.next.2.acknowledge (toInt s.insertkeysequence.next.1)).counter =
        s.insertkeysequence.counter + 1 := by
      unfold AcknowledgedCounter.acknowledge AcknowledgedCounter.next
      split <;> rfl
    have least : s.insertkeysequence.counter < 2 ^ 31 := fits
    refine ⟨line _ (step_chosen step).2, (fun _ place => by cases place), fun place => by simp [insert, write] at place, ?_⟩
    show (s.insertkeysequence.next.2.acknowledge (toInt s.insertkeysequence.next.1)).counter ≤ 2 ^ 31
    omega
  | reject | rejectScan => exact h
  | accept place => exact ⟨line _ (h.drawing _ place), (fun _ place => by cases place), fun place => by simp [write] at place, h.counter⟩
  | measure place => exact ⟨h.written, (fun _ place => by cases place), fun _ => h.scanning (Or.inl place), h.counter⟩
  | acceptScan place =>
    exact ⟨line _ (h.scanning (Or.inr ⟨_, place⟩)), (fun _ place => by cases place), fun place => by simp [write] at place, h.counter⟩

theorem via_drawn (via : (system cfg).Via Fits s) : Drawn cfg s :=
  via.invariant (P := Drawn cfg) (drawn_init cfg) fun _ _ _ _ drawn fits step => drawn_step drawn fits step

theorem mem_operations {type : RequestType} : type ∈ cfg.operations ↔ type = .READ ∧ cfg.read = true ∨
    type = .UPDATE ∧ cfg.update = true ∨ type = .WRITE ∧ cfg.insert = true ∨ type = .SCAN ∧ cfg.scan = true := by
  unfold Config.operations
  cases cfg.read <;> cases cfg.update <;> cases cfg.insert <;> cases cfg.scan <;> simp

theorem inserts_append (a b : List Written) : inserts (a ++ b) = inserts a + inserts b := List.countP_append ..

theorem inserts_take (here : s.written[k]? = some w) :
    inserts (s.written.take k) + (if w.operation = .WRITE then 1 else 0) ≤ inserts s.written := by
  have split : inserts (s.written.take (k + 1)) + inserts (s.written.drop (k + 1)) = inserts s.written := by
    rw [← inserts_append, List.take_append_drop]
  have one : inserts [w] = if w.operation = .WRITE then 1 else 0 := by
    simp [inserts, Written.isInsert, List.countP_cons]
  rw [List.take_add_one, here, Option.toList_some, inserts_append, one] at split
  omega

/-- Where a line stands: its keys are below those that are there, its own included. -/
structure Line (cfg : Config) (pre : List Written) (w : Written) : Prop where
  drawn : w.operation ∈ cfg.operations
  lower : 0 ≤ w.key
  length : 1 ≤ w.length
  present : w.operation ≠ .WRITE → w.key + w.length ≤ cfg.nRecords + inserts pre
  upper : w.key + w.length ≤ 2 ^ 31

/-- A line in terms of the lines before it: its keys are there, its own included if it is an insert, and they are
`int`s. -/
theorem line_at (records : 1 ≤ cfg.nRecords) (kept : Kept cfg s) (drawn : Drawn cfg s) (here : s.written[k]? = some w) :
    Line cfg (s.written.take k) w := by
  have allowed := drawn.written w (List.mem_of_getElem? here)
  have touches := kept.touches_at here
  have counter := kept.counter
  have limit := drawn.counter
  have more := inserts_take here
  rcases mem_operations.mp allowed with ⟨type, -⟩ | ⟨type, -⟩ | ⟨type, -⟩ | ⟨type, -⟩
  all_goals simp only [Touches, type] at touches
  · have one : w.length = 1 := if_neg (by rw [type]; decide)
    rw [if_neg (by rw [type]; decide)] at more
    exact ⟨allowed, touches.1, by omega, fun _ => by omega, by omega⟩
  · have one : w.length = 1 := if_neg (by rw [type]; decide)
    rw [if_neg (by rw [type]; decide)] at more
    exact ⟨allowed, touches.1, by omega, fun _ => by omega, by omega⟩
  · have one : w.length = 1 := if_neg (by rw [type]; decide)
    rw [if_pos type] at more
    exact ⟨allowed, by omega, by omega, fun other => absurd type other, by omega⟩
  · obtain ⟨pos, inside⟩ := touches
    have size : w.length = w.sizeValue := if_pos type
    rw [if_neg (by rw [type]; decide)] at more
    have first := inside w.key (by omega) (by omega)
    have last := inside (w.key + w.sizeValue - 1) (by omega) (by omega)
    exact ⟨allowed, first.1, by omega, fun _ => by omega, by omega⟩

/-- The keys inserted before a place are the next ones, in their order. -/
theorem exists_insert (kept : Kept cfg s) {j : Nat} (lt : j < inserts (s.written.take k)) :
    ∃ i < k, ∃ v, s.written[i]? = some v ∧ v.operation = .WRITE ∧ v.key = cfg.nRecords + j := by
  have whole : (s.written.take k).filter Written.isInsert ++ (s.written.drop k).filter Written.isInsert =
      s.written.filter Written.isInsert := by
    rw [← List.filter_append, List.take_append_drop]
  have length : ((s.written.take k).filter Written.isInsert).length = inserts (s.written.take k) :=
    List.countP_eq_length_filter.symm
  have here : (s.written.filter Written.isInsert)[j]? = ((s.written.take k).filter Written.isInsert)[j]? := by
    rw [← whole, List.getElem?_append_left (by omega)]
  obtain ⟨v, there⟩ : ∃ v, ((s.written.take k).filter Written.isInsert)[j]? = some v :=
    ⟨_, List.getElem?_eq_getElem (by omega)⟩
  have keys := congrArg (·[j]?) kept.inserted
  have below : j < inserts s.written := by
    have parts := inserts_append (s.written.take k) (s.written.drop k)
    rw [List.take_append_drop] at parts
    omega
  simp only [List.getElem?_map, here, there, Option.map_some, List.getElem?_range below, Option.some.injEq] at keys
  obtain ⟨mem, insert⟩ := List.mem_filter.mp (List.mem_of_getElem? there)
  obtain ⟨i, less, eq⟩ := List.mem_take_iff_getElem.mp mem
  exact ⟨i, by omega, v, by rw [← eq]; exact List.getElem?_eq_getElem _, of_decide_eq_true insert, keys⟩

/-! ### The messages of the lines -/

/-- The workers are given the messages of a generated file and populated keys that cover the records. -/
structure Feeds {n : Nat} (cfg : Config) (s : State) (c : KvPaxos.Config n) : Prop where
  records : 1 ≤ cfg.nRecords
  via : (system cfg).Via Fits s
  read : ∃ before, readFile before (exportFile s.lines) = some c.requests
  storage : ∃ nInitialKeys, cfg.nRecords ≤ nInitialKeys + 1 ∧
    c.storage = Storage.populated c.compresser (initialKeys nInitialKeys)

/-- Only a SCAN can be an error. -/
theorem failed_of_not_scan {z : Compresser} {t : Storage} {m : ClientMessage} {text : List Char} {failed : Bool}
    (other : m.type ≠ .SCAN) (h : Sequential.answer z t m = some (text, failed)) : failed = false := by
  unfold Sequential.answer at h
  split at h
  · obtain ⟨value, -, same⟩ := Option.map_eq_some_iff.mp h
    cases same
    rfl
  · cases h
    rfl
  · exact absurd ‹_› other
  · cases h
    rfl
  · cases h
    rfl

namespace Feeds

variable {n : Nat} {c : KvPaxos.Config n} {m : ClientMessage}

theorem line (h : Feeds cfg s c) (here : s.written[k]? = some w) : Line cfg (s.written.take k) w :=
  line_at h.records (via_kept h.records h.via) (via_drawn h.via) here

/-- Each request is the message of its line. -/
theorem message (h : Feeds cfg s c) (hm : c.requests[k]? = some m) : ∃ w arg, s.written[k]? = some w ∧
    m = w.message k arg ∧ m.range = some w.length := by
  obtain ⟨before, read⟩ := h.read
  obtain ⟨fits, requests⟩ := (readFile_exportFile (via_kept h.records h.via) before c.requests).mp read
  rw [requests, List.getElem?_mapIdx] at hm
  obtain ⟨w, here, rfl⟩ := Option.map_eq_some_iff.mp hm
  refine ⟨w, (before k).arg, here, rfl, ?_⟩
  have length := (h.line here).length
  have short := fits k w here
  by_cases scan : w.operation = .SCAN
  · rw [Written.text, if_pos scan, length_toText_le_three_iff] at short
    have type : (w.message k (before k).arg).type = .SCAN := by
      simp [Written.message, Written.request, scan]
    have text : (w.message k (before k).arg).args = toText w.sizeValue := by
      simp [Written.message, Written.text, scan]
    rw [Written.length, if_pos scan] at length ⊢
    rw [ClientMessage.range, if_pos type, text]
    exact stoi_toText (by omega) (by omega)
  · have type : (w.message k (before k).arg).type ≠ .SCAN := by
      simp only [Written.message, Written.request]
      split
      · decide
      · exact scan
    rw [Written.length, if_neg scan]
    exact ClientMessage.range_of_not_scan type

theorem request (h : Feeds cfg s c) (here : s.written[k]? = some w) : ∃ m, c.requests[k]? = some m ∧ ∃ arg, m = w.message k arg := by
  obtain ⟨before, read⟩ := h.read
  obtain ⟨-, requests⟩ := (readFile_exportFile (via_kept h.records h.via) before c.requests).mp read
  refine ⟨_, ?_, (before k).arg, rfl⟩
  rw [requests, List.getElem?_mapIdx, here]
  rfl

/-- **The messages are requests**. -/
theorem isRequest (h : Feeds cfg s c) : ∀ m ∈ c.requests, m.IsRequest := by
  intro m mem
  obtain ⟨k, hm⟩ := List.mem_iff_getElem?.mp mem
  obtain ⟨w, arg, here, rfl, range⟩ := h.message hm
  have line := h.line here
  have lower := line.lower
  refine ⟨?_, ⟨w.length, range, line.length⟩, ?_, fun r hr => ?_⟩
  · simp only [Written.message, Written.request]
    rcases mem_operations.mp line.drawn with ⟨type, -⟩ | ⟨type, -⟩ | ⟨type, -⟩ | ⟨type, -⟩ <;> simp [type]
  · show -2 ^ 31 ≤ w.key
    omega
  · cases range.symm.trans hr
    exact line.upper

/-- The keys that are there before line `k` are stored when its request is met. -/
theorem mem_met (h : Feeds cfg s c) {x : Int} (lower : 0 ≤ x) (upper : x < cfg.nRecords + inserts (s.written.take k)) :
    x ∈ Pool.met c k := by
  obtain ⟨nInitialKeys, initial, storage⟩ := h.storage
  rw [Pool.met, Sequential.mem_storageBefore]
  by_cases old : x < cfg.nRecords
  · refine Or.inl ?_
    rw [storage, (Storage.populated_spec _).2, mem_initialKeys]
    omega
  · obtain ⟨i, less, v, here, insert, key⟩ := exists_insert (via_kept h.records h.via) (j := (x - cfg.nRecords).toNat) (k := k)
      (by omega)
    obtain ⟨m, hm, arg, rfl⟩ := h.request here
    refine Or.inr ⟨i, less, _, hm, ?_, ?_⟩
    · simp [Written.message, Written.request, insert]
    · show v.key = x
      omega

/-- **No worker can end the process**: every READ is of a key that is there. -/
theorem answerable (h : Feeds cfg s c) : Pool.Answerable c := by
  refine ⟨fun k m hm type => ?_, fun m mem type => ?_⟩
  · obtain ⟨w, arg, here, rfl, range⟩ := h.message hm
    have line := h.line here
    have length := line.length
    have other : w.operation ≠ .WRITE := by
      intro insert
      simp [Written.message, Written.request, insert] at type
    have present := line.present other
    exact h.mem_met line.lower (show w.key < _ by omega)
  · have zero : (0 : Int) ∈ Pool.met c 0 := h.mem_met (Int.le_refl 0) (by have := h.records; omega)
    exact Storage.size_ne_zero zero

theorem le_size {t : Storage} {b : Int} (all : ∀ x, 0 ≤ x → x < b → x ∈ t) : b ≤ UnorderedMap.size t := by
  have card : ((Finset.range b.toNat).image fun i : Nat => (i : Int)).card = b.toNat := by
    rw [Finset.card_image_of_injective _ Nat.cast_injective, Finset.card_range]
  have inside : (Finset.range b.toNat).image (fun i : Nat => (i : Int)) ⊆ t.keys := by
    intro x mem
    obtain ⟨i, less, rfl⟩ := Finset.mem_image.mp mem
    have below := Finset.mem_range.mp less
    exact Finmap.mem_keys.mpr (all i (by omega) (by omega))
  have le := Finset.card_le_card inside
  rw [card] at le
  show b ≤ (t.keys.card : Int)
  omega

/-- **One by one, no request of a generated workload is an error**: a SCAN's keys are there, and fewer than
are stored, so the modulo leaves them alone. -/
theorem fails_eq_false (h : Feeds cfg s c) (k : Nat) : Pool.fails c k = false := by
  obtain ⟨nInitialKeys, initial, storage⟩ := h.storage
  have uniform : c.storage.Uniform c.compresser := storage ▸ (Storage.populated_spec _).1
  have there : (Pool.met c k).Uniform c.compresser := Sequential.Uniform.storageBefore uniform _ _
  cases hm : c.requests[k]? with
  | none => simp only [Pool.fails, Sequential.failsAt, hm]
  | some m =>
    obtain ⟨w, arg, here, rfl, range⟩ := h.message hm
    by_cases scan : w.operation = .SCAN
    · have type : (w.message k arg).type = .SCAN := by
        simp [Written.message, Written.request, scan]
      have line := h.line here
      have present := line.present (by rw [scan]; decide)
      have lower := line.lower
      have upper := line.upper
      have size := le_size fun x low high => h.mem_met (k := k) low high
      have found : ∀ i < w.length.toNat, (Pool.met c k).scanKey (w.key + i) ∈ Pool.met c k := by
        intro i less
        have key : (Pool.met c k).scanKey (w.key + i) = w.key + i :=
          Storage.scanKey_of_lt (by omega) (by omega) (by omega)
        rw [key]
        exact h.mem_met (by omega) (by omega)
      have scanned := Sequential.scan_uniform there w.key w.length
      rw [if_pos found] at scanned
      have answer : Sequential.answer c.compresser (Pool.met c k) (w.message k arg) =
          some (joinValues (List.replicate w.length.toNat (Storage.uniformValue c.compresser)), false) := by
        simp only [Sequential.answer, type, range, Option.map_some]
        rw [show (w.message k arg).key = w.key from rfl, scanned]
      exact Pool.fails_eq hm answer
    · have type : (w.message k arg).type ≠ .SCAN := by
        simp only [Written.message, Written.request]
        split
        · decide
        · exact scan
      simp only [Pool.fails, Sequential.failsAt, hm]
      split
      · rename_i answered
        exact failed_of_not_scan type answered
      · rfl

/-- With no inserts, or with no SCANs, no SCAN can notice how many keys are stored. -/
theorem settled (h : Feeds cfg s c) (alone : cfg.insert = false ∨ cfg.scan = false) : Pool.Settled c := by
  intro m mem type
  obtain ⟨k, hm⟩ := List.mem_iff_getElem?.mp mem
  obtain ⟨w, arg, here, rfl, -⟩ := h.message hm
  rcases alone with noInsert | noScan
  · refine Or.inr fun v written insert => ?_
    obtain ⟨j, hv⟩ := List.mem_iff_getElem?.mp written
    obtain ⟨u, arg', there, rfl, -⟩ := h.message hv
    have line := h.line there
    have length := line.length
    have none : inserts (s.written.take j) = 0 := by
      refine List.countP_eq_zero.mpr fun v inside is => ?_
      have drawn := (via_drawn h.via).written v (List.mem_of_mem_take inside)
      rcases mem_operations.mp drawn with ⟨type, -⟩ | ⟨type, -⟩ | ⟨type, allowed⟩ | ⟨type, -⟩
      · simp [Written.isInsert, type] at is
      · simp [Written.isInsert, type] at is
      · rw [noInsert] at allowed
        cases allowed
      · simp [Written.isInsert, type] at is
    have other : u.operation ≠ .WRITE := by
      intro insert
      rcases mem_operations.mp line.drawn with ⟨type, -⟩ | ⟨type, -⟩ | ⟨-, allowed⟩ | ⟨type, -⟩
      · cases insert.symm.trans type
      · cases insert.symm.trans type
      · rw [noInsert] at allowed
        cases allowed
      · cases insert.symm.trans type
    have present := line.present other
    rw [none] at present
    exact h.mem_met (k := 0) line.lower (show u.key < _ by simp only [List.take_zero, inserts, List.countP_nil]; omega)
  · have scan : w.operation = .SCAN := by
      by_contra other
      simp only [Written.message, Written.request] at type
      split at type
      · cases type
      · exact other type
    rcases mem_operations.mp (h.line here).drawn with ⟨type, -⟩ | ⟨type, -⟩ | ⟨type, -⟩ | ⟨-, allowed⟩
    · cases scan.symm.trans type
    · cases scan.symm.trans type
    · cases scan.symm.trans type
    · rw [noScan] at allowed
      cases allowed

/-- The one-by-one execution of a generated workload answers every request, none with an error. -/
theorem execute (h : Feeds cfg s c) :
    ∃ outcome, Sequential.execute c.compresser c.storage c.requests = some outcome ∧ outcome.errors = 0 := by
  obtain ⟨nInitialKeys, initial, storage⟩ := h.storage
  have uniform : c.storage.Uniform c.compresser := storage ▸ (Storage.populated_spec _).1
  have answers : ∀ k m, c.requests[k]? = some m → (Sequential.answer c.compresser (Pool.met c k) m).isSome := by
    intro k m hm
    have request := h.isRequest m (List.mem_of_getElem? hm)
    obtain ⟨length, range, -⟩ := request.range
    have there : (Pool.met c k).Uniform c.compresser := Sequential.Uniform.storageBefore uniform _ _
    rcases request.type with type | type | type
    · have key := h.answerable.reads k m hm type
      simp only [Sequential.answer, type, there.read, if_pos key, Option.map_some, Option.isSome_some]
    · simp only [Sequential.answer, type, Option.isSome_some]
    · simp only [Sequential.answer, type, range, Option.map_some, Option.isSome_some]
  obtain ⟨outcome, execute, -, errors, -⟩ := Sequential.execute_spec answers
  refine ⟨outcome, execute, errors.trans (List.countP_eq_zero.mpr fun k _ => ?_)⟩
  have fine : Sequential.failsAt c.compresser c.storage c.requests k = false := h.fails_eq_false k
  rw [fine]
  decide

end Feeds

/-- The replica has answered everything as one by one, and without an error. -/
def Served {σ ℓ : Type} {n : Nat} (rep : Run.Config σ ℓ n) (t : Run.State σ n) : Prop :=
  t.main = .reported 0 ∧
    ∃ outcome, rep.outcome = some outcome ∧ outcome.errors = 0 ∧ Pool.ComesTo t.process.pool outcome

/-- **From the file to the error count**, with any scheduler. -/
theorem Feeds.serves {σ ℓ : Type} {n : Nat} {rep : Run.Config σ ℓ n} (h : Feeds cfg s rep.given)
    (short : Run.Short rep) (draining : rep.client.Draining) {t : Run.State σ n} (reach : (Run.system rep).Reachable t) :
    (Run.system rep).Inevitable (Run.Patient rep)
      (fun u => (∃ errorCount, u.main = .reported errorCount) ∧ (cfg.insert = false ∨ cfg.scan = false → Served rep u)) t := by
  have requests : ∀ m ∈ rep.messages, m.IsRequest := h.isRequest
  refine (Run.ends draining requests short h.answerable reach).with_invariant (P := (Run.system rep).Reachable)
    (fun _ _ _ reach _ step => reach.step step) (fun u reach reported => ⟨reported, fun alone => ?_⟩) reach
  obtain ⟨errorCount, place⟩ := reported
  obtain ⟨outcome, execute, comes, count⟩ := (Run.accurate requests (h.settled alone) reach).reported errorCount place
  obtain ⟨outcome', execute', none⟩ := h.execute
  obtain rfl := Option.some.inj (execute.symm.trans execute')
  rw [none] at count
  refine ⟨?_, outcome, execute, none, comes⟩
  rw [place, count]
  rfl

/-- A generated file, the messages it is read into and a replica that populates its records. What is sent for
`n_operations` messages and the END fits into the semaphores of the workers. -/
structure Starts (cfg : Config) (s : State) (par : Parameters) : Prop where
  records : 1 ≤ cfg.nRecords
  via : (system cfg).Via Fits s
  read : ∃ before, readFile before (exportFile s.lines) = some par.messages
  covers : cfg.nRecords ≤ par.nInitialKeys + 1
  operations : 6 * (cfg.nOperations.toNat + 1) ≤ SEM_VALUE_MAX

theorem Starts.length {cfg : Config} {s : State} {par : Parameters} (h : Starts cfg s par) :
    6 * (par.messages.length + 1) ≤ SEM_VALUE_MAX := by
  obtain ⟨before, read⟩ := h.read
  obtain ⟨-, messages⟩ := (readFile_exportFile (via_kept h.records h.via) before par.messages).mp read
  have lines := via_length h.via
  have operations := h.operations
  rw [messages, List.length_mapIdx]
  omega

end GenerateRequests

open GenerateRequests (Starts Served)

variable {n : Nat}

end KvPaxos
