import KvPaxos.Lib.TextLines
import KvPaxos.Request.GenerateRequests

/-!
# From the generator to the messages

`generate_export_requests` ends each line with a newline, and the loop of the replica's `run` reads the file
line by line until its end, makes a request of each and of that a message with the next id. The third field of
a line that is no SCAN is empty, so the text of its message is whatever `arg` happens to hold.
-/

namespace KvPaxos

open Lib

/-- What the variables of `import_cs_request` and `client_message::args` hold before a line is read. -/
structure Uninitialised where
  type : Int
  key : Int
  arg : Int
  memory : Vector Char 4

/-- `export_path` after `generate_export_requests`. -/
def exportFile (lines : List (List Char)) : List Char := joinLines lines

/-- The loop of `run` from line `id` on; `none` where a type is no enumerator or a text leaves its array. -/
def readMessages (before : Nat → Uninitialised) : Nat → List (List Char) → Option (List ClientMessage)
  | _, [] => some []
  | id, line :: lines =>
    (importCsRequest line (before id).type (before id).key (before id).arg).bind fun request =>
      (buildClientMessage id (before id).memory request).bind fun message =>
        (readMessages before (id + 1) lines).map fun messages => message.clientMessage :: messages

/-- The messages of the file. -/
def readFile (before : Nat → Uninitialised) (text : List Char) : Option (List ClientMessage) :=
  readMessages before 0 (textLines text)

namespace GenerateRequests

/-- The text of the message of a line, where `arg` holds what no field was read into. -/
def Written.text (w : Written) (arg : Int) : List Char := toText (if w.operation = .SCAN then w.sizeValue else arg)

/-- The request that is read back from a line. -/
def Written.request (w : Written) (arg : Int) : Request where
  type := if w.operation = .UPDATE then .WRITE else w.operation
  key := w.key
  args := w.text arg

/-- The message of a line. -/
def Written.message (w : Written) (id : Nat) (arg : Int) : ClientMessage where
  id := id
  key := w.key
  type := (w.request arg).type
  args := w.text arg

theorem importCsRequest_written (w : Written) (type key arg : Int) :
    importCsRequest w.line type key arg = some (w.request arg) := by
  rw [Written.line, importCsRequest_line]
  by_cases scan : w.operation = .SCAN
  · have third : convert (toText w.sizeValue ++ [',']) = some (w.sizeValue, [',']) := by
      refine convert_toText w.sizeValue fun c mem => ?_
      cases mem
      rfl
    simp [Request.generate, Written.request, Written.text, scan, third]
  · have third : convert [','] = none := by decide
    simp [Request.generate, Written.request, Written.text, scan, third]

/-- A text of at most three characters fits into the array, and no longer one. -/
theorem buildClientMessage_written (id : Nat) (memory : Vector Char 4) (w : Written) (arg : Int) :
    (buildClientMessage id memory (w.request arg)).map MessageBuffer.clientMessage =
      if (w.text arg).length ≤ 3 then some (w.message id arg) else none := by
  obtain ⟨fails, stores⟩ := buildClientMessage_spec id memory (w.request arg) (nul_notMem_toText _)
  have text : (w.request arg).args = w.text arg := rfl
  rw [text] at fails stores
  by_cases short : (w.text arg).length ≤ 3
  · obtain ⟨message, built⟩ := Option.ne_none_iff_exists'.mp fun none => absurd (fails.mp none) (by omega)
    obtain ⟨type, key, -, stored⟩ := stores message built
    have number : message.id = id := by
      obtain ⟨args, -, rfl⟩ := Option.map_eq_some_iff.mp built
      rfl
    rw [if_pos short, built, Option.map_some, MessageBuffer.clientMessage, type, key, stored, number]
    rfl
  · rw [if_neg short, fails.mpr (by omega), Option.map_none]

/-- **The loop of `run`** on written lines: it comes through if every text fits, and only then. -/
theorem readMessages_written (before : Nat → Uninitialised) (written : List Written) : ∀ id messages,
    readMessages before id (written.map Written.line) = some messages ↔
      (∀ (i : Nat) (w : Written), written[i]? = some w → (w.text (before (id + i)).arg).length ≤ 3) ∧
      messages = written.mapIdx fun i w => w.message (id + i) (before (id + i)).arg := by
  induction written with
  | nil =>
    intro id messages
    simp [readMessages, eq_comm]
  | cons w written ih =>
    intro id messages
    have build := buildClientMessage_written id (before id).memory w (before id).arg
    have shift : (written.mapIdx fun i w => w.message (id + (i + 1)) (before (id + (i + 1))).arg) =
        written.mapIdx fun i w => w.message (id + 1 + i) (before (id + 1 + i)).arg := by
      simp only [Nat.add_assoc, Nat.add_comm 1]
    rw [List.map_cons, readMessages, importCsRequest_written, Option.bind_some, List.mapIdx_cons, shift]
    constructor
    · intro whole
      obtain ⟨message, built, whole⟩ := Option.bind_eq_some_iff.mp whole
      obtain ⟨rest, read, rfl⟩ := Option.map_eq_some_iff.mp whole
      rw [built, Option.map_some] at build
      obtain ⟨short, same⟩ := Option.ite_none_right_eq_some.mp build.symm
      obtain ⟨fits, rfl⟩ := (ih (id + 1) rest).mp read
      refine ⟨fun i v here => ?_, by rw [← Option.some.inj same]; rfl⟩
      cases i with
      | zero =>
        cases here
        exact short
      | succ i =>
        have next := fits i v here
        rwa [Nat.add_assoc, Nat.add_comm 1 i] at next
    · rintro ⟨fits, rfl⟩
      have short : (w.text (before id).arg).length ≤ 3 := fits 0 w rfl
      rw [if_pos short] at build
      obtain ⟨message, built, same⟩ := Option.map_eq_some_iff.mp build
      rw [built, Option.bind_some, Option.map_eq_some_iff]
      refine ⟨_, (ih (id + 1) _).mpr ⟨fun i v here => ?_, rfl⟩, by rw [same]; rfl⟩
      have next := fits (i + 1) v here
      rwa [Nat.add_assoc, Nat.add_comm 1 i]

theorem newline_notMem_toText (x : Int) : '\n' ∉ toText x := by
  have digits : '\n' ∉ Nat.toDigits 10 x.natAbs := fun mem =>
    absurd (Nat.isDigit_of_mem_toDigits (by decide) (by decide) mem) (by decide)
  unfold toText
  split
  · rw [List.mem_cons]
    rintro (eq | mem)
    · exact absurd eq (by decide)
    · exact digits mem
  · exact digits

theorem newline_notMem_line (w : Written) : '\n' ∉ w.line := by
  have type := newline_notMem_toText (Request.generate w.operation w.key w.sizeValue).type.toInt
  have key := newline_notMem_toText w.key
  have size := newline_notMem_toText w.sizeValue
  have args : '\n' ∉ (Request.generate w.operation w.key w.sizeValue).args := by
    unfold Request.generate
    dsimp only
    split
    · exact size
    · exact List.not_mem_nil
  intro mem
  simp only [Written.line, Request.line, List.mem_append, List.mem_cons, List.not_mem_nil, or_false] at mem
  rcases mem with h | h | h | h | h | h
  · exact type h
  · exact absurd h (by decide)
  · exact key h
  · exact absurd h (by decide)
  · exact args h
  · exact absurd h (by decide)

/-- A number has at most three characters from -99 to 999. -/
theorem length_toText_le_three_iff (x : Int) : (toText x).length ≤ 3 ↔ -99 ≤ x ∧ x ≤ 999 := by
  unfold toText
  split
  · rw [List.length_cons, Nat.succ_le_succ_iff, Nat.length_toDigits_le_iff (by decide) (by decide)]
    omega
  · rw [Nat.length_toDigits_le_iff (by decide) (by decide)]
    omega

variable {cfg : Config} {s : State}

theorem via_kept (records : 1 ≤ cfg.nRecords) (via : (system cfg).Via Fits s) : Kept cfg s :=
  via.invariant (P := Kept cfg) (kept_init cfg) fun _ _ _ _ kept fits step => kept.step records fits step

/-- A generated file is read back if every text fits. -/
theorem readFile_exportFile (kept : Kept cfg s) (before : Nat → Uninitialised) (messages : List ClientMessage) :
    readFile before (exportFile s.lines) = some messages ↔
      (∀ (i : Nat) (w : Written), s.written[i]? = some w → (w.text (before i).arg).length ≤ 3) ∧
      messages = s.written.mapIdx fun i w => w.message i (before i).arg := by
  have plain : ∀ line ∈ s.written.map Written.line, '\n' ∉ line := by
    intro line mem
    obtain ⟨w, -, rfl⟩ := List.mem_map.mp mem
    exact newline_notMem_line w
  rw [readFile, exportFile, kept.lines, textLines_joinLines plain, readMessages_written]
  simp only [Nat.zero_add]

/-- What a line may touch, at its place in the file. -/
theorem Kept.touches_at (kept : Kept cfg s) {k : Nat} {w : Written} (here : s.written[k]? = some w) :
    Touches cfg.nRecords (s.written.take k) w := by
  obtain ⟨lt, rfl⟩ := List.getElem?_eq_some_iff.mp here
  exact kept.touches _ _ (s.written.drop (k + 1)) (by rw [List.getElem_cons_drop, List.take_append_drop])

/-- **The round trip of a whole workload**: the file that `generate_export_requests` writes is read back by the loop
of `run`, line by line until `peek` finds the end, into the messages of its lines in their order, unless a SCAN's
length or what `arg` holds at another line takes more than three characters. -/
theorem workload_round_trip (cfg : Config) (records : 1 ≤ cfg.nRecords) (s : State) (via : (system cfg).Via Fits s)
    (before : Nat → Uninitialised) (messages : List ClientMessage) :
    readFile before (exportFile s.lines) = some messages ↔
      (∀ (i : Nat) (w : Written), s.written[i]? = some w →
        if w.operation = .SCAN then w.sizeValue ≤ 999 else -99 ≤ (before i).arg ∧ (before i).arg ≤ 999) ∧
      messages = s.written.mapIdx fun i w => w.message i (before i).arg := by
  have kept := via_kept records via
  rw [readFile_exportFile kept]
  refine and_congr_left fun _ => forall_congr' fun i => forall_congr' fun w => imp_congr_right fun here => ?_
  rw [Written.text, length_toText_le_three_iff]
  by_cases scan : w.operation = .SCAN
  · have touches := kept.touches_at here
    rw [Touches, scan] at touches
    have pos := touches.1
    rw [if_pos scan, if_pos scan]
    omega
  · rw [if_neg scan, if_neg scan]

/-- The variables hold zeros. -/
def zeros (_ : Nat) : Uninitialised := { type := 0, key := 0, arg := 0, memory := Vector.replicate 4 nul }

/-- Two inserts, an UPDATE of key 2 and a SCAN of the keys 0 and 1, and their messages. -/
theorem workload_round_trip_four : ∃ s, (system smallConfig).Via Fits s ∧ readFile zeros (exportFile s.lines) = some
    [{ id := 0, key := 3, type := .WRITE, args := ['0'] }, { id := 1, key := 2, type := .WRITE, args := ['0'] },
      { id := 2, key := 0, type := .SCAN, args := ['2'] }, { id := 3, key := 4, type := .WRITE, args := ['0'] }] := by
  obtain ⟨s, via, written⟩ := System.exists_via (M := system smallConfig) Fits
    (P := fun s => s.written = [⟨.WRITE, 3, 0⟩, ⟨.UPDATE, 2, 0⟩, ⟨.SCAN, 0, 2⟩, ⟨.WRITE, 4, 0⟩])
    [.operation .WRITE, .operation .UPDATE, .data 2, .operation .SCAN, .length 2, .data 0, .operation .WRITE] (by decide)
  have fits : ∀ w ∈ s.written, if w.operation = .SCAN then w.sizeValue ≤ 999 else -99 ≤ (0 : Int) ∧ (0 : Int) ≤ 999 := by
    rw [written]
    decide
  refine ⟨s, via, (workload_round_trip smallConfig (by decide) s via zeros _).mpr
    ⟨fun i w here => fits w (List.mem_of_getElem? here), ?_⟩⟩
  rw [written]
  decide

end GenerateRequests

end KvPaxos
