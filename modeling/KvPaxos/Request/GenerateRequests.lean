import KvPaxos.Lib.System
import KvPaxos.Request.RequestGeneration
import KvPaxos.Storage.Storage

/-!
# The loop that generates a workload

`generate_export_requests` draws an operation for each line. An insert takes the next key of
`insertkeysequence`; the other operations draw keys until one is small enough, a SCAN after it has drawn
its length. What the three generators return are the labels of the system, so a run is any stream of
draws. The sums of `int`s are taken where they do not overflow.

`written` is a ghost: the lines with the operation that was drawn, which the line of an UPDATE does not
show.
-/

namespace KvPaxos

open Lib

/-- `acknowledged_counter<long>`. -/
structure AcknowledgedCounter where
  counter : Int
  limit : Int
  deriving DecidableEq

namespace AcknowledgedCounter

def new (countStart : Int) : AcknowledgedCounter := { counter := countStart, limit := countStart - 1 }

def next (c : AcknowledgedCounter) : Int × AcknowledgedCounter := (c.counter, { c with counter := c.counter + 1 })

def acknowledge (c : AcknowledgedCounter) (value : Int) : AcknowledgedCounter :=
  if value > c.limit then { c with limit := value } else c

def lastValue (c : AcknowledgedCounter) : Int := c.limit

end AcknowledgedCounter

namespace GenerateRequests

open Storage (toInt)

/-- The distributions that set `data_generator`; under another one its first call throws. -/
inductive DataDistribution where
  | UNIFORM | ZIPFIAN | LATEST

/-- The distributions that set `scan_length_generator`. -/
inductive ScanLengthDistribution where
  | UNIFORM | ZIPFIAN

/-- The configuration, with the proportions as far as they are above 0. -/
structure Config where
  nRecords : Int
  nOperations : Int
  read : Bool
  update : Bool
  insert : Bool
  scan : Bool
  dataDistribution : DataDistribution
  scanLengthDistribution : ScanLengthDistribution
  minScanLength : Int
  maxScanLength : Int
  /-- `(int) ((n_operations) * insert_proportion * 2.0)`. -/
  expectedNewKeys : Int
  records_lt : nRecords < 2 ^ 31
  keys_lt : nRecords + expectedNewKeys < 2 ^ 31

/-- The types in `operation_proportions`. -/
def Config.operations (cfg : Config) : List RequestType :=
  (if cfg.read then [.READ] else []) ++ (if cfg.update then [.UPDATE] else []) ++
    (if cfg.insert then [.WRITE] else []) ++ if cfg.scan then [.SCAN] else []

/-- The largest value of `data_generator`; the smallest is 0. -/
def Config.dataMax (cfg : Config) (counter : AcknowledgedCounter) : Int :=
  match cfg.dataDistribution with
  | .UNIFORM => cfg.nRecords
  | .ZIPFIAN => cfg.nRecords + cfg.expectedNewKeys
  | .LATEST => counter.lastValue

/-- The smallest and the largest value of `scan_length_generator`. -/
def Config.scanLengths (cfg : Config) : Int × Int :=
  match cfg.scanLengthDistribution with
  | .UNIFORM => (cfg.minScanLength, cfg.maxScanLength)
  | .ZIPFIAN => (0, cfg.nRecords)

/-- Where the loop is. -/
inductive Place where
  /-- `next_operation`. -/
  | choosing
  /-- The `do` loop of a READ or an UPDATE. -/
  | drawing (type : RequestType)
  /-- `scan_length_generator()`. -/
  | measuring
  /-- The `do` loop of a SCAN. -/
  | drawingScan (sizeValue : Int)
  deriving DecidableEq

/-- A line: the operation drawn for it, the key and the length. -/
structure Written where
  operation : RequestType
  key : Int
  sizeValue : Int := 0
  deriving DecidableEq

def Written.line (w : Written) : List Char := (Request.generate w.operation w.key w.sizeValue).line

def Written.isInsert (w : Written) : Bool := w.operation = .WRITE

/-- The variables of the loop: the counter of the inserted keys, `n_requests`, `i` and where the loop is, with the
lines written so far. -/
structure State where
  insertkeysequence : AcknowledgedCounter
  nRequests : Int
  i : Int := 0
  place : Place := .choosing
  lines : List (List Char) := []
  written : List Written := []

/-- What one of the three generators returns. -/
inductive Label where
  | operation (type : RequestType)
  | length (value : Int)
  | data (value : Int)

def init (cfg : Config) : State where
  insertkeysequence := .new cfg.nRecords
  nRequests := cfg.nOperations

/-- The end of an iteration: the request is made and its line is written. -/
def write (s : State) (w : Written) : State :=
  { s with i := s.i + 1, place := .choosing, lines := s.lines ++ [w.line], written := s.written ++ [w] }

/-- The insert branch. -/
def insert (s : State) : State :=
  let (value, counter) := s.insertkeysequence.next
  let key := toInt value
  write { s with insertkeysequence := counter.acknowledge key } { operation := .WRITE, key := key }

/-- The loop of `generate_export_requests`, from draw to draw: the operation, the length of a SCAN, and keys until
one passes the test of the `do` loop. The sum `key + size_value` of that test is taken over the integers, which
is the `int` as long as `n_records` and the largest key drawn stay below `2 ^ 31` together. -/
def step (cfg : Config) (s : State) (l : Label) : Option State :=
  match s.place, l with
  | .choosing, .operation type =>
    if s.i < cfg.nOperations ∧ type ∈ cfg.operations then
      match type with
      | .READ | .UPDATE => some { s with place := .drawing type }
      | .SCAN => some { s with place := .measuring }
      | .WRITE => some (insert s)
      | _ => none
    else none
  | .drawing type, .data value =>
    let key := toInt value
    if key ≥ s.insertkeysequence.lastValue then some s else some (write s { operation := type, key := key })
  | .measuring, .length value =>
    let sizeValue := toInt value
    some { s with nRequests := s.nRequests + (sizeValue - 1), place := .drawingScan sizeValue }
  | .drawingScan sizeValue, .data value =>
    let key := toInt value
    if key + sizeValue ≥ s.insertkeysequence.lastValue then some s
    else some (write s { operation := .SCAN, key := key, sizeValue := sizeValue })
  | _, _ => none

/-- The loop as a labelled system. -/
def system (cfg : Config) : System State Label := ⟨init cfg, step cfg⟩

/-! ### What a draw can do -/

variable {cfg : Config} {s s' : State} {l : Label} {value size : Int}

/-- The cases of a draw. -/
inductive Draw (s : State) : Label → State → Prop
  | choose {type : RequestType} (place : s.place = .choosing) (keyed : type = .READ ∨ type = .UPDATE) :
      Draw s (.operation type) { s with place := .drawing type }
  | chooseScan (place : s.place = .choosing) : Draw s (.operation .SCAN) { s with place := .measuring }
  | insert (place : s.place = .choosing) : Draw s (.operation .WRITE) (insert s)
  | reject {type : RequestType} {value : Int} (place : s.place = .drawing type)
      (large : s.insertkeysequence.lastValue ≤ toInt value) : Draw s (.data value) s
  | accept {type : RequestType} {value : Int} (place : s.place = .drawing type)
      (small : toInt value < s.insertkeysequence.lastValue) :
      Draw s (.data value) (write s { operation := type, key := toInt value })
  | measure {value : Int} (place : s.place = .measuring) :
      Draw s (.length value)
        { s with nRequests := s.nRequests + (toInt value - 1), place := .drawingScan (toInt value) }
  | rejectScan {sizeValue value : Int} (place : s.place = .drawingScan sizeValue)
      (large : s.insertkeysequence.lastValue ≤ toInt value + sizeValue) : Draw s (.data value) s
  | acceptScan {sizeValue value : Int} (place : s.place = .drawingScan sizeValue)
      (small : toInt value + sizeValue < s.insertkeysequence.lastValue) :
      Draw s (.data value) (write s { operation := .SCAN, key := toInt value, sizeValue := sizeValue })

/-- The step function branch by branch: each draw and what it makes of the state. -/
theorem step_draw (h : step cfg s l = some s') : Draw s l s' := by
  unfold step at h
  split at h
  · rename_i type place
    obtain ⟨-, h⟩ := Option.ite_none_right_eq_some.mp h
    split at h
    · cases h
      exact .choose place (Or.inl rfl)
    · cases h
      exact .choose place (Or.inr rfl)
    · cases h
      exact .chooseScan place
    · cases h
      exact .insert place
    · cases h
  · rename_i type value place
    dsimp only at h
    split at h
    · cases h
      exact .reject place ‹_›
    · cases h
      exact .accept place (by omega)
  · rename_i value place
    cases h
    exact .measure place
  · rename_i sizeValue value place
    dsimp only at h
    split at h
    · cases h
      exact .rejectScan place ‹_›
    · cases h
      exact .acceptScan place (by omega)
  · cases h

/-! ### The keys of the lines -/

/-- The inserts among the lines. -/
def inserts (written : List Written) : Nat := written.countP Written.isInsert

/-- What the line `w` may touch after the lines `pre`: an insert takes the next key, a SCAN's range and
any other operation's key are keys that are there. -/
def Touches (nRecords : Int) (pre : List Written) (w : Written) : Prop :=
  match w.operation with
  | .WRITE => w.key = nRecords + inserts pre
  | .SCAN => 1 ≤ w.sizeValue ∧ ∀ k, w.key ≤ k → k ≤ w.key + w.sizeValue - 1 → 0 ≤ k ∧ k < nRecords + inserts pre
  | _ => 0 ≤ w.key ∧ w.key < nRecords + inserts pre

/-- The draws: keys are not negative, lengths are at least 1, and each value and the next key to insert
fits into an `int`. -/
def Fits (s : State) : Label → Prop
  | .operation _ => s.insertkeysequence.counter < 2 ^ 31
  | .length value => 1 ≤ value ∧ value < 2 ^ 31
  | .data value => 0 ≤ value ∧ value < 2 ^ 31

instance (s : State) (l : Label) : Decidable (Fits s l) := by
  cases l <;> unfold Fits <;> infer_instance

/-- What the loop keeps to. -/
structure Kept (cfg : Config) (s : State) : Prop where
  counter : s.insertkeysequence.counter = cfg.nRecords + inserts s.written
  limit : s.insertkeysequence.lastValue = cfg.nRecords + inserts s.written - 1
  keyed : ∀ type, s.place = .drawing type → type = .READ ∨ type = .UPDATE
  size : ∀ sizeValue, s.place = .drawingScan sizeValue → 1 ≤ sizeValue
  touches : EachAfter (Touches cfg.nRecords) s.written
  inserted : (s.written.filter Written.isInsert).map Written.key =
    (List.range (inserts s.written)).map fun j : Nat => cfg.nRecords + j
  lines : s.lines = s.written.map Written.line

theorem kept_init (cfg : Config) : Kept cfg (init cfg) where
  counter := (Int.add_zero _).symm
  limit := by
    simp only [inserts, init, List.countP_nil, Int.natCast_zero, Int.add_zero]
    rfl
  keyed := fun type place => by cases place
  size := fun sizeValue place => by cases place
  touches := .nil
  inserted := rfl
  lines := rfl

/-- A line that is no insert. -/
theorem Kept.write (h : Kept cfg s) {w : Written} (other : w.isInsert = false)
    (touches : Touches cfg.nRecords s.written w) : Kept cfg (write s w) := by
  have same : inserts (s.written ++ [w]) = inserts s.written := by
    simp [inserts, List.countP_append, other]
  constructor
  case counter => exact h.counter.trans (by rw [GenerateRequests.write, same])
  case limit => exact h.limit.trans (by rw [GenerateRequests.write, same])
  case keyed => exact fun type place => by cases place
  case size => exact fun sizeValue place => by cases place
  case touches => exact h.touches.snoc touches
  case inserted =>
    show ((s.written ++ [w]).filter _).map _ = _
    rw [List.filter_append, List.filter_cons_of_neg (by rw [other]; decide), List.filter_nil, List.append_nil,
      h.inserted, GenerateRequests.write, same]
  case lines =>
    show s.lines ++ [w.line] = (s.written ++ [w]).map _
    rw [List.map_append, h.lines, List.map_singleton]

/-- The insert branch takes the next key. -/
theorem Kept.insert (h : Kept cfg s) (fits : s.insertkeysequence.counter < 2 ^ 31) (records : 1 ≤ cfg.nRecords) :
    Kept cfg (insert s) := by
  have counter := h.counter
  have limit := h.limit
  have key : toInt s.insertkeysequence.counter = cfg.nRecords + inserts s.written := by
    rw [Storage.toInt_eq (by omega) fits, counter]
  have state : GenerateRequests.insert s = GenerateRequests.write
      { s with insertkeysequence := ⟨s.insertkeysequence.counter + 1, cfg.nRecords + inserts s.written⟩ }
      { operation := .WRITE, key := cfg.nRecords + inserts s.written } := by
    unfold GenerateRequests.insert AcknowledgedCounter.next AcknowledgedCounter.acknowledge
    dsimp only
    unfold AcknowledgedCounter.lastValue at limit
    rw [key, if_pos (by omega)]
  set w : Written := { operation := .WRITE, key := cfg.nRecords + inserts s.written } with line
  have more : inserts (s.written ++ [w]) = inserts s.written + 1 := by
    simp [inserts, List.countP_append, Written.isInsert, line]
  rw [state]
  constructor
  case counter =>
    show s.insertkeysequence.counter + 1 = cfg.nRecords + (inserts (s.written ++ [w]) : Int)
    rw [more]
    push_cast
    omega
  case limit =>
    show cfg.nRecords + (inserts s.written : Int) = cfg.nRecords + (inserts (s.written ++ [w]) : Int) - 1
    rw [more]
    push_cast
    omega
  case keyed => exact fun type place => by cases place
  case size => exact fun sizeValue place => by cases place
  case touches => exact h.touches.snoc rfl
  case inserted =>
    show ((s.written ++ [w]).filter _).map _ = (List.range (inserts (s.written ++ [w]))).map _
    rw [more, List.range_succ, List.map_append, List.filter_append, List.map_append, h.inserted]
    rfl
  case lines =>
    show s.lines ++ [w.line] = (s.written ++ [w]).map _
    rw [List.map_append, h.lines, List.map_singleton]

/-- **Every draw keeps to it.** -/
theorem Kept.step (h : Kept cfg s) (records : 1 ≤ cfg.nRecords) (fits : Fits s l) (step : step cfg s l = some s') :
    Kept cfg s' := by
  have limit := h.limit
  cases step_draw step with
  | choose place keyed =>
    refine { h with keyed := fun type eq => ?_, size := fun sizeValue eq => (by cases eq) }
    cases eq
    exact keyed
  | chooseScan place =>
    exact { h with keyed := fun type eq => (by cases eq), size := fun sizeValue eq => (by cases eq) }
  | insert place => exact h.insert fits records
  | reject place large => exact h
  | @accept type value place small =>
    have key : toInt value = value := Storage.toInt_eq (by have := fits.1; omega) fits.2
    have bounds : 0 ≤ toInt value ∧ toInt value < cfg.nRecords + inserts s.written := by
      have := fits.1
      omega
    rcases h.keyed type place with rfl | rfl
    · exact h.write rfl bounds
    · exact h.write rfl bounds
  | @measure value place =>
    have size : toInt value = value := Storage.toInt_eq (by have := fits.1; omega) fits.2
    refine { h with keyed := fun type eq => (by cases eq), size := fun sizeValue eq => ?_ }
    cases eq
    rw [size]
    exact fits.1
  | rejectScan place large => exact h
  | @acceptScan sizeValue value place small =>
    have key : toInt value = value := Storage.toInt_eq (by have := fits.1; omega) fits.2
    have nonneg := fits.1
    refine h.write rfl ⟨h.size sizeValue place, fun k low high => ?_⟩
    dsimp only at low high
    omega

/-- **The lines touch existing keys only.** After every stream of draws that fit, whichever operations, lengths and
keys the generators return, each READ, UPDATE and SCAN is of keys that were populated or inserted by a line before it,
the inserted keys are consecutive from `n_records` on, and the file holds the lines in their order. -/
theorem keys_exist (cfg : Config) (records : 1 ≤ cfg.nRecords) (s : State) (via : (system cfg).Via Fits s) :
    EachAfter (Touches cfg.nRecords) s.written ∧
    (s.written.filter Written.isInsert).map Written.key =
      (List.range (inserts s.written)).map (fun j : Nat => cfg.nRecords + j) ∧
    s.lines = s.written.map Written.line := by
  have kept : Kept cfg s := via.invariant (P := Kept cfg) (kept_init cfg) fun s l s' _ kept fits step =>
    kept.step records fits step
  exact ⟨kept.touches, kept.inserted, kept.lines⟩

/-- Three records and four operations. -/
def smallConfig : Config where
  nRecords := 3
  nOperations := 4
  read := true
  update := true
  insert := true
  scan := true
  dataDistribution := .UNIFORM
  scanLengthDistribution := .ZIPFIAN
  minScanLength := 1
  maxScanLength := 2
  expectedNewKeys := 2
  records_lt := by decide
  keys_lt := by decide

theorem keys_exist_four : ∃ s, (system smallConfig).Via Fits s ∧
    s.written.map Written.operation = [.WRITE, .UPDATE, .SCAN, .WRITE] ∧
    (s.written.filter Written.isInsert).map Written.key = [3, 4] := by
  obtain ⟨s, via, operations⟩ := System.exists_via (M := system smallConfig) Fits
    (P := fun s => s.written.map Written.operation = [.WRITE, .UPDATE, .SCAN, .WRITE])
    [.operation .WRITE, .operation .UPDATE, .data 3, .data 2, .operation .SCAN, .length 2, .data 1, .data 0,
      .operation .WRITE] (by decide)
  have keys := (keys_exist smallConfig (by decide) s via).2.1
  have two : inserts s.written = 2 := by
    have count : inserts s.written = (s.written.map Written.operation).countP fun type => decide (type = .WRITE) := by
      rw [List.countP_map]
      rfl
    rw [count, operations]
    rfl
  rw [two] at keys
  exact ⟨s, via, operations, keys⟩

/-! ### Whether the loop of a SCAN can end -/

/-- The draws: what the configured generators can return. -/
def InRange (cfg : Config) (s : State) : Label → Prop
  | .operation _ => True
  | .length value => cfg.scanLengths.1 ≤ value ∧ value ≤ cfg.scanLengths.2
  | .data value => 0 ≤ value ∧ value ≤ cfg.dataMax s.insertkeysequence

instance (cfg : Config) (s : State) (l : Label) : Decidable (InRange cfg s l) := by
  cases l <;> unfold InRange <;> infer_instance

/-- Some value that can be drawn ends the loop of a SCAN of length `sizeValue`, with a sum that is an `int`. -/
def CanEnd (cfg : Config) (s : State) (sizeValue : Int) : Prop :=
  ∃ value, InRange cfg s (.data value) ∧ toInt value + sizeValue < s.insertkeysequence.lastValue ∧
    toInt (toInt value + sizeValue) = toInt value + sizeValue

/-- The length drawn is below the last key, and the key range is not empty. -/
def LeavesRoom (cfg : Config) (s : State) : Label → Prop
  | .length value => value < s.insertkeysequence.lastValue ∧ 0 ≤ cfg.dataMax s.insertkeysequence
  | _ => True

instance (cfg : Config) (s : State) (l : Label) : Decidable (LeavesRoom cfg s l) := by
  cases l <;> unfold LeavesRoom <;> infer_instance

/-- A ZIPFIAN length. -/
theorem length_inRange (zipfian : cfg.scanLengthDistribution = .ZIPFIAN) (range : InRange cfg s (.length value)) :
    0 ≤ value ∧ value ≤ cfg.nRecords ∧ toInt value = value := by
  have lengths : cfg.scanLengths = (0, cfg.nRecords) := by
    unfold Config.scanLengths
    rw [zipfian]
  have records := cfg.records_lt
  obtain ⟨low, high⟩ := range
  rw [lengths] at low high
  exact ⟨low, high, Storage.toInt_eq (by omega) (by omega)⟩

/-- The loop of a SCAN has such a length. -/
def Measured (cfg : Config) (s : State) : Prop :=
  ∀ sizeValue, s.place = .drawingScan sizeValue → 0 ≤ sizeValue ∧ sizeValue ≤ cfg.nRecords

theorem Measured.step (h : Measured cfg s) (zipfian : cfg.scanLengthDistribution = .ZIPFIAN) (range : InRange cfg s l)
    (step : step cfg s l = some s') : Measured cfg s' := by
  intro sizeValue eq
  cases step_draw step with
  | choose | chooseScan | insert | accept | acceptScan => cases eq
  | reject place large | rejectScan place large => exact h sizeValue eq
  | @measure value place =>
    obtain ⟨low, high, same⟩ := length_inRange zipfian range
    cases eq
    rw [same]
    exact ⟨low, high⟩

/-- Room for a key is room for key 0. -/
theorem canEnd_iff (lengths : 0 ≤ size ∧ size ≤ cfg.nRecords) : CanEnd cfg s size ↔
    size < s.insertkeysequence.lastValue ∧ 0 ≤ cfg.dataMax s.insertkeysequence := by
  have records := cfg.records_lt
  have keys := cfg.keys_lt
  constructor
  · rintro ⟨value, ⟨low, high⟩, less, -⟩
    refine ⟨?_, low.trans high⟩
    by_cases int : value < 2 ^ 31
    · rw [Storage.toInt_eq (by omega) int] at less
      omega
    · -- only under LATEST a key can be larger than an `int`, and then there are that many keys
      unfold Config.dataMax at high
      split at high <;> omega
  · rintro ⟨less, nonempty⟩
    have zero : toInt 0 = 0 := by decide
    refine ⟨0, ⟨Int.le_refl 0, nonempty⟩, ?_⟩
    rw [zero, Int.zero_add]
    exact ⟨less, Storage.toInt_eq (by omega) (by omega)⟩

/-- A key drawn and the length are an `int` together. -/
theorem sum_toInt (lengths : 0 ≤ size ∧ size ≤ cfg.nRecords) (int : cfg.nRecords + cfg.dataMax s.insertkeysequence < 2 ^ 31)
    (range : InRange cfg s (.data value)) : toInt (toInt value + size) = toInt value + size := by
  obtain ⟨low, high⟩ := range
  rw [Storage.toInt_eq (x := value) (by omega) (by omega)]
  exact Storage.toInt_eq (by omega) (by omega)

/-- What is refused leaves the loop where it is. -/
theorem step_of_not_canEnd (lengths : 0 ≤ size ∧ size ≤ cfg.nRecords) (place : s.place = .drawingScan size)
    (stuck : ¬ CanEnd cfg s size) (range : InRange cfg s (.data value)) : step cfg s (.data value) = some s := by
  obtain ⟨low, high⟩ := range
  have full : s.insertkeysequence.lastValue ≤ size := by
    by_contra small
    exact stuck ((canEnd_iff lengths).mpr ⟨by omega, low.trans high⟩)
  have records := cfg.records_lt
  have keys := cfg.keys_lt
  have int : value < 2 ^ 31 := by
    unfold Config.dataMax at high
    split at high <;> omega
  have large : toInt value + size ≥ s.insertkeysequence.lastValue := by
    rw [Storage.toInt_eq (by omega) int]
    omega
  unfold step
  rw [place]
  exact if_pos large

/-- **The loop of a SCAN can end** in every run whose lengths leave room, under ZIPFIAN lengths and for each of the
three key distributions. Of any length it can end exactly if there is room, and if it cannot, every draw leaves it
where it is. The sums of the test are `int`s where `n_records` and the largest key are so together. -/
theorem scan_loop_can_end (cfg : Config) (zipfian : cfg.scanLengthDistribution = .ZIPFIAN) :
    (∀ s, (system cfg).Via (fun s l => InRange cfg s l ∧ LeavesRoom cfg s l) s → ∀ sizeValue,
      s.place = .drawingScan sizeValue → CanEnd cfg s sizeValue) ∧
    (∀ s, (system cfg).Via (InRange cfg) s → ∀ sizeValue, s.place = .drawingScan sizeValue →
      (CanEnd cfg s sizeValue ↔
        sizeValue < s.insertkeysequence.lastValue ∧ 0 ≤ cfg.dataMax s.insertkeysequence) ∧
      (¬ CanEnd cfg s sizeValue → ∀ value, InRange cfg s (.data value) →
        step cfg s (.data value) = some s) ∧
      (cfg.nRecords + cfg.dataMax s.insertkeysequence < 2 ^ 31 → ∀ value, InRange cfg s (.data value) →
        toInt (toInt value + sizeValue) = toInt value + sizeValue)) := by
  have measured (s : State) (via : (system cfg).Via (InRange cfg) s) : Measured cfg s :=
    via.invariant (P := Measured cfg) (fun sizeValue eq => by cases eq) fun s l s' _ kept range step =>
      kept.step zipfian range step
  constructor
  · intro s via
    have room : ∀ sizeValue, s.place = .drawingScan sizeValue →
        sizeValue < s.insertkeysequence.lastValue ∧ 0 ≤ cfg.dataMax s.insertkeysequence := by
      refine via.invariant (P := fun s => ∀ sizeValue, s.place = .drawingScan sizeValue →
        sizeValue < s.insertkeysequence.lastValue ∧ 0 ≤ cfg.dataMax s.insertkeysequence)
        (fun sizeValue eq => by cases eq) ?_
      intro s l s' _ kept met step sizeValue eq
      cases step_draw step with
      | choose | chooseScan | insert | accept | acceptScan => cases eq
      | reject place large | rejectScan place large => exact kept sizeValue eq
      | @measure value place =>
        cases eq
        rw [(length_inRange zipfian met.1).2.2]
        exact met.2
    intro sizeValue place
    have plain : (system cfg).Via (InRange cfg) s := via.mono fun s l met => met.1
    exact (canEnd_iff (measured s plain sizeValue place)).mpr (room sizeValue place)
  · intro s via sizeValue place
    have lengths := measured s via sizeValue place
    exact ⟨canEnd_iff lengths, fun stuck value range => step_of_not_canEnd lengths place stuck range,
      fun int value range => sum_toInt lengths int range⟩

theorem scan_loop_can_end_small : ∃ s, (system smallConfig).Via
    (fun s l => InRange smallConfig s l ∧ LeavesRoom smallConfig s l) s ∧ s.place = .drawingScan 1 ∧ CanEnd smallConfig s 1 := by
  obtain ⟨s, via, place⟩ := System.exists_via (M := system smallConfig)
    (fun s l => InRange smallConfig s l ∧ LeavesRoom smallConfig s l) (P := fun s => s.place = .drawingScan 1)
    [.operation .SCAN, .length 1] (by decide)
  exact ⟨s, via, place, (scan_loop_can_end smallConfig rfl).1 s via 1 place⟩

/-- Three records, no insert yet, and a SCAN of length 3: no key is small enough. -/
theorem scan_loop_endless : ∃ s, (system smallConfig).Via (InRange smallConfig) s ∧ s.place = .drawingScan 3 ∧
    ¬ CanEnd smallConfig s 3 := by
  obtain ⟨s, via, place, last⟩ := System.exists_via (M := system smallConfig) (InRange smallConfig)
    (P := fun s => s.place = .drawingScan 3 ∧ s.insertkeysequence.lastValue = 2)
    [.operation .SCAN, .length 3] (by decide)
  refine ⟨s, via, place, fun ends => ?_⟩
  have room := ((canEnd_iff (by decide)).mp ends).1
  omega

end GenerateRequests

end KvPaxos
