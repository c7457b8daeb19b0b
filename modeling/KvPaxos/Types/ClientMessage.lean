import Mathlib.Algebra.Group.Int.Defs
import Mathlib.Data.List.Basic
import Mathlib.Data.List.Range
import Mathlib.Data.List.Nodup

/-!
# Client messages

`client_message` with the fields the schedulers, the graph and the partitions read, and
`std::stoi` on its `args`. A SCAN carries its length as decimal text; every other message
is treated as touching one key. `range` is that length, `none` where `stoi` throws, and
`keys` the keys `key, key + 1, ...` the message covers.
-/

namespace KvPaxos

/-- `request_type`. -/
inductive RequestType where
  | READ | WRITE | SCAN | SYNC | ERROR | UPDATE | DUMMY | END
  deriving DecidableEq, Repr

/-- `client_message`; `args` is the text before the terminating NUL and `sAddr` the address
field, which a SYNC message uses for its barrier. -/
structure ClientMessage where
  id : Int := 0
  sAddr : Nat := 0
  key : Int := 0
  type : RequestType
  args : List Char := []
  deriving DecidableEq, Repr

/-- `isspace` in the C locale. -/
def isSpace (c : Char) : Bool :=
  c = ' ' || (9 ≤ c.toNat && c.toNat ≤ 13)

/-- The value of a run of decimal digits. -/
def decimal (ds : List Char) : Int :=
  ds.foldl (fun v c => 10 * v + (c.toNat - '0'.toNat : Nat)) 0

/-- `std::stoi`: blanks, an optional sign, the longest run of digits; `none` where it throws
(no digits, or a value outside `int`). -/
def stoi (text : List Char) : Option Int :=
  let rest := text.dropWhile isSpace
  let (negative, rest) := match rest with
    | '-' :: t => (true, t)
    | '+' :: t => (false, t)
    | t => (false, t)
  let digits := rest.takeWhile Char.isDigit
  let value := if negative then -decimal digits else decimal digits
  if digits = [] then none
  else if -2 ^ 31 ≤ value ∧ value < 2 ^ 31 then some value
  else none

namespace ClientMessage

/-- How many keys the message covers: `stoi(args)` for a SCAN, else 1. -/
def range (m : ClientMessage) : Option Int :=
  if m.type = .SCAN then stoi m.args else some 1

/-- The keys `key, ..., key + range - 1` in the order the loops visit them. -/
def keysFrom (m : ClientMessage) (range : Int) : List Int :=
  (List.range range.toNat).map fun i : Nat => m.key + i

/-- The keys the message covers. -/
def keys (m : ClientMessage) : List Int :=
  m.keysFrom (m.range.getD 0)

/-- A READ, WRITE or SCAN as the clients send it: a SCAN has a readable length of at least 1,
and no key of the range leaves `int`. -/
structure IsRequest (m : ClientMessage) : Prop where
  type : m.type = .READ ∨ m.type = .WRITE ∨ m.type = .SCAN
  range : ∃ r, m.range = some r ∧ 1 ≤ r
  lower : -2 ^ 31 ≤ m.key
  upper : ∀ r, m.range = some r → m.key + r ≤ 2 ^ 31

instance (m : ClientMessage) : Decidable m.IsRequest :=
  decidable_of_iff ((m.type = .READ ∨ m.type = .WRITE ∨ m.type = .SCAN) ∧
      ∃ r ∈ m.range, 1 ≤ r ∧ -2 ^ 31 ≤ m.key ∧ m.key + r ≤ 2 ^ 31) <| by
    constructor
    · rintro ⟨type, r, hr, pos, lower, upper⟩
      exact ⟨type, ⟨r, hr, pos⟩, lower, fun r' hr' => by rwa [← Option.mem_unique hr hr']⟩
    · rintro ⟨type, ⟨r, hr, pos⟩, lower, upper⟩
      exact ⟨type, r, hr, pos, lower, upper r hr⟩

theorem mem_keysFrom {m : ClientMessage} {r k : Int} :
    k ∈ m.keysFrom r ↔ m.key ≤ k ∧ k < m.key + r := by
  simp only [keysFrom, List.mem_map, List.mem_range]
  constructor
  · rintro ⟨i, hi, rfl⟩
    omega
  · rintro ⟨h1, h2⟩
    exact ⟨(k - m.key).toNat, by omega, by omega⟩

theorem mem_keys {m : ClientMessage} {r k : Int} (h : m.range = some r) :
    k ∈ m.keys ↔ m.key ≤ k ∧ k < m.key + r := by
  rw [keys, h]
  exact mem_keysFrom

theorem keysFrom_nodup (m : ClientMessage) (r : Int) : (m.keysFrom r).Nodup := by
  apply List.Nodup.map _ List.nodup_range
  intro i j h
  simp only at h
  omega

theorem range_of_not_scan {m : ClientMessage} (h : m.type ≠ .SCAN) : m.range = some 1 := by
  rw [range, if_neg h]

theorem keys_of_not_scan {m : ClientMessage} (h : m.type ≠ .SCAN) : m.keys = [m.key] := by
  simp [keys, keysFrom, range_of_not_scan h]

theorem IsRequest.not_sync {m : ClientMessage} (h : m.IsRequest) : m.type ≠ .SYNC := by
  rcases h.type with e | e | e <;> rw [e] <;> decide

/-- Two messages conflict when their key ranges share a key. -/
def Conflict (a b : ClientMessage) : Prop :=
  ∃ k, k ∈ a.keys ∧ k ∈ b.keys

end ClientMessage

example : stoi ['1', '2', '0'] = some 120 ∧ stoi [' ', '-', '7', 'x'] = some (-7) ∧ stoi ['x'] = none := by
  decide

end KvPaxos
