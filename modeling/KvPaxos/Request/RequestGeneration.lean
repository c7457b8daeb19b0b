import KvPaxos.Scheduler.Dispatch

/-!
# The workload file

`generate_export_requests` writes one line `type,key,args,` for each request, `import_cs_request`
reads a line back with `sscanf` and `build_client_message` copies the text of the third field into
the four bytes of `client_message::args`. What a variable holds that `sscanf` does not assign, and
what the message holds before it is filled, are arguments.
-/

namespace KvPaxos

/-- `std::to_string` of an `int`, which is also what `operator<<` writes. -/
def toText (x : Int) : List Char :=
  if x < 0 then '-' :: Nat.toDigits 10 x.natAbs else Nat.toDigits 10 x.natAbs

/-- The optional sign of a number. -/
def readSign : List Char → Bool × List Char
  | '-' :: text => (true, text)
  | '+' :: text => (false, text)
  | text => (false, text)

/-- The conversion `%d` of `sscanf`: the value and what is left of the text, `none` where nothing
matches. -/
def convert (text : List Char) : Option (Int × List Char) :=
  let (negative, rest) := readSign (text.dropWhile isSpace)
  let digits := rest.takeWhile Char.isDigit
  let value := if negative then -decimal digits else decimal digits
  if digits = [] then none else some (value, rest.dropWhile Char.isDigit)

namespace RequestType

/-- The value of an enumerator. -/
def toInt : RequestType → Int
  | .READ => 0
  | .WRITE => 1
  | .SCAN => 2
  | .SYNC => 3
  | .ERROR => 4
  | .UPDATE => 5
  | .DUMMY => 6
  | .END => 7

/-- `static_cast<request_type>`; `none` for a value that no enumerator has. -/
def ofInt (value : Int) : Option RequestType :=
  [READ, WRITE, SCAN, SYNC, ERROR, UPDATE, DUMMY, END].find? fun type => type.toInt = value

theorem ofInt_toInt (type : RequestType) : ofInt type.toInt = some type := by
  cases type <;> rfl

end RequestType

/-- `workload::Request`. -/
structure Request where
  type : RequestType
  key : Int
  args : List Char
  deriving DecidableEq, Repr

/-- The request of one turn of the loop in `generate_export_requests`: for the operation drawn, the
key it settles on and, for a SCAN, the length drawn. -/
def Request.generate (operation : RequestType) (key sizeValue : Int) : Request where
  type := if operation = .UPDATE then .WRITE else operation
  key := key
  args := if operation = .SCAN then toText sizeValue else []

/-- The line that is written, without its newline. -/
def Request.line (request : Request) : List Char :=
  toText request.type.toInt ++ ',' :: (toText request.key ++ ',' :: (request.args ++ [',']))

/-- `sscanf(line, "%d,%d,%d", ..)`: the values it assigns, which end at the first mismatch. -/
def scanLine (line : List Char) : Option Int × Option Int × Option Int :=
  match convert line with
  | none => (none, none, none)
  | some (type, ',' :: rest) =>
    match convert rest with
    | none => (some type, none, none)
    | some (key, ',' :: rest) => (some type, some key, (convert rest).map Prod.fst)
    | some (key, _) => (some type, some key, none)
  | some (type, _) => (some type, none, none)

/-- `make_request`; `none` where the type is no enumerator. -/
def makeRequest (type key arg : Int) : Option Request :=
  (RequestType.ofInt type).map fun type => ⟨type, key, toText arg⟩

/-- `import_cs_request` of the line; `type`, `key` and `arg` are what the variables hold before. -/
def importCsRequest (line : List Char) (type key arg : Int) : Option Request :=
  let (newType, newKey, newArg) := scanLine line
  makeRequest (newType.getD type) (newKey.getD key) (newArg.getD arg)

/-- A `client_message` in memory, as far as `build_client_message` fills it. -/
structure MessageBuffer where
  id : Int
  key : Int
  type : RequestType
  args : Vector Char 4
  size : Nat

/-- The terminating character. -/
def nul : Char := Char.ofNat 0

/-- `args[i] = c`; `none` behind the array. -/
def setArg (args : Vector Char 4) (i : Nat) (c : Char) : Option (Vector Char 4) :=
  if h : i < 4 then some (args.set i c h) else none

/-- The loop that copies the text from index `i` on, and the NUL behind it. -/
def storeArgs : Vector Char 4 → Nat → List Char → Option (Vector Char 4)
  | args, i, [] => setArg args i nul
  | args, i, c :: text => (setArg args i c).bind fun args => storeArgs args (i + 1) text

/-- `build_client_message`, where `id` is `client_message_id` and `memory` what `args` holds before;
`none` where it writes behind the array. -/
def buildClientMessage (id : Int) (memory : Vector Char 4) (request : Request) : Option MessageBuffer :=
  (storeArgs memory 0 request.args).map fun args =>
    { id := id, key := request.key, type := request.type, args := args, size := request.args.length }

/-- The text in the array up to the NUL; `none` where there is no NUL. -/
def MessageBuffer.text (message : MessageBuffer) : Option (List Char) :=
  if nul ∈ message.args.toList then some (message.args.toList.takeWhile (· ≠ nul)) else none

/-- The message as the scheduler reads it. -/
def MessageBuffer.clientMessage (message : MessageBuffer) : ClientMessage :=
  { id := message.id, key := message.key, type := message.type, args := message.text.getD [] }

/-- The message has the request's type, key and text, and as a SCAN a length that involves a
partition. -/
structure MessageBuffer.Carries (message : MessageBuffer) (request : Request) : Prop where
  type : message.type = request.type
  key : message.key = request.key
  text : message.text = some request.args
  size : message.size = request.args.length
  length : request.type = .SCAN → ∃ length, message.clientMessage.range = some length ∧ 1 ≤ length
  involved : request.type = .SCAN → ∀ (n : Nat) (mapping : Mapping n), ∃ mapping' partitions,
    mapping.involvedPartitions message.clientMessage = some (mapping', partitions) ∧ partitions.Nonempty

/-- Written to the file, read back and built, `request` comes out as a message that carries it;
`type`, `key` and `arg` are what the variables of `import_cs_request` hold before. -/
def Request.RoundTrips (request : Request) (type key arg id : Int) (memory : Vector Char 4) : Prop :=
  ∃ read message, importCsRequest request.line type key arg = some read ∧
    buildClientMessage id memory read = some message ∧ message.Carries request

section Decimal

variable {ds rest : List Char}

theorem decimal_eq_ofDigitChars (ds : List Char) : decimal ds = (Nat.ofDigitChars 10 ds 0 : Nat) := by
  have go : ∀ (ds : List Char) (v : Nat),
      ds.foldl (fun (v : Int) c => 10 * v + (c.toNat - '0'.toNat : Nat)) v = (Nat.ofDigitChars 10 ds v : Nat) := by
    intro ds
    induction ds with
    | nil => exact fun v => rfl
    | cons c ds ih =>
      intro v
      rw [List.foldl_cons, Nat.ofDigitChars_cons, ← ih]
      push_cast
      rfl
  exact go ds 0

theorem decimal_toDigits (n : Nat) : decimal (Nat.toDigits 10 n) = n := by
  rw [decimal_eq_ofDigitChars, Nat.ofDigitChars_ten_toDigits]

/-- A character that is neither blank nor sign starts the digits. -/
theorem not_space_of_isDigit {c : Char} (h : c.isDigit = true) : isSpace c = false := by
  have low : 48 ≤ c.toNat := by
    simp only [Char.isDigit, Bool.and_eq_true, decide_eq_true_eq] at h
    exact h.1
  have blank : c ≠ ' ' := by
    rintro rfl
    cases h
  simp only [isSpace, Bool.or_eq_false_iff, decide_eq_false_iff_not, blank, Bool.and_eq_false_iff]
  exact ⟨not_false, Or.inr (by omega)⟩

/-- The digits are taken, and the rest is left. -/
theorem split_digits (digits : ∀ c ∈ ds, c.isDigit = true) (boundary : ∀ c ∈ rest.head?, c.isDigit = false) :
    (ds ++ rest).takeWhile Char.isDigit = ds ∧ (ds ++ rest).dropWhile Char.isDigit = rest := by
  have stop : rest.takeWhile Char.isDigit = [] ∧ rest.dropWhile Char.isDigit = rest := by
    cases rest with
    | nil => exact ⟨rfl, rfl⟩
    | cons c rest =>
      have other := boundary c rfl
      rw [List.takeWhile_cons, List.dropWhile_cons, other]
      exact ⟨rfl, rfl⟩
  constructor
  · rw [List.takeWhile_append_of_pos digits, stop.1, List.append_nil]
  · rw [List.dropWhile_append_of_pos digits, stop.2]

theorem convert_digits (ne : ds ≠ []) (digits : ∀ c ∈ ds, c.isDigit = true)
    (boundary : ∀ c ∈ rest.head?, c.isDigit = false) : convert (ds ++ rest) = some (decimal ds, rest) := by
  obtain ⟨taken, left⟩ := split_digits digits boundary
  have start : readSign ((ds ++ rest).dropWhile isSpace) = (false, ds ++ rest) := by
    obtain ⟨c, ds, rfl⟩ := List.exists_cons_of_ne_nil ne
    have first : c.isDigit = true := digits c List.mem_cons_self
    have stay : (c :: ds ++ rest).dropWhile isSpace = c :: ds ++ rest :=
      List.dropWhile_cons_of_neg (by rw [not_space_of_isDigit first]; decide)
    rw [stay, List.cons_append]
    unfold readSign
    split
    · rename_i eq
      cases eq
      cases first
    · rename_i eq
      cases eq
      cases first
    · rfl
  unfold convert
  simp only [start, taken, left, if_neg ne]
  rfl

theorem convert_minus (ne : ds ≠ []) (digits : ∀ c ∈ ds, c.isDigit = true)
    (boundary : ∀ c ∈ rest.head?, c.isDigit = false) :
    convert ('-' :: (ds ++ rest)) = some (-decimal ds, rest) := by
  obtain ⟨taken, left⟩ := split_digits digits boundary
  have start : readSign (('-' :: (ds ++ rest)).dropWhile isSpace) = (true, ds ++ rest) := rfl
  unfold convert
  simp only [start, taken, left, if_neg ne]
  rfl

/-- **What is written is read back**, and the text behind it is left. -/
theorem convert_toText (x : Int) (boundary : ∀ c ∈ rest.head?, c.isDigit = false) :
    convert (toText x ++ rest) = some (x, rest) := by
  have digits : ∀ c ∈ Nat.toDigits 10 x.natAbs, c.isDigit = true := fun c =>
    Nat.isDigit_of_mem_toDigits (by decide) (by decide)
  unfold toText
  split
  · rw [List.cons_append, convert_minus Nat.toDigits_ne_nil digits boundary, decimal_toDigits]
    congr 2
    omega
  · rw [convert_digits Nat.toDigits_ne_nil digits boundary, decimal_toDigits]
    congr 2
    omega

/-- `std::stoi` reads as `%d` does and throws outside `int`. -/
theorem stoi_eq_convert (text : List Char) : stoi text =
    (convert text).bind fun (value, _) => if -2 ^ 31 ≤ value ∧ value < 2 ^ 31 then some value else none := by
  have sign : stoi text =
      (let (negative, rest) := readSign (text.dropWhile isSpace)
      let digits := rest.takeWhile Char.isDigit
      let value := if negative then -decimal digits else decimal digits
      if digits = [] then none else if -2 ^ 31 ≤ value ∧ value < 2 ^ 31 then some value else none) := rfl
  rw [sign]
  unfold convert
  dsimp only
  by_cases empty : (readSign (text.dropWhile isSpace)).2.takeWhile Char.isDigit = []
  · rw [if_pos empty, if_pos empty]
    rfl
  · rw [if_neg empty, if_neg empty]
    rfl

theorem stoi_toText {x : Int} (lower : -2 ^ 31 ≤ x) (upper : x < 2 ^ 31) : stoi (toText x) = some x := by
  have read : convert (toText x ++ []) = some (x, []) := convert_toText x fun c mem => by cases mem
  rw [List.append_nil] at read
  rw [stoi_eq_convert, read]
  exact if_pos ⟨lower, upper⟩

theorem toText_ne_nil (x : Int) : toText x ≠ [] := by
  unfold toText
  split
  · exact List.cons_ne_nil _ _
  · exact Nat.toDigits_ne_nil

theorem nul_notMem_toText (x : Int) : nul ∉ toText x := by
  have digits : nul ∉ Nat.toDigits 10 x.natAbs := fun mem =>
    absurd (Nat.isDigit_of_mem_toDigits (by decide) (by decide) mem) (by decide)
  unfold toText
  split
  · rw [List.mem_cons]
    rintro (eq | mem)
    · exact absurd eq (by decide)
    · exact digits mem
  · exact digits

/-- A number from 1 on has at most three digits up to 999. -/
theorem length_toText_le_three {x : Int} (pos : 1 ≤ x) : (toText x).length ≤ 3 ↔ x ≤ 999 := by
  rw [toText, if_neg (by omega), Nat.length_toDigits_le_iff (by decide) (by decide)]
  omega

end Decimal

/-! ### Through the line and the message -/

/-- What `sscanf` assigns from a written line; an empty third field leaves its variable alone. -/
theorem scanLine_line (request : Request) : scanLine request.line =
    (some request.type.toInt, some request.key, (convert (request.args ++ [','])).map Prod.fst) := by
  have comma : ∀ (rest : List Char), ∀ c ∈ (',' :: rest).head?, c.isDigit = false := by
    intro rest c mem
    cases mem
    rfl
  unfold scanLine Request.line
  simp only [convert_toText _ (comma _)]

theorem importCsRequest_line (request : Request) (type key arg : Int) :
    importCsRequest request.line type key arg = some ⟨request.type, request.key,
      toText (((convert (request.args ++ [','])).map Prod.fst).getD arg)⟩ := by
  simp only [importCsRequest, scanLine_line, Option.getD_some, makeRequest, RequestType.ofInt_toInt, Option.map_some]

theorem take_setArg {args args' : Vector Char 4} {i : Nat} {c : Char} (h : setArg args i c = some args') :
    i < 4 ∧ args'.toList.take (i + 1) = args.toList.take i ++ [c] := by
  unfold setArg at h
  split at h
  · rename_i lt
    cases h
    have inside : i < args.toList.length := by rwa [Vector.length_toList]
    refine ⟨lt, ?_⟩
    rw [Vector.toList_set, List.take_add_one, List.take_set_of_le (Nat.le_refl i),
      List.getElem?_set_self inside]
    rfl
  · cases h

/-- The text is stored with its NUL, or the loop has run off the array. -/
theorem storeArgs_spec (text : List Char) : ∀ (args : Vector Char 4) (i : Nat),
    (storeArgs args i text = none ↔ 4 ≤ i + text.length) ∧
    ∀ args', storeArgs args i text = some args' →
      args'.toList.take (i + text.length + 1) = args.toList.take i ++ (text ++ [nul]) := by
  have out : ∀ (args : Vector Char 4) i c, setArg args i c = none ↔ 4 ≤ i := by
    intro args i c
    unfold setArg
    split <;> simp <;> omega
  induction text with
  | nil => exact fun args i => ⟨out args i nul, fun args' h => (take_setArg h).2⟩
  | cons c text ih =>
    intro args i
    unfold storeArgs
    cases set : setArg args i c with
    | none =>
      have large := (out args i c).mp set
      rw [List.length_cons]
      exact ⟨iff_of_true rfl (by omega), fun args' h => by cases h⟩
    | some args₁ =>
      obtain ⟨lt, stored⟩ := take_setArg set
      obtain ⟨fails, stores⟩ := ih args₁ (i + 1)
      have shift : i + 1 + text.length = i + (text.length + 1) := by omega
      rw [shift] at fails stores
      refine ⟨fails, fun args' h => ?_⟩
      rw [List.length_cons, stores args' h, stored, List.append_assoc]
      rfl

/-- The message holds the text of the request, if it fits. -/
theorem buildClientMessage_spec (id : Int) (memory : Vector Char 4) (request : Request)
    (plain : nul ∉ request.args) :
    (buildClientMessage id memory request = none ↔ 4 ≤ request.args.length) ∧
    ∀ message, buildClientMessage id memory request = some message → message.type = request.type ∧
      message.key = request.key ∧ message.size = request.args.length ∧ message.text = some request.args := by
  obtain ⟨fails, stores⟩ := storeArgs_spec request.args memory 0
  unfold buildClientMessage
  refine ⟨by rw [Option.map_eq_none_iff, fails, Nat.zero_add], fun message h => ?_⟩
  obtain ⟨args, stored, rfl⟩ := Option.map_eq_some_iff.mp h
  refine ⟨rfl, rfl, rfl, ?_⟩
  have front := stores args stored
  rw [List.take_zero, List.nil_append] at front
  have whole := List.take_append_drop (0 + request.args.length + 1) args.toList
  rw [front, List.append_assoc] at whole
  unfold MessageBuffer.text
  rw [← whole, if_pos (by simp)]
  congr 1
  have before : ∀ c ∈ request.args, decide (c ≠ nul) = true := by
    intro c mem
    refine decide_eq_true ?_
    rintro rfl
    exact plain mem
  rw [List.takeWhile_append_of_pos before]
  simp

theorem MessageBuffer.range_of_scan {message : MessageBuffer} {text : List Char} (type : message.type = .SCAN)
    (stored : message.text = some text) : message.clientMessage.range = stoi text := by
  unfold ClientMessage.range MessageBuffer.clientMessage
  rw [if_pos type, stored]
  rfl

/-- A length from 1 on involves at least the partition of the first key. -/
theorem involved_nonempty {m : ClientMessage} {length : Int} (range : m.range = some length) (pos : 1 ≤ length)
    (n : Nat) (mapping : Mapping n) : ∃ mapping' partitions,
      mapping.involvedPartitions m = some (mapping', partitions) ∧ partitions.Nonempty := by
  have some : (mapping.involvedPartitions m).isSome = true := by
    unfold Mapping.involvedPartitions
    rw [range]
    rfl
  obtain ⟨⟨mapping', partitions⟩, involved⟩ := Option.isSome_iff_exists.mp some
  have first : m.key ∈ m.keys := by
    rw [ClientMessage.mem_keys range]
    omega
  obtain ⟨p, mem, -⟩ := (Mapping.involvedPartitions_spec involved).covered m.key first
  exact ⟨mapping', partitions, involved, p, mem⟩

/-- **The round trip of a written request**: `generate_export_requests` writes a line, `import_cs_request` reads it
with `sscanf`, and `build_client_message` copies the text of its length into the message. Whatever the uninitialised
variables hold, it succeeds for the SCANs whose length is from 1 to 999, and for no other line: the other operations
are written without a length, so that `arg` keeps what it held, and four characters leave no room for the NUL. -/
theorem line_round_trip (operation : RequestType) (newKey sizeValue type key arg id : Int) (memory : Vector Char 4) :
    (Request.generate operation newKey sizeValue).RoundTrips type key arg id memory ↔
      operation = .SCAN ∧ 1 ≤ sizeValue ∧ sizeValue ≤ 999 := by
  set request := Request.generate operation newKey sizeValue with generated
  constructor
  · rintro ⟨read, message, imported, built, carries⟩
    rw [importCsRequest_line] at imported
    generalize ((convert (request.args ++ [','])).map Prod.fst).getD arg = number at imported
    cases imported
    obtain ⟨fails, stores⟩ := buildClientMessage_spec id memory ⟨request.type, request.key, toText number⟩
      (nul_notMem_toText number)
    obtain ⟨-, -, -, text⟩ := stores message built
    have same : request.args = toText number := Option.some.inj (carries.text.symm.trans text)
    -- the text that is built is a number, so it is not empty
    have scan : operation = .SCAN := by
      by_contra other
      have empty : request.args = [] := if_neg other
      exact toText_ne_nil number (same.symm.trans empty)
    have type : request.type = .SCAN := by
      rw [generated, scan]
      rfl
    have args : request.args = toText sizeValue := if_pos scan
    obtain ⟨length, range, pos⟩ := carries.length type
    have value : length = sizeValue := by
      have readBack : convert (toText sizeValue ++ []) = some (sizeValue, []) :=
        convert_toText sizeValue fun c mem => by cases mem
      rw [List.append_nil] at readBack
      rw [MessageBuffer.range_of_scan (carries.type.trans type) carries.text, args, stoi_eq_convert, readBack] at range
      simp only [Option.bind_some] at range
      split at range
      · exact (Option.some.inj range).symm
      · cases range
    have fits : ¬ 4 ≤ (toText number).length := fun long => by
      rw [fails.mpr long] at built
      cases built
    rw [← same, args] at fits
    exact ⟨scan, by omega, (length_toText_le_three (by omega)).mp (by omega)⟩
  · rintro ⟨rfl, pos, short⟩
    have args : request.args = toText sizeValue := rfl
    have third : convert (request.args ++ [',']) = some (sizeValue, [',']) := by
      rw [args]
      refine convert_toText sizeValue fun c mem => ?_
      cases mem
      rfl
    have imported := importCsRequest_line request type key arg
    rw [third] at imported
    have plain : nul ∉ request.args := nul_notMem_toText sizeValue
    obtain ⟨fails, stores⟩ := buildClientMessage_spec id memory request plain
    have fits : (toText sizeValue).length ≤ 3 := (length_toText_le_three pos).mpr short
    obtain ⟨message, built⟩ : ∃ message, buildClientMessage id memory request = some message := by
      refine Option.ne_none_iff_exists'.mp fun none => ?_
      have long := fails.mp none
      rw [args] at long
      omega
    obtain ⟨sameType, sameKey, size, text⟩ := stores message built
    have range : message.clientMessage.range = some sizeValue := by
      rw [MessageBuffer.range_of_scan sameType text, args]
      exact stoi_toText (by omega) (by omega)
    exact ⟨request, message, imported, built, sameType, sameKey, text, size, fun _ => ⟨sizeValue, range, pos⟩,
      fun _ => involved_nonempty range pos⟩

/-- The line `1,7,,` of an insert: the variable of the third field holds 0, and the message has the
text `0` and not the empty one. -/
theorem empty_args_read_as_number :
    importCsRequest (Request.generate .WRITE 7 0).line 0 0 0 = some ⟨.WRITE, 7, ['0']⟩ ∧
    ¬ (Request.generate .WRITE 7 0).RoundTrips 0 0 0 0 (Vector.replicate 4 nul) := by
  refine ⟨by decide, ?_⟩
  rintro ⟨read, message, imported, built, carries⟩
  have known : importCsRequest (Request.generate .WRITE 7 0).line 0 0 0 = some ⟨.WRITE, 7, ['0']⟩ := by decide
  cases known.symm.trans imported
  cases built
  exact absurd carries.size (by decide)

end KvPaxos
