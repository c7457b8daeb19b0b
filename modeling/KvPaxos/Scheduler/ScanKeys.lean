import KvPaxos.Scheduler.Replica

/-!
# The keys a SCAN really reads

The workload of consecutive inserts and of SCANs of keys inserted before: the keys
`0, ..., N` are stored, the WRITEs insert `N + 1, N + 2, ...`, and no SCAN reaches past the
inserts before it. The scheduler orders a SCAN behind the inserts of its own range, so
its keys are there; but the modulo of `scan` takes them by the number of keys stored at
that moment, which lacks the inserts still waiting in other queues. `Covered` is the
condition that a computed key is below that number.
-/

namespace KvPaxos

open Lib

/-- The first `i` keys of a message's range. -/
def ClientMessage.firstKeys (m : ClientMessage) (i : Nat) : List Int :=
  (List.range i).map fun j : Nat => m.key + j

theorem ClientMessage.keys_eq_firstKeys {m : ClientMessage} {length : Int} (h : m.range = some length) :
    m.keys = m.firstKeys length.toNat := by
  rw [keys, h]
  rfl

theorem ClientMessage.firstKeys_succ (m : ClientMessage) (i : Nat) :
    m.firstKeys (i + 1) = m.firstKeys i ++ [m.key + i] := by
  simp [firstKeys, List.range_succ]

theorem ClientMessage.firstKeys_prefix (m : ClientMessage) {i j : Nat} (le : i ≤ j) :
    m.firstKeys i <+: m.firstKeys j := by
  obtain ⟨d, rfl⟩ := Nat.exists_eq_add_of_le le
  unfold firstKeys
  rw [List.range_add, List.map_append]
  exact List.prefix_append _ _

namespace Pool

variable {n : Nat} {cfg : Config n} {s s' : State n} {p q : Fin n} {k : Nat}

/-- The keys looked up for request `k`, in order. -/
def lookups (k : Nat) (trace : List (Event n)) : List Int :=
  trace.filterMap fun
    | .lookup _ j key => if j = k then some key else none
    | _ => none

/-- How many of the first `k` requests are inserts. -/
def inserts (cfg : Config n) (k : Nat) : Nat :=
  (cfg.requests.take k).countP fun m => m.type = .WRITE

/-- Keys `0, ..., N` are stored, WRITEs insert the next keys one by one, and SCANs stay within what the
requests before them have inserted. -/
structure Inserting (N : Nat) (cfg : Config n) : Prop where
  storage : cfg.storage = Storage.populated cfg.compresser ((List.range (N + 1)).map Nat.cast)
  requests : ∀ m ∈ cfg.requests, m.IsRequest
  each : ∀ k m, cfg.requests[k]? = some m →
    m.type = .WRITE ∧ m.key = ((N + 1 + inserts cfg k : Nat) : Int) ∨
    m.type = .SCAN ∧ ∀ length, m.range = some length → m.key + length - 1 ≤ ((N + inserts cfg k : Nat) : Int)

/-- A key a SCAN computes next is below the number of stored keys. -/
def Worker.Covered (storage : Storage) : Worker → Prop
  | .scanning e length i _ => (i : Int) < length →
    0 ≤ e.message.key + i ∧ e.message.key + i < UnorderedMap.size storage
  | _ => True

/-- The condition on the steps of a run: computed keys are below the number of stored keys. -/
def Covered (s : State n) : Label n → Prop
  | .work p _ => Worker.Covered s.storage (s.partitions p).worker
  | _ => True

instance (storage : Storage) : ∀ w, Decidable (Worker.Covered storage w)
  | .scanning _ _ _ _ => inferInstanceAs (Decidable (_ → _))
  | .waiting | .popping | .releasing _ | .handling _ | .reading _ _ _ _ _ | .atBarrier _ | .destroying _
  | .counting _ _ => inferInstanceAs (Decidable True)

instance (s : State n) : ∀ l, Decidable (Covered s l)
  | .work p _ => inferInstanceAs (Decidable (Worker.Covered s.storage (s.partitions p).worker))
  | .dispatch _ _ | .repartition _ _ | .push => inferInstanceAs (Decidable True)

section Inserts

theorem inserts_succ {m : ClientMessage} (hm : cfg.requests[k]? = some m) :
    inserts cfg (k + 1) = inserts cfg k + if m.type = .WRITE then 1 else 0 := by
  unfold inserts
  rw [List.take_add_one, hm, List.countP_append]
  by_cases write : m.type = .WRITE <;> simp [write]

/-- The inserts before request `k` have all been dispatched before it. -/
theorem exists_insert {N : Nat} (inserting : Inserting N cfg) {j : Nat} (lt : j < inserts cfg k) :
    ∃ i < k, ∃ m, cfg.requests[i]? = some m ∧ m.type = .WRITE ∧ m.key = ((N + 1 + j : Nat) : Int) := by
  induction k with
  | zero => exact absurd lt (by simp [inserts])
  | succ k ih =>
    by_cases before : j < inserts cfg k
    · obtain ⟨i, lt, h⟩ := ih before
      exact ⟨i, by omega, h⟩
    · cases hm : cfg.requests[k]? with
      | none =>
        have same : inserts cfg (k + 1) = inserts cfg k := by
          unfold inserts
          rw [List.take_add_one, hm]
          simp
        omega
      | some m =>
        rw [inserts_succ hm] at lt
        rcases inserting.each k m hm with ⟨write, key⟩ | ⟨scan, -⟩
        · rw [if_pos write] at lt
          have last : j = inserts cfg k := by omega
          exact ⟨k, by omega, m, hm, write, by rw [key, last]⟩
        · rw [if_neg (by rw [scan]; decide)] at lt
          omega

theorem mem_start {N : Nat} (inserting : Inserting N cfg) (x : Int) :
    x ∈ cfg.storage ↔ 0 ≤ x ∧ x ≤ N := by
  rw [inserting.storage, (Storage.populated_spec _).2, List.mem_map]
  simp only [List.mem_range]
  constructor
  · rintro ⟨i, lt, rfl⟩
    omega
  · rintro ⟨lower, upper⟩
    exact ⟨x.toNat, by omega, by omega⟩

theorem Inserting.uniform {N : Nat} (inserting : Inserting N cfg) : cfg.storage.Uniform cfg.compresser :=
  inserting.storage ▸ (Storage.populated_spec _).1

/-- A SCAN's keys are stored in the one-by-one execution. -/
theorem met_scan {N : Nat} (inserting : Inserting N cfg) {m : ClientMessage} (hm : cfg.requests[k]? = some m)
    (type : m.type = .SCAN) {x : Int} (mem : x ∈ m.keys) (lower : 0 ≤ x) : x ∈ met cfg k := by
  rw [met, Sequential.mem_storageBefore, mem_start inserting]
  rcases inserting.each k m hm with ⟨write, -⟩ | ⟨-, bound⟩
  · rw [type] at write
    cases write
  · obtain ⟨length, range, -⟩ := (inserting.requests m (List.mem_of_getElem? hm)).range
    have last := bound length range
    have below := (ClientMessage.mem_keys range).mp mem
    by_cases start : x ≤ N
    · exact Or.inl ⟨lower, start⟩
    · obtain ⟨i, lt, r, hr, write, key⟩ := exists_insert inserting (k := k) (j := (x - (N + 1)).toNat) (by omega)
      exact Or.inr ⟨i, lt, r, hr, write, by omega⟩

end Inserts

section Steps

theorem lookups_append (k : Nat) (l l' : List (Event n)) : lookups k (l ++ l') = lookups k l ++ lookups k l' :=
  List.filterMap_append

/-- What a worker in the middle of a SCAN has looked up. -/
def Worker.Reads (trace : List (Event n)) : Worker → Prop
  | .scanning e length i _ => (i : Int) ≤ length ∧ lookups e.number trace = e.message.firstKeys i
  | .reading e length i _ key => (i : Int) < length ∧ lookups e.number trace = e.message.firstKeys i ∧ key = e.message.key + i ∧ 0 ≤ key
  | .counting e _ => e.message.type = .SCAN → lookups e.number trace = e.message.keys
  | _ => True

/-- What the lookups in the trace have been. -/
structure Scanned (cfg : Config n) (s : State n) : Prop where
  workers : ∀ p, Worker.Reads s.trace (s.partitions p).worker
  fresh : ∀ k, k ∉ s.trace.filterMap Event.started → lookups k s.trace = []
  done : ∀ k ∈ s.trace.filterMap Event.finished, ∀ m, cfg.requests[k]? = some m → m.type = .SCAN →
    lookups k s.trace = m.keys
  errors : ∀ p k, .error p k ∉ s.trace

theorem init_scanned : Scanned cfg (init cfg) :=
  ⟨fun _ => True.intro, fun _ _ => rfl, fun _ mem => absurd mem List.not_mem_nil, fun _ _ => List.not_mem_nil⟩

/-- A worker's part of the trace is its request's lookups. -/
theorem Worker.Reads.congr {w : Worker} {trace trace' : List (Event n)} (h : Worker.Reads trace w)
    (same : ∀ e, w.running = some e → lookups e.number trace' = lookups e.number trace) :
    Worker.Reads trace' w := by
  cases w with
  | scanning e length i values =>
    simp only [Worker.Reads] at h ⊢
    rwa [same e rfl]
  | reading e length i values key =>
    simp only [Worker.Reads] at h ⊢
    rwa [same e rfl]
  | counting e text =>
    simp only [Worker.Reads] at h ⊢
    rwa [same e rfl]
  | _ => exact True.intro

/-- Steps without a lookup. -/
theorem Scanned.put (scanned : Scanned cfg s) {part : Partition} (events : List (Event n))
    (partitions : s'.partitions = Function.update s.partitions p part) (trace : s'.trace = s.trace ++ events)
    (none : ∀ k, lookups k events = []) (fine : ∀ q k, .error q k ∉ events)
    (worker : Worker.Reads s.trace part.worker)
    (finished : ∀ k ∈ events.filterMap Event.finished, ∀ m, cfg.requests[k]? = some m → m.type = .SCAN →
      lookups k s.trace = m.keys) : Scanned cfg s' := by
  have same : ∀ k, lookups k s'.trace = lookups k s.trace := by
    intro k
    rw [trace, lookups_append, none, List.append_nil]
  refine ⟨fun q => ?_, fun k mem => ?_, fun k mem => ?_, fun q k mem => ?_⟩
  · refine Worker.Reads.congr ?_ fun e _ => same e.number
    rw [partitions]
    by_cases eq : q = p
    · subst eq
      rwa [Function.update_self]
    · rw [Function.update_of_ne eq]
      exact scanned.workers q
  · rw [same]
    apply scanned.fresh k
    intro old
    rw [trace, List.filterMap_append] at mem
    exact mem (List.mem_append_left _ old)
  · rw [same]
    rw [trace, List.filterMap_append] at mem
    rcases List.mem_append.mp mem with mem | mem
    · exact scanned.done k mem
    · exact finished k mem
  · rw [trace] at mem
    rcases List.mem_append.mp mem with mem | mem
    · exact scanned.errors q k mem
    · exact fine q k mem

/-- A lookup that finds its key. -/
theorem Scanned.lookup (scanned : Scanned cfg s) (rec : Recorded cfg s) (sound : Sound cfg s) {e : Entry}
    {part : Partition} {key : Int} (running : (s.partitions p).worker.running = some e)
    (partitions : s'.partitions = Function.update s.partitions p part)
    (trace : s'.trace = s.trace ++ [.lookup p e.number key])
    (worker : Worker.Reads (s.trace ++ [.lookup p e.number key]) part.worker) : Scanned cfg s' := by
  obtain ⟨hold, request⟩ := running_request sound.accounted running
  have others : ∀ k, k ≠ e.number → lookups k s'.trace = lookups k s.trace := by
    intro k ne
    rw [trace, lookups_append]
    simp [lookups, Ne.symm ne]
  have start : e.number ∈ s.trace.filterMap Event.started :=
    mem_started.mpr ⟨p, (rec.started p _).mpr (Or.inr ⟨e, running, rfl⟩)⟩
  refine ⟨fun q => ?_, fun k mem => ?_, fun k mem => ?_, fun q k mem => ?_⟩
  · rw [partitions]
    by_cases eq : q = p
    · subst eq
      rwa [Function.update_self, trace]
    · rw [Function.update_of_ne eq]
      refine Worker.Reads.congr (scanned.workers q) fun f running' => others f.number fun same => eq ?_
      obtain ⟨hold', request'⟩ := running_request sound.accounted running'
      exact (place_unique sound.planned (current_place sound.accounted hold' request')
        (current_place sound.accounted hold request) same).1
  · rw [trace, List.filterMap_append] at mem
    have old : k ∉ s.trace.filterMap Event.started := fun h => mem (List.mem_append_left _ h)
    rw [others k fun eq => old (eq ▸ start)]
    exact scanned.fresh k old
  · rw [trace, List.filterMap_append] at mem
    have old : k ∈ s.trace.filterMap Event.finished := by simpa [Event.finished] using mem
    rw [others k fun eq => rec.unfinished sound.accounted sound.planned hold request (eq ▸ old)]
    exact scanned.done k old
  · rw [trace] at mem
    rcases List.mem_append.mp mem with mem | mem
    · exact scanned.errors q k mem
    · cases List.mem_singleton.mp mem

theorem Work.scanned_step {N : Nat} (inserting : Inserting N cfg) (h : Work cfg s p s') (sound : Sound cfg s)
    (ordered : Ordered s) (rec : Recorded cfg s) (stored : Stored cfg s) (scanned : Scanned cfg s)
    (covered : Worker.Covered s.storage (s.partitions p).worker) : Scanned cfg s' := by
  have typed := (sound.accounted p).typed
  have worker := scanned.workers p
  have message : ∀ {e : Entry}, (s.partitions p).worker.entry = some e → e.message.type ≠ .SYNC →
      cfg.requests[e.number]? = some e.message := fun hold type =>
    current_message sound hold (Entry.barrier_eq_none.mpr type)
  -- nothing has been looked up for a request that is about to start
  have unread : ∀ {e : Entry}, (s.partitions p).worker = .handling e → e.message.type ≠ .SYNC →
      lookups e.number s.trace = [] := by
    intro e place type
    apply scanned.fresh
    intro mem
    obtain ⟨q, mem⟩ := mem_started.mp mem
    exact not_begun sound.accounted sound.planned place (Entry.barrier_eq_none.mpr type) q
      ((rec.started q _).mp mem)
  cases h with
  | acquire | dequeue | release | elect | leave | arrive | destroy =>
    exact scanned.put _ rfl rfl (fun _ => rfl) (by simp) True.intro (by simp [Event.finished])
  | read place type | write place type =>
    refine scanned.put _ rfl rfl (fun _ => rfl) (by simp) (fun scan => ?_) (by simp [Event.finished])
    rw [type] at scan
    cases scan
  | other place type =>
    exact scanned.put _ rfl rfl (fun _ => rfl) (by simp) (fun scan => absurd scan type.2.2.1)
      (by simp [Event.finished])
  | @scan e length place type range =>
    have here := message (by rw [place]; rfl) (by rw [type]; decide)
    obtain ⟨r, hr, pos⟩ := (inserting.requests _ (List.mem_of_getElem? here)).range
    cases range.symm.trans hr
    refine scanned.put _ rfl rfl (fun _ => rfl) (by simp) ⟨by omega, ?_⟩ (by simp [Event.finished])
    rw [unread place (by rw [type]; decide)]
    rfl
  | @key e length i values place more size =>
    rw [place] at worker covered typed
    obtain ⟨type, range⟩ := typed
    obtain ⟨-, reads⟩ := worker
    obtain ⟨lower, small⟩ := covered more
    have here := message (by rw [place]; rfl) (by rw [type]; decide)
    have upper := (inserting.requests _ (List.mem_of_getElem? here)).upper length range
    have exact_ := Storage.scanKey_of_lt lower (by omega) small
    exact scanned.put [] rfl rfl (fun _ => rfl) (by simp) ⟨more, reads, exact_, by rw [exact_]; exact lower⟩
      (by simp)
  | @scanned e length i values place last =>
    rw [place] at worker typed
    obtain ⟨le, reads⟩ := worker
    refine scanned.put [] rfl rfl (fun _ => rfl) (by simp) (fun _ => ?_) (by simp)
    have done : i = length.toNat := by omega
    rw [reads, ClientMessage.keys_eq_firstKeys typed.2, done]
  | @hit e length i values key value place found =>
    rw [place] at worker
    obtain ⟨lt, reads, rfl, -⟩ := worker
    refine scanned.lookup rec sound (by rw [place]; rfl) rfl rfl ⟨by omega, ?_⟩
    rw [lookups_append, reads, ClientMessage.firstKeys_succ]
    simp [lookups]
  | @miss e length i values key place absent =>
    rw [place] at worker typed
    obtain ⟨type, range⟩ := typed
    obtain ⟨lt, -, rfl, lower⟩ := worker
    have mem : e.message.key + i ∈ e.message.keys := by
      rw [ClientMessage.mem_keys range]
      omega
    have hold : (s.partitions p).worker.entry = some e := by rw [place]; rfl
    have here := message hold (by rw [type]; decide)
    have present := (present_iff sound ordered rec stored hold (Entry.barrier_eq_none.mpr (by rw [type]; decide))
      (by rw [type]; decide) mem).mpr (met_scan inserting here type mem lower)
    rw [stored.uniform.read, if_pos present] at absent
    cases absent
  | @count e text place =>
    rw [place] at worker typed
    refine scanned.put _ rfl rfl (fun _ => rfl) (by simp) True.intro fun k mem m hm type => ?_
    simp only [List.filterMap_cons, Event.finished, List.filterMap_nil, List.mem_singleton] at mem
    subst mem
    cases (message (by rw [place]; rfl) typed).symm.trans hm
    exact worker type

theorem Scanned.of_same (scanned : Scanned cfg s) (trace : s'.trace = s.trace)
    (workers : ∀ p, (s'.partitions p).worker = (s.partitions p).worker) : Scanned cfg s' := by
  refine ⟨fun p => ?_, ?_, ?_, ?_⟩
  · rw [trace, workers]
    exact scanned.workers p
  · rw [trace]
    exact scanned.fresh
  · rw [trace]
    exact scanned.done
  · rw [trace]
    exact scanned.errors

theorem Push.scanned (h : Push cfg s s') (scanned : Scanned cfg s) : Scanned cfg s' := by
  cases h with
  | skip => exact scanned.of_same rfl fun _ => rfl
  | reserve | enqueue | post =>
    refine scanned.of_same (List.append_nil _) fun p => ?_
    simp only [put_partitions, Function.update_apply]
    split
    · rename_i eq
      rw [eq]
    · rfl

/-- **Guarded runs read what the SCANs ask for.** -/
theorem via_scanned {N : Nat} (inserting : Inserting N cfg) (run : (system cfg).Via Covered s) :
    Scanned cfg s := by
  refine run.invariant init_scanned fun s l s' via scanned covered h => ?_
  obtain ⟨sound, ordered, rec⟩ := reachable_recorded inserting.requests via.reachable
  have stored := reachable_stored inserting.requests inserting.uniform via.reachable
  have setUp : SetUp cfg s s' → Scanned cfg s' := fun up =>
    scanned.of_same up.trace fun p => by rw [up.partitions]
  cases l with
  | dispatch first rest => exact setUp ((dispatch_cases h).setUp inserting.requests)
  | repartition scheme order => exact setUp ((repartition_cases h).setUp s.mapping.roundRobinCounter.pos)
  | push => exact (push_cases h).scanned scanned
  | work p serial => exact (work_cases h).scanned_step inserting sound ordered rec stored scanned covered

/-- A SCAN under way has looked up a first part of its keys. -/
theorem running_prefix (sound : Sound cfg s) (scanned : Scanned cfg s) {e : Entry}
    (running : (s.partitions p).worker.running = some e) (type : e.message.type = .SCAN) :
    lookups e.number s.trace <+: e.message.keys := by
  have typed := (sound.accounted p).typed
  have worker := scanned.workers p
  cases place : (s.partitions p).worker with
  | scanning f length i values =>
    rw [place] at running typed worker
    cases running
    obtain ⟨le, reads⟩ := worker
    rw [reads, ClientMessage.keys_eq_firstKeys typed.2]
    exact ClientMessage.firstKeys_prefix _ (by omega)
  | reading f length i values key =>
    rw [place] at running typed worker
    cases running
    obtain ⟨lt, reads, -⟩ := worker
    rw [reads, ClientMessage.keys_eq_firstKeys typed.2]
    exact ClientMessage.firstKeys_prefix _ (by omega)
  | counting f text =>
    rw [place] at running worker
    cases running
    rw [worker type]
  | _ =>
    rw [place] at running
    cases running

end Steps

/-- **A SCAN reads its own keys, while the storage is large enough.** In the workload of consecutive inserts
the key of an iteration is the one asked for exactly if it is below the number of stored keys; in the runs where
that always holds every SCAN looks up `key, key + 1, ...` in order, all of them by its end, and none fails. -/
theorem scan_reads_range (N : Nat) (cfg : Config n) (inserting : Inserting N cfg) :
    (∀ s, (system cfg).Reachable s → ∀ p e length i values, (s.partitions p).worker = .scanning e length i values →
      (i : Int) < length → 0 ≤ e.message.key + i →
      (s.storage.scanKey (e.message.key + i) = e.message.key + i ↔
        e.message.key + i < UnorderedMap.size s.storage)) ∧
    ∀ s, (system cfg).Via Covered s → (∀ p k, .error p k ∉ s.trace) ∧
      ∀ k m, cfg.requests[k]? = some m → m.type = .SCAN → lookups k s.trace <+: m.keys ∧
        (k ∈ s.trace.filterMap Event.finished → lookups k s.trace = m.keys) := by
  refine ⟨fun s reach p e length i values place more lower => ?_, fun s run => ?_⟩
  · have sound := reachable_sound inserting.requests reach
    have stored := reachable_stored inserting.requests inserting.uniform reach
    have typed := (sound.accounted p).typed
    rw [place] at typed
    have hold : (s.partitions p).worker.entry = some e := by rw [place]; rfl
    have here := current_message sound hold (Entry.barrier_eq_none.mpr (by rw [typed.1]; decide))
    have upper := (inserting.requests _ (List.mem_of_getElem? here)).upper length typed.2
    have zero : (0 : Int) ∈ s.storage :=
      (stored.keys 0).mpr (Or.inl ((mem_start inserting 0).mpr ⟨Int.le_refl _, by omega⟩))
    exact Storage.scanKey_eq_iff (Storage.size_ne_zero zero) lower (by omega)
  · have scanned := via_scanned inserting run
    obtain ⟨sound, ordered, rec⟩ := reachable_recorded inserting.requests run.reachable
    refine ⟨scanned.errors, fun k m hm type => ⟨?_, fun mem => scanned.done k mem m hm type⟩⟩
    by_cases started : k ∈ s.trace.filterMap Event.started
    · obtain ⟨p, start⟩ := mem_started.mp started
      rcases (rec.started p k).mp start with done | ⟨e, running, rfl⟩
      · obtain ⟨text, mem⟩ := (rec.finished p k).mpr done
        rw [scanned.done k (mem_finished.mpr ⟨p, text, mem⟩) m hm type]
      · obtain ⟨hold, request⟩ := running_request sound.accounted running
        cases (current_message sound hold request).symm.trans hm
        exact running_prefix sound scanned running type
    · rw [scanned.fresh k started]
      exact List.nil_prefix

/-- Three partitions, key 0 stored, the inserts 1, 2 and 3 on one partition each and a SCAN of key 3. -/
def insertConfig : Config 3 where
  capacity := 0
  compresser := ⟨id, some⟩
  storage := Storage.populated ⟨id, some⟩ ((List.range 1).map Nat.cast)
  mapping := ⟨Finmap.insert 0 0 ∅, 1⟩
  requests := [{ key := 1, type := .WRITE }, { key := 2, type := .WRITE }, { key := 3, type := .WRITE },
    { key := 3, type := .SCAN, args := ['1'] }]

/-- The requests are sent to their partitions; `labels` are the steps of the workers. -/
def insertRun (labels : List (Label 3)) : List (Label 3) :=
  [1, 2, 0, 0].flatMap (fun p => .dispatch p [] :: List.replicate 3 .push) ++ labels

theorem insertConfig_inserting : Inserting 0 insertConfig := by
  refine ⟨rfl, by decide, fun k m hm => ?_⟩
  rcases k with _ | _ | _ | _ | k
  · cases hm
    exact Or.inl ⟨rfl, rfl⟩
  · cases hm
    exact Or.inl ⟨rfl, rfl⟩
  · cases hm
    exact Or.inl ⟨rfl, rfl⟩
  · cases hm
    refine Or.inr ⟨rfl, fun length range => ?_⟩
    cases range
    decide
  · cases hm

theorem scan_reads_range_insert : ∃ s, (system insertConfig).Via Covered s ∧ lookups 3 s.trace = [3] := by
  obtain ⟨s, run, finished⟩ := System.exists_via (M := system insertConfig) Covered
    (P := fun s => 3 ∈ s.trace.filterMap Event.finished)
    (insertRun (List.replicate 5 (.work 1 0) ++ List.replicate 5 (.work 2 0) ++ List.replicate 13 (.work 0 0)))
    (by decide +kernel)
  have reads := ((scan_reads_range 0 insertConfig insertConfig_inserting).2 s run).2 3 _ rfl rfl
  exact ⟨s, run, reads.2 finished⟩

/-- With the inserts 1 and 2 still queued the SCAN of key 3 looks up `3 % 2 = 1` and fails. -/
theorem scan_misses_range : Inserting 0 insertConfig ∧ ∃ s, (system insertConfig).Reachable s ∧
    lookups 3 s.trace = [1] ∧ .error 0 3 ∈ s.trace := by
  refine ⟨insertConfig_inserting, System.exists_reachable (M := system insertConfig)
    (P := fun s => lookups 3 s.trace = [1] ∧ .error 0 3 ∈ s.trace)
    (insertRun (List.replicate 11 (.work 0 0))) (by decide +kernel)⟩

end Pool

end KvPaxos
