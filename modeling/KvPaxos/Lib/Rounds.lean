import Mathlib.Data.List.Forall2
import Mathlib.Data.List.Infix
import KvPaxos.Lib.System

/-!
# One job at a time

A job goes round between a party that orders it, one that produces its result and one that
installs the result, over whatever they share. `Rounds` is that protocol without the
sharing: the stage the only job is in and the history of orders `α` and results `β`.
`Balanced` reads the history off the stage, so that however the parties are scheduled no
order is lost or answered twice and no result is installed twice.
-/

namespace KvPaxos.Lib

/-- Where the job is; `idle` where there is none. -/
inductive Stage where
  | idle
  /-- Somebody asked for a job. -/
  | asked
  /-- The orderer prepares it. -/
  | claimed
  /-- It is ordered and not taken up yet. -/
  | posted
  | working
  /-- Its result is made, and then announced. -/
  | produced
  | announced
  /-- The result is installed, and then the announcement is withdrawn. -/
  | installed
  | withdrawn
  deriving DecidableEq

/-- How many orders have no result. -/
def Stage.inWork : Stage → Nat
  | .posted | .working => 1
  | _ => 0

/-- How many results are not installed. -/
def Stage.inHand : Stage → Nat
  | .produced | .announced => 1
  | _ => 0

/-- The job's stage and what happened so far: the orders, the results with the orders they answer, and
the results installed. -/
structure Rounds (α β : Type*) where
  stage : Stage := .idle
  ordered : List α := []
  produced : List (α × β) := []
  installed : List β := []

namespace Rounds

variable {α β : Type*}

inductive Event (α β : Type*) where
  | ask
  | claim
  | order (a : α)
  | take
  | produce (b : β)
  | announce
  | install
  | withdraw
  | settle

/-- The result of the last order, and so the next one to install. -/
def result? (t : Rounds α β) : Option β := t.produced.getLast?.map Prod.snd

/-- One event. The job may be claimed without having been asked for. -/
def step (t : Rounds α β) : Event α β → Option (Rounds α β)
  | .ask => if t.stage = .idle then some { t with stage := .asked } else none
  | .claim => if t.stage = .idle ∨ t.stage = .asked then some { t with stage := .claimed } else none
  | .order a =>
    if t.stage = .claimed then some { t with stage := .posted, ordered := t.ordered ++ [a] } else none
  | .take => if t.stage = .posted then some { t with stage := .working } else none
  | .produce b =>
    if t.stage = .working then t.ordered.getLast?.map fun a =>
      { t with stage := .produced, produced := t.produced ++ [(a, b)] }
    else none
  | .announce => if t.stage = .produced then some { t with stage := .announced } else none
  | .install =>
    if t.stage = .announced then t.result?.map fun b =>
      { t with stage := .installed, installed := t.installed ++ [b] }
    else none
  | .withdraw => if t.stage = .installed then some { t with stage := .withdrawn } else none
  | .settle => if t.stage = .withdrawn then some { t with stage := .idle } else none

variable (α β) in
/-- The protocol as a labelled system. -/
def system : System (Rounds α β) (Event α β) := ⟨{}, step⟩

/-- The history, read off the stage: the orders without a result and the results that are not
installed, of which there is at most one. -/
structure Balanced (t : Rounds α β) : Prop where
  orders : ∃ unanswered, t.ordered = t.produced.map Prod.fst ++ unanswered ∧
    unanswered.length = t.stage.inWork
  results : ∃ waiting, t.produced.map Prod.snd = t.installed ++ waiting ∧ waiting.length = t.stage.inHand

variable {t t' : Rounds α β}

/-- **Each event keeps the balance.** -/
theorem balanced_step {e : Event α β} (h : t.Balanced) (step : t.step e = some t') : t'.Balanced := by
  obtain ⟨⟨unanswered, orders, inWork⟩, ⟨waiting, results, inHand⟩⟩ := h
  cases e with
  | order a =>
    obtain ⟨stage, ⟨⟩⟩ := Option.ite_none_right_eq_some.mp step
    rw [stage] at inWork inHand
    obtain rfl := List.length_eq_zero_iff.mp inWork
    exact ⟨⟨[a], by rw [orders, List.append_nil], rfl⟩, waiting, results, inHand⟩
  | produce b =>
    obtain ⟨stage, made⟩ := Option.ite_none_right_eq_some.mp step
    obtain ⟨a, last, rfl⟩ := Option.map_eq_some_iff.mp made
    rw [stage] at inWork inHand
    obtain ⟨a', rfl⟩ := List.length_eq_one_iff.mp inWork
    obtain rfl := List.length_eq_zero_iff.mp inHand
    obtain rfl : a' = a := by simpa [orders] using last
    refine ⟨⟨[], ?_, rfl⟩, [b], ?_, rfl⟩
    · rw [orders, List.append_nil, List.map_append]
      rfl
    · rw [List.map_append, results, List.append_nil]
      rfl
  | install =>
    obtain ⟨stage, made⟩ := Option.ite_none_right_eq_some.mp step
    obtain ⟨b, last, rfl⟩ := Option.map_eq_some_iff.mp made
    rw [stage] at inWork inHand
    obtain ⟨b', rfl⟩ := List.length_eq_one_iff.mp inHand
    obtain rfl : b' = b := by
      rw [result?, ← List.getLast?_map, results, List.getLast?_concat] at last
      exact Option.some.inj last
    exact ⟨⟨unanswered, orders, inWork⟩, [], by rw [results, List.append_nil], rfl⟩
  | claim =>
    obtain ⟨stage, ⟨⟩⟩ := Option.ite_none_right_eq_some.mp step
    rcases stage with stage | stage <;> rw [stage] at inWork inHand
    · exact ⟨⟨unanswered, orders, inWork⟩, waiting, results, inHand⟩
    · exact ⟨⟨unanswered, orders, inWork⟩, waiting, results, inHand⟩
  | ask | take | announce | withdraw | settle =>
    obtain ⟨stage, ⟨⟩⟩ := Option.ite_none_right_eq_some.mp step
    rw [stage] at inWork inHand
    exact ⟨⟨unanswered, orders, inWork⟩, waiting, results, inHand⟩

/-- **In every run** the history is balanced. -/
theorem reachable_balanced (reachable : (system α β).Reachable t) : t.Balanced := by
  apply reachable.invariant (P := Balanced)
  · exact ⟨⟨[], rfl, rfl⟩, [], rfl, rfl⟩
  · exact fun t e t' balanced step => balanced_step balanced step

namespace Balanced

/-- The results answer the orders, in order. -/
theorem answers (h : t.Balanced) : t.produced.map Prod.fst <+: t.ordered := by
  obtain ⟨unanswered, orders, -⟩ := h.orders
  exact ⟨unanswered, orders.symm⟩

/-- The installed results are results, in order and each once. -/
theorem installs (h : t.Balanced) : t.installed <+: t.produced.map Prod.snd := by
  obtain ⟨waiting, results, -⟩ := h.results
  exact ⟨waiting, results.symm⟩

theorem length_le (h : t.Balanced) : t.ordered.length ≤ t.installed.length + 1 := by
  obtain ⟨unanswered, orders, inWork⟩ := h.orders
  obtain ⟨waiting, results, inHand⟩ := h.results
  have ordered := congrArg List.length orders
  have produced := congrArg List.length results
  have one : t.stage.inWork + t.stage.inHand ≤ 1 := by cases t.stage <;> decide
  simp only [List.length_append, List.length_map] at ordered produced
  omega

end Balanced

/-- The result installed last answers an order, the one whose place it has. -/
theorem exists_answered {γ : Type*} {R : γ → α → Prop} {marks : List γ} {ordered : List α} {produced : List (α × β)}
    {installed : List β} {b : β} (marked : List.Forall₂ R marks ordered) (answers : produced.map Prod.fst <+: ordered)
    (installs : installed <+: produced.map Prod.snd) (last : installed.getLast? = some b) :
    ∃ k a, (marks.take installed.length).getLast? = some k ∧ R k a ∧ (a, b) ∈ produced := by
  obtain ⟨before, rfl⟩ := List.getLast?_eq_some_iff.mp last
  obtain ⟨rest, results⟩ := installs
  rw [List.append_assoc] at results
  obtain ⟨older, tail, rfl, same, made⟩ := List.map_eq_append_iff.mp results.symm
  obtain ⟨⟨a, b'⟩, newer, rfl, rfl, -⟩ := List.map_eq_cons_iff.mp made
  obtain ⟨unanswered, orders⟩ := answers
  have length : before.length = (older.map Prod.fst).length := by rw [← same, List.length_map, List.length_map]
  rw [← orders, List.map_append, List.append_assoc] at marked
  have here := List.forall₂_drop_append _ _ _ marked
  obtain ⟨k, later, at_, -, eq⟩ := List.forall₂_cons_right_iff.mp here
  refine ⟨k, a, ?_, at_, List.mem_append_right _ List.mem_cons_self⟩
  rw [List.length_append, List.length_singleton, length, List.take_add, eq]
  exact List.getLast?_concat

end Rounds

end KvPaxos.Lib
