import Mathlib.Data.Option.Basic

/-!
# Objects and what a client sees of them

An `Object` performs operations: each gives an answer and the next state, or has no meaning in
the state it is called in. A client sees the answers, and two objects one of which simulates the
other cannot be told apart.
-/

namespace KvPaxos.Lib

/-- An operation on a state gives an answer and the next state; `none` where it has no meaning. -/
structure Object (σ κ β : Type*) where
  perform : σ → κ → Option (β × σ)

namespace Object

variable {σ τ κ β : Type*}

/-- The answers to a list of operations, up to the first that has no meaning. -/
def observe (M : Object σ κ β) : σ → List κ → List (Option β)
  | _, [] => []
  | s, op :: ops =>
    match M.perform s op with
    | none => [none]
    | some (answer, s') => some answer :: observe M s' ops

/-- `R` holds after each operation again, and the answers are the same. -/
def Simulates (M : Object σ κ β) (N : Object τ κ β) (R : σ → τ → Prop) : Prop :=
  ∀ s t op, R s t → Option.Rel (fun x y => x.1 = y.1 ∧ R x.2 y.2) (M.perform s op) (N.perform t op)

/-- **The simulation rule**: related states answer alike. -/
theorem Simulates.observe_eq {M : Object σ κ β} {N : Object τ κ β} {R : σ → τ → Prop} (sim : M.Simulates N R)
    (ops : List κ) : ∀ {s t}, R s t → M.observe s ops = N.observe t ops := by
  induction ops with
  | nil => intros; rfl
  | cons op ops ih =>
    intro s t related
    have matched := sim s t op related
    unfold observe
    cases left : M.perform s op with
    | none =>
      rw [left] at matched
      cases right : N.perform t op with
      | none => rfl
      | some y =>
        rw [right] at matched
        cases matched
    | some x =>
      rw [left] at matched
      cases right : N.perform t op with
      | none =>
        rw [right] at matched
        cases matched
      | some y =>
        rw [right] at matched
        obtain ⟨same, related'⟩ : x.1 = y.1 ∧ R x.2 y.2 := by
          cases matched with
          | some h => exact h
        show some x.1 :: _ = some y.1 :: _
        rw [same, ih related']

end Object

end KvPaxos.Lib
