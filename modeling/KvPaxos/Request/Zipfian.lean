import Mathlib.Algebra.Order.Floor.Ring
import Mathlib.Analysis.SpecialFunctions.Pow.Real
import Mathlib.Data.List.Induction
import Mathlib.Tactic.Ring

/-!
# The Zipfian generator of a growing population

`zipfian_int_distribution` keeps the sum `zetan` of the population it was made for and `next` adds the
terms of the items that have come since. It computes `eta` anew with it, from the new sum and the
population of `init`, which `items` still holds.

The arithmetic is that of an ordered field, with `pow` as a parameter. `next` is given what its urng
returns, divided by the urng's range.
-/

namespace KvPaxos

/-- `zipfian_int_distribution<long>`. -/
structure Zipfian (K : Type*) where
  items : Int
  base : Int
  zipfianconstant : K
  alpha : K
  zetan : K
  eta : K
  theta : K
  zeta2theta : K
  countforzeta : Int
  allowitemcountdecrease : Bool := false

namespace Zipfian

variable {K : Type*} [Field K] [LinearOrder K] [FloorRing K] (pow : K → K → K)

/-- The loop of `zetastatic`, `k` turns from `i` on. -/
def zetaLoop (theta : K) : Nat → Int → K → K
  | 0, _, sum => sum
  | k + 1, i, sum => zetaLoop theta k (i + 1) (sum + 1 / pow ((i + 1 : Int) : K) theta)

/-- `zetastatic(st, n, theta, initialsum)`; `zetastatic(n, theta)` is the case of 0 and 0. -/
def zetastatic (st n : Int) (theta initialsum : K) : K := zetaLoop pow theta (n - st).toNat st initialsum

/-- `zeta(st, n, thetaVal, initialsum)`, which also sets `countforzeta`. -/
def zeta (g : Zipfian K) (st n : Int) (thetaVal initialsum : K) : K × Zipfian K :=
  (zetastatic pow st n thetaVal initialsum, { g with countforzeta := n })

/-- The expression assigned to `eta`. -/
def etaOf (items : Int) (theta zeta2theta zetan : K) : K :=
  (1 - pow (2 / (items : K)) (1 - theta)) / (1 - zeta2theta / zetan)

/-- `init(min, max, zipfian_constant, zetan_)`. -/
def init (min max : Int) (zipfianConstant zetan : K) : Zipfian K :=
  let items := max - min + 1
  let theta := zipfianConstant
  let zeta2theta := zetastatic pow 0 2 theta 0
  { items := items
    base := min
    zipfianconstant := zipfianConstant
    theta := theta
    zeta2theta := zeta2theta
    alpha := 1 / (1 - theta)
    zetan := zetan
    countforzeta := items
    eta := etaOf pow items theta zeta2theta zetan }

/-- `init(min, max)`, where `theta` is `ZIPFIAN_CONSTANT`. -/
def new (min max : Int) (theta : K) : Zipfian K :=
  init pow min max theta (zetastatic pow 0 (max - min + 1) theta 0)

/-- What `next` does before it draws. -/
def recount (g : Zipfian K) (itemcount : Int) : Zipfian K :=
  if itemcount ≠ g.countforzeta then
    if itemcount > g.countforzeta then
      let (zetan, g) := g.zeta pow g.countforzeta itemcount g.theta g.zetan
      { g with zetan := zetan, eta := etaOf pow g.items g.theta g.zeta2theta zetan }
    else if itemcount < g.countforzeta ∧ g.allowitemcountdecrease = true then
      let (zetan, g) := g.zeta pow 0 itemcount g.theta 0
      { g with zetan := zetan, eta := etaOf pow g.items g.theta g.zeta2theta zetan }
    else g
  else g

/-- The conversion to `long`. -/
def truncate (x : K) : Int := if 0 ≤ x then ⌊x⌋ else ⌈x⌉

/-- `next(urng, itemcount)`, where the urng gives `u`. -/
def next (g : Zipfian K) (u : K) (itemcount : Int) : Int × Zipfian K :=
  let g := g.recount pow itemcount
  let uz := u * g.zetan
  if uz < 1 then (g.base, g)
  else if uz < 1 + pow (1 / 2) g.theta then (g.base + 1, g)
  else (g.base + truncate (itemcount * pow (g.eta * u - g.eta + 1) g.alpha), g)

/-- The generator after the calls, each an item count and what the urng gives. -/
def run (g : Zipfian K) (calls : List (Int × K)) : Zipfian K :=
  calls.foldl (fun g call => (g.next pow call.2 call.1).2) g

/-- The fields that belong to a population. -/
structure Agrees (g fresh : Zipfian K) : Prop where
  zetan : g.zetan = fresh.zetan
  countforzeta : g.countforzeta = fresh.countforzeta
  eta : g.eta = fresh.eta

/-! ### The sum and its terms -/

variable {pow : K → K → K} {theta : K}

omit [LinearOrder K] [FloorRing K] in
theorem zetaLoop_add (k k' : Nat) : ∀ (i : Int) (sum : K),
    zetaLoop pow theta (k + k') i sum = zetaLoop pow theta k' (i + k) (zetaLoop pow theta k i sum) := by
  induction k with
  | zero =>
    intro i sum
    rw [Nat.zero_add, Int.natCast_zero, Int.add_zero, zetaLoop]
  | succ k ih =>
    intro i sum
    rw [Nat.add_right_comm, zetaLoop, zetaLoop, ih]
    congr 1
    push_cast
    ring

omit [LinearOrder K] [FloorRing K] in
/-- The terms that have come since continue the sum. -/
theorem zetastatic_trans {st mid n : Int} (first : st ≤ mid) (second : mid ≤ n) (sum : K) :
    zetastatic pow mid n theta (zetastatic pow st mid theta sum) = zetastatic pow st n theta sum := by
  have split : (n - st).toNat = (mid - st).toNat + (n - mid).toNat := by omega
  have start : st + ((mid - st).toNat : Int) = mid := by omega
  unfold zetastatic
  rw [split, zetaLoop_add, start]

theorem next_snd (g : Zipfian K) (u : K) (itemcount : Int) : (g.next pow u itemcount).2 = g.recount pow itemcount := by
  unfold next
  dsimp only
  split
  · rfl
  · split <;> rfl

/-! ### A growing generator -/

/-- What a generator made for `n` items is like when its population has grown to `count`. -/
structure Grown (pow : K → K → K) (n : Int) (theta : K) (count : Int) (g : Zipfian K) : Prop where
  items : g.items = n
  exponent : g.theta = theta
  first : g.zeta2theta = zetastatic pow 0 2 theta 0
  countforzeta : g.countforzeta = count
  zetan : g.zetan = zetastatic pow 0 count theta 0
  eta : g.eta = etaOf pow n theta (zetastatic pow 0 2 theta 0) g.zetan

omit [LinearOrder K] [FloorRing K] in
theorem grown_new (pow : K → K → K) (min max : Int) (theta : K) :
    Grown pow (max - min + 1) theta (max - min + 1) (new pow min max theta) :=
  ⟨rfl, rfl, rfl, rfl, rfl, rfl⟩

variable {g : Zipfian K} {n count itemcount : Int}

omit [LinearOrder K] [FloorRing K] in
/-- A call with as many items or more. -/
theorem Grown.recount (h : Grown pow n theta count g) (nonneg : 0 ≤ count) (more : count ≤ itemcount) :
    Grown pow n theta itemcount (g.recount pow itemcount) := by
  have counted := h.countforzeta
  unfold Zipfian.recount
  by_cases same : itemcount = g.countforzeta
  · rw [if_neg (not_not_intro same), same, counted]
    exact h
  · rw [if_pos same, if_pos (by omega)]
    have sum : zetastatic pow g.countforzeta itemcount g.theta g.zetan = zetastatic pow 0 itemcount theta 0 := by
      rw [counted, h.exponent, h.zetan]
      exact zetastatic_trans nonneg more 0
    refine ⟨h.items, h.exponent, h.first, rfl, sum, ?_⟩
    have first := h.first
    rw [← h.exponent] at first
    rw [← h.items, ← h.exponent, ← first]
    rfl

/-- **A whole history of growth.** -/
theorem Grown.run (nonneg : 0 ≤ n) (h : Grown pow n theta n g) (calls : List (Int × K))
    (least : ∀ call ∈ calls, n ≤ call.1) (growing : calls.Pairwise fun call later => call.1 ≤ later.1) :
    Grown pow n theta ((calls.getLast?.map Prod.fst).getD n) (g.run pow calls) := by
  induction calls using List.reverseRecOn with
  | nil => exact h
  | append_singleton calls call ih =>
    have before := ih (fun c mem => least c (List.mem_append_left _ mem)) (List.pairwise_append.mp growing).1
    have lower : 0 ≤ (calls.getLast?.map Prod.fst).getD n ∧ (calls.getLast?.map Prod.fst).getD n ≤ call.1 := by
      cases last : calls.getLast? with
      | none => exact ⟨nonneg, least call (List.mem_append_right _ (List.mem_singleton_self _))⟩
      | some previous =>
        have mem := List.mem_of_getLast? last
        refine ⟨nonneg.trans (least previous (List.mem_append_left _ mem)), ?_⟩
        exact (List.pairwise_append.mp growing).2.2 previous mem call (List.mem_singleton_self _)
    have last : (((calls ++ [call]).getLast?).map Prod.fst).getD n = call.1 := by
      rw [List.getLast?_concat]
      rfl
    unfold Zipfian.run at before ⊢
    rw [last, List.foldl_append, List.foldl_cons, List.foldl_nil, next_snd]
    exact before.recount lower.1 lower.2

/-- The denominators that come up with `count` items are not zero. -/
structure Defined (pow : K → K → K) (theta : K) (count : Int) : Prop where
  items : (count : K) ≠ 0
  zetan : zetastatic pow 0 count theta 0 ≠ 0
  difference : 1 - zetastatic pow 0 2 theta 0 / zetastatic pow 0 count theta 0 ≠ 0

omit [LinearOrder K] [FloorRing K] in
/-- An empty population has no sum. -/
theorem Defined.positive (h : Defined pow theta count) : 0 < count := by
  by_contra none
  refine h.zetan ?_
  have empty : (count - 0).toNat = 0 := by omega
  unfold zetastatic
  rw [empty, zetaLoop]

omit [LinearOrder K] [FloorRing K] in
/-- A generator that has grown agrees with a new one where the two populations give the same power. -/
theorem Grown.agrees_iff (h : Grown pow n theta count g) (defined : Defined pow theta count) (min : Int) :
    Agrees g (new pow min (min + count - 1) theta) ↔
      pow (2 / (n : K)) (1 - theta) = pow (2 / (count : K)) (1 - theta) := by
  have population : min + count - 1 - min + 1 = count := by ring
  have fresh := grown_new pow min (min + count - 1) theta
  rw [population] at fresh
  have sums : g.zetan = (new pow min (min + count - 1) theta).zetan := h.zetan.trans fresh.zetan.symm
  have quotient : g.eta = (new pow min (min + count - 1) theta).eta ↔
      pow (2 / (n : K)) (1 - theta) = pow (2 / (count : K)) (1 - theta) := by
    rw [h.eta, fresh.eta, sums, fresh.zetan]
    unfold etaOf
    rw [div_left_inj' defined.difference, sub_right_inj]
  exact ⟨fun agrees => quotient.mp agrees.eta,
    fun power => ⟨sums, h.countforzeta.trans fresh.countforzeta.symm, quotient.mpr power⟩⟩

/-- **Growing a generator.** After every history of calls with growing populations the sum and its
count are those of a new generator, and `eta` is where the population of `init` and the last one give the
same power: where `pow` is injective, as long as nothing has been added. -/
theorem growing_agrees_iff {K : Type*} [Field K] [LinearOrder K] [IsStrictOrderedRing K] [FloorRing K]
    (pow : K → K → K) (min max : Int) (theta : K) (calls : List (Int × K)) (itemcount : Int) (u : K)
    (least : ∀ call ∈ calls ++ [(itemcount, u)], max - min + 1 ≤ call.1)
    (growing : (calls ++ [(itemcount, u)]).Pairwise fun call later => call.1 ≤ later.1)
    (defined : ∀ count ∈ (max - min + 1) :: (calls ++ [(itemcount, u)]).map Prod.fst, Defined pow theta count) :
    let g := (new pow min max theta).run pow (calls ++ [(itemcount, u)])
    let fresh := new pow min (min + itemcount - 1) theta
    (g.zetan = fresh.zetan ∧ g.countforzeta = fresh.countforzeta) ∧
    (Agrees g fresh ↔
      pow (2 / ((max - min + 1 : Int) : K)) (1 - theta) = pow (2 / (itemcount : K)) (1 - theta)) ∧
    ((∀ x y, 0 < x → 0 < y → pow x (1 - theta) = pow y (1 - theta) → x = y) →
      (Agrees g fresh ↔ itemcount = max - min + 1)) := by
  intro g fresh
  have initial := (defined _ List.mem_cons_self).positive
  have last : Defined pow theta itemcount := defined itemcount (by simp)
  have grown : Grown pow (max - min + 1) theta itemcount g := by
    have run := Grown.run initial.le (grown_new pow min max theta) _ least growing
    rwa [List.getLast?_concat] at run
  have population : min + itemcount - 1 - min + 1 = itemcount := by ring
  have new := grown_new pow min (min + itemcount - 1) theta
  rw [population] at new
  have agrees := grown.agrees_iff last min
  refine ⟨⟨grown.zetan.trans new.zetan.symm, grown.countforzeta.trans new.countforzeta.symm⟩, agrees, ?_⟩
  intro injective
  rw [agrees]
  have positive : 0 < ((max - min + 1 : Int) : K) := Int.cast_pos.mpr initial
  have positive' : 0 < (itemcount : K) := Int.cast_pos.mpr last.positive
  constructor
  · intro power
    have same := injective _ _ (div_pos two_pos positive) (div_pos two_pos positive') power
    rw [div_eq_div_iff positive.ne' positive'.ne', mul_right_inj' two_ne_zero] at same
    exact Int.cast_injective same
  · rintro rfl
    rfl

/-- Three items, and a fourth, with the power of an integer exponent. -/
theorem growing_agrees_iff_four : ¬ Agrees
    ((new (fun x y : ℚ => x ^ ⌊y⌋) 0 2 2).run (fun x y : ℚ => x ^ ⌊y⌋) ([] ++ [(4, 1 / 2)]))
    (new (fun x y : ℚ => x ^ ⌊y⌋) 0 (0 + 4 - 1) 2) := by
  have defined : ∀ count ∈ [3, 4], Defined (fun x y : ℚ => x ^ ⌊y⌋) 2 count := by
    intro count mem
    rcases List.mem_pair.mp mem with rfl | rfl <;> constructor <;> decide +kernel
  have injective : ∀ x y : ℚ, 0 < x → 0 < y → x ^ ⌊(1 - 2 : ℚ)⌋ = y ^ ⌊(1 - 2 : ℚ)⌋ → x = y := by
    intro x y _ _ eq
    have exponent : ⌊(1 - 2 : ℚ)⌋ = -1 := by decide +kernel
    rwa [exponent, zpow_neg_one, zpow_neg_one, inv_inj] at eq
  rw [(growing_agrees_iff (fun x y : ℚ => x ^ ⌊y⌋) 0 2 2 [] 4 (1 / 2) (by decide) (by decide) defined).2.2 injective]
  decide

/-- With the exponent of the code and the power of the reals, three items and a fourth. -/
theorem grown_eta_differs :
    ¬ Agrees ((new Real.rpow 0 2 0.99).run Real.rpow [(4, 0.5)]) (new Real.rpow 0 3 0.99) := by
  have term (k : Nat) : 0 < 1 / Real.rpow ((k : Int) + 1 : Int) 0.99 := by
    refine one_div_pos.mpr (Real.rpow_pos_of_pos ?_ _)
    exact_mod_cast Nat.succ_pos k
  have first : zetastatic Real.rpow 0 2 0.99 0 = 0 + 1 / Real.rpow ((0 : Nat) + 1 : Int) 0.99 +
      1 / Real.rpow ((1 : Nat) + 1 : Int) 0.99 := rfl
  have all : zetastatic Real.rpow 0 4 0.99 0 = zetastatic Real.rpow 0 2 0.99 0 +
      1 / Real.rpow ((2 : Nat) + 1 : Int) 0.99 + 1 / Real.rpow ((3 : Nat) + 1 : Int) 0.99 := rfl
  have positive : 0 < zetastatic Real.rpow 0 2 0.99 0 := by
    rw [first]
    linarith [term 0, term 1]
  have less : zetastatic Real.rpow 0 2 0.99 0 < zetastatic Real.rpow 0 4 0.99 0 := by
    rw [all]
    linarith [term 2, term 3]
  have defined : Defined Real.rpow 0.99 4 := by
    refine ⟨by norm_num, (positive.trans less).ne', ?_⟩
    rw [sub_ne_zero]
    exact ((div_lt_one (positive.trans less)).mpr less).ne'
  have grown : Grown Real.rpow (2 - 0 + 1) 0.99 4 ((new Real.rpow 0 2 0.99).run Real.rpow [(4, 0.5)]) :=
    Grown.run (by decide) (grown_new _ 0 2 _) [(4, 0.5)] (by simp) (List.pairwise_singleton _ _)
  intro agrees
  have power := (grown.agrees_iff defined 0).mp agrees
  have same := (Real.rpow_left_inj (by norm_num) (by norm_num) (by norm_num)).mp power
  norm_num at same

end Zipfian

end KvPaxos
