import Mathlib.Tactic
import SimplexMethod.Outcome
import SimplexMethod.Proofs.Problem.Construction
import SimplexMethod.Proofs.RowMatrix.Span

/-!
# Feasible points and certificates

What the outcomes of a linear program mean over the rationals. A list of prices for the constraints
bounds the objective when no column is priced above its cost (`BoundedBy.le`), and refutes the
constraints when no column has a positive price while the right-hand side has one
(`Refutes.not_feasible`). A direction in which the feasible region does not end can be followed any
number of steps (`Feasible.along`), so that the objective improves without limit if it improves at
all along the direction (`exists_better_along`).
-/

set_option autoImplicit false

namespace SimplexMethod

/-- Whether one value of the objective is better than another one. -/
def Direction.Better : Direction → ℚ → ℚ → Prop
  | minimize, v, w => v < w
  | maximize, v, w => w < v

namespace Problem

variable {p : Problem ℚ} {x d y : List ℚ}

/-! ## Meanings -/

/-- A value for each variable, none of them negative, that satisfies all constraints. -/
structure Feasible (p : Problem ℚ) (x : List ℚ) : Prop where
  length_eq : x.length = p.variableCount
  nonneg : ∀ value ∈ x, 0 ≤ value
  mulVector_eq : p.constraints.mulVector x = p.values

/-- A rate for each variable, none of them negative, at which no left-hand side changes. -/
structure Recedes (p : Problem ℚ) (d : List ℚ) : Prop where
  length_eq : d.length = p.variableCount
  nonneg : ∀ rate ∈ d, 0 ≤ rate
  mulVector_eq : p.constraints.mulVector d = List.replicate p.constraintCount 0

/-- Feasible points improve on any value of the objective. -/
def ImprovesWithoutLimit (p : Problem ℚ) : Prop :=
  ∀ bound, ∃ x, p.Feasible x ∧ p.direction.Better (Scalar.dot p.cost x) bound

/-- A price for each constraint, such that no column costs less than its price and the right-hand
side has the price `bound`. -/
structure BoundedBy (p : Problem ℚ) (y : List ℚ) (bound : ℚ) : Prop where
  length_eq : y.length = p.constraintCount
  column_le : ∀ j < p.variableCount,
    Scalar.dot (p.constraints.column j) y ≤ coeff p.minimizationCost j
  values_eq : Scalar.dot p.values y = bound

/-- A price for each constraint, such that no column has a positive price and the right-hand side
has one. -/
structure Refutes (p : Problem ℚ) (y : List ℚ) : Prop where
  length_eq : y.length = p.constraintCount
  column_nonpos : ∀ j < p.variableCount, Scalar.dot (p.constraints.column j) y ≤ 0
  values_pos : 0 < Scalar.dot p.values y

/-! ## Equations -/

/-- The equations that follow from the constraints, right-hand sides in the place after the last
variable. -/
def equations (p : Problem ℚ) : Submodule ℚ (ℕ → ℚ) :=
  rowSpan (p.constraints.augmented p.values)

theorem feasible_iff (hx : x.length = p.variableCount) :
    p.Feasible x ↔ (∀ j < p.variableCount, 0 ≤ coeff x j) ∧
      ∀ v ∈ p.equations, gap p.variableCount (coeff x) v = 0 := by
  have hgap := p.rectangular.gap_eq_zero_iff p.values_length hx
  have hnonneg : (∀ a ∈ x, 0 ≤ a) ↔ ∀ j < x.length, 0 ≤ coeff x j := forall_mem_iff_coeff
  rw [hx] at hnonneg
  constructor
  · rintro ⟨-, hvalues, heq⟩
    exact ⟨hnonneg.1 hvalues, hgap.2 heq⟩
  · rintro ⟨hvalues, heq⟩
    exact ⟨hx, hnonneg.2 hvalues, hgap.1 heq⟩

theorem mulVector_eq_replicate_iff :
    p.constraints.mulVector d = List.replicate p.constraintCount 0 ↔
      ∀ row ∈ p.constraints.rows, Scalar.dot row d = 0 := by
  rw [RowMatrix.mulVector, List.eq_replicate_iff]
  simp [constraintCount, RowMatrix.rowCount]

theorem recedes_iff (hd : d.length = p.variableCount) :
    p.Recedes d ↔ (∀ j < p.variableCount, 0 ≤ coeff d j) ∧
      ∀ v ∈ p.equations, leftSide p.variableCount (coeff d) v = 0 := by
  have hleft := p.rectangular.leftSide_eq_zero_iff p.values_length hd
  have hnonneg : (∀ a ∈ d, 0 ≤ a) ↔ ∀ j < d.length, 0 ≤ coeff d j := forall_mem_iff_coeff
  rw [hd] at hnonneg
  constructor
  · rintro ⟨-, hrates, heq⟩
    exact ⟨hnonneg.1 hrates, hleft.2 (mulVector_eq_replicate_iff.1 heq)⟩
  · rintro ⟨hrates, heq⟩
    exact ⟨hd, hnonneg.2 hrates, mulVector_eq_replicate_iff.2 (hleft.1 heq)⟩

/-! ## Objectives -/

theorem dot_minimizationCost (hx : x.length = p.variableCount) :
    Scalar.dot p.minimizationCost x =
      leftSide p.variableCount (coeff x) (coeff p.minimizationCost) := by
  rw [leftSide_apply, dot_eq_sum (n := p.variableCount) (by omega)]

theorem coeff_minimizationCost_variableCount : coeff p.minimizationCost p.variableCount = 0 :=
  coeff_of_length_le p.cost_length.le

theorem dot_map_neg (xs ys : List ℚ) :
    Scalar.dot (xs.map (-·)) ys = -Scalar.dot xs ys := by
  rw [Scalar.dot, Scalar.dot, Scalar.sum_eq, Scalar.sum_eq, List.zipWith_map_left]
  induction xs generalizing ys with
  | nil => simp
  | cons x xs ih =>
    cases ys with
    | nil => simp
    | cons y ys =>
      simp only [List.zipWith_cons_cons, List.sum_cons, ih]
      ring

/-- The objective as it was given is that of the minimization, reported. -/
theorem dot_cost (x : List ℚ) :
    Scalar.dot p.cost x = p.reported (Scalar.dot p.minimizationCost x) := by
  unfold cost reported orient
  cases p.direction with
  | minimize => rfl
  | maximize => exact dot_map_neg _ _

theorem better_reported_iff {v w : ℚ} :
    p.direction.Better (p.reported v) (p.reported w) ↔ v < w := by
  unfold reported
  cases p.direction with
  | minimize => exact Iff.rfl
  | maximize => exact neg_lt_neg_iff

theorem reported_zero : p.reported (0 : ℚ) = 0 := by
  unfold reported
  cases p.direction with
  | minimize => rfl
  | maximize => exact neg_zero

theorem exists_reported_eq (bound : ℚ) : ∃ v, p.reported v = bound := by
  unfold reported
  cases p.direction with
  | minimize => exact ⟨bound, rfl⟩
  | maximize => exact ⟨-bound, neg_neg bound⟩

/-- A direction improves the objective exactly when it lowers that of the minimization. -/
theorem better_dot_zero_iff :
    p.direction.Better (Scalar.dot p.cost d) 0 ↔ Scalar.dot p.minimizationCost d < 0 := by
  rw [dot_cost, ← reported_zero (p := p), better_reported_iff, reported_zero]

/-! ## Prices -/

/-- At a feasible point, the price of the right-hand side is what the columns in use are priced. -/
theorem Feasible.dot_values (hx : p.Feasible x) (hy : y.length = p.constraintCount) :
    Scalar.dot p.values y =
      ∑ j ∈ Finset.range p.variableCount, Scalar.dot (p.constraints.column j) y * coeff x j := by
  have hrow (i : Nat) (hi : i < p.constraintCount) : coeff p.values i =
      ∑ j ∈ Finset.range p.variableCount, p.constraints.entry i j * coeff x j := by
    have hget := RowMatrix.rows_getElem?_eq (m := p.constraints) hi
    have hlen := p.rectangular.length_getD (i := i) hi
    have hxlen := hx.length_eq
    rw [← hx.mulVector_eq]
    apply coeff_of_getElem?
    rw [RowMatrix.mulVector, List.getElem?_map, hget, Option.map_some,
      dot_eq_sum (n := p.variableCount) (by omega)]
    rfl
  have hcolumn (j : Nat) : Scalar.dot (p.constraints.column j) y =
      ∑ i ∈ Finset.range p.constraintCount, p.constraints.entry i j * coeff y i := by
    rw [dot_eq_sum (n := p.constraintCount) (by omega)]
    simp only [RowMatrix.coeff_column]
  rw [dot_eq_sum (n := p.constraintCount) (by omega)]
  -- Summing over rows first or over columns first comes to the same.
  simp only [hcolumn, Finset.sum_mul]
  rw [Finset.sum_comm]
  apply Finset.sum_congr rfl
  intro i hi
  rw [hrow i (Finset.mem_range.1 hi), Finset.sum_mul]
  exact Finset.sum_congr rfl fun j _ => by ring

/-- No feasible point has a lower cost than the bound. -/
theorem BoundedBy.le {bound : ℚ} (hy : p.BoundedBy y bound) (hx : p.Feasible x) :
    bound ≤ Scalar.dot p.minimizationCost x := by
  rw [← hy.values_eq, hx.dot_values hy.length_eq, dot_minimizationCost hx.length_eq,
    leftSide_apply]
  apply Finset.sum_le_sum
  intro j hj
  have hlt := Finset.mem_range.1 hj
  have hnonneg := ((feasible_iff hx.length_eq).1 hx).1 j hlt
  exact mul_le_mul_of_nonneg_right (hy.column_le j hlt) hnonneg

/-- The constraints that are refuted have no nonnegative solution. -/
theorem Refutes.not_feasible (hy : p.Refutes y) : ¬ p.Feasible x := by
  intro hx
  have hpos := hy.values_pos
  rw [hx.dot_values hy.length_eq] at hpos
  refine hpos.not_ge (Finset.sum_nonpos fun j hj => ?_)
  have hlt := Finset.mem_range.1 hj
  have hnonneg := ((feasible_iff hx.length_eq).1 hx).1 j hlt
  exact mul_nonpos_of_nonpos_of_nonneg (hy.column_nonpos j hlt) hnonneg

/-! ## Rays -/

theorem coeff_along (hlen : x.length = d.length) (step : ℚ) (j : Nat) :
    coeff (Ray.along ⟨x, d⟩ step) j = coeff x j + step * coeff d j :=
  coeff_zipWith (by ring) hlen j

theorem length_along (hlen : x.length = d.length) (step : ℚ) :
    (Ray.along ⟨x, d⟩ step).length = x.length := by
  rw [Ray.along, List.length_zipWith, hlen, Nat.min_self]

theorem leftSide_along (hlen : x.length = d.length) (step : ℚ) (n : Nat) (v : ℕ → ℚ) :
    leftSide n (coeff (Ray.along ⟨x, d⟩ step)) v =
      leftSide n (coeff x) v + step * leftSide n (coeff d) v := by
  simp only [leftSide_apply, coeff_along hlen, Finset.mul_sum, ← Finset.sum_add_distrib]
  exact Finset.sum_congr rfl fun j _ => by ring

theorem dot_along (row : List ℚ) (hlen : x.length = d.length) (step : ℚ) :
    Scalar.dot row (Ray.along ⟨x, d⟩ step) = Scalar.dot row x + step * Scalar.dot row d := by
  have halong := length_along hlen step
  rw [dot_eq_sum (n := x.length) (by omega), dot_eq_sum (n := x.length) (by omega),
    dot_eq_sum (n := x.length) (by omega), Finset.mul_sum, ← Finset.sum_add_distrib]
  apply Finset.sum_congr rfl
  intro j _
  rw [coeff_along hlen]
  ring

theorem Feasible.along (hx : p.Feasible x) (hd : p.Recedes d) {step : ℚ} (hstep : 0 ≤ step) :
    p.Feasible (Ray.along ⟨x, d⟩ step) := by
  have hlen := hx.length_eq.trans hd.length_eq.symm
  obtain ⟨hxnonneg, hxeq⟩ := (feasible_iff hx.length_eq).1 hx
  obtain ⟨hdnonneg, hdeq⟩ := (recedes_iff hd.length_eq).1 hd
  refine (feasible_iff ((length_along hlen step).trans hx.length_eq)).2 ⟨fun j hj => ?_, ?_⟩
  · rw [coeff_along hlen]
    exact add_nonneg (hxnonneg j hj) (mul_nonneg hstep (hdnonneg j hj))
  · intro v hv
    have hzero := hxeq v hv
    rw [gap_apply] at hzero ⊢
    rw [leftSide_along hlen, hdeq v hv, mul_zero, add_zero, hzero]

theorem dot_cost_along (hx : p.Feasible x) (hd : p.Recedes d) (step : ℚ) :
    Scalar.dot p.cost (Ray.along ⟨x, d⟩ step) =
      Scalar.dot p.cost x + step * Scalar.dot p.cost d := by
  rw [dot_cost, dot_cost, dot_cost, dot_along _ (hx.length_eq.trans hd.length_eq.symm)]
  unfold reported
  cases p.direction with
  | minimize => rfl
  | maximize => ring

/-- Along a direction that improves the objective, the objective passes every bound. -/
theorem exists_better_along (hx : p.Feasible x) (hd : p.Recedes d)
    (himproves : p.direction.Better (Scalar.dot p.cost d) 0) (bound : ℚ) :
    ∃ step, 0 ≤ step ∧
      p.direction.Better (Scalar.dot p.cost (Ray.along ⟨x, d⟩ step)) bound := by
  rw [better_dot_zero_iff] at himproves
  obtain ⟨v, rfl⟩ := exists_reported_eq (p := p) bound
  obtain ⟨step, hstep⟩ := exists_nat_gt
    ((Scalar.dot p.minimizationCost x - v) / -Scalar.dot p.minimizationCost d)
  refine ⟨step, Nat.cast_nonneg step, ?_⟩
  rw [dot_cost, better_reported_iff, dot_along _ (hx.length_eq.trans hd.length_eq.symm)]
  rw [div_lt_iff₀ (neg_pos.2 himproves)] at hstep
  linarith

theorem improvesWithoutLimit_of_recedes (hx : p.Feasible x) (hd : p.Recedes d)
    (himproves : p.direction.Better (Scalar.dot p.cost d) 0) : p.ImprovesWithoutLimit := by
  intro bound
  obtain ⟨step, hstep, hbetter⟩ := exists_better_along hx hd himproves bound
  exact ⟨_, hx.along hd hstep, hbetter⟩

end Problem

end SimplexMethod
