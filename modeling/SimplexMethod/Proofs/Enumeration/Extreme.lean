import Mathlib.Data.Set.Card
import Mathlib.Tactic
import SimplexMethod.Proofs.Enumeration.Vertices

/-!
# Extreme solutions

From every solution of a system one gets to an extreme one that does not cost more, unless the cost
falls in some direction in which the solutions do not end (`Feasible.exists_extreme`). So the list
of the vertices is empty only when there is no solution (`Lists.exists_mem`), and when no direction
lowers the cost, it contains a vertex that costs no more than a given solution (`Lists.exists_le`).

A solution that is not extreme can be moved along a dependency among the columns it uses, until a
further column is not used any more (`Shift.exists_fewer`). The induction is on the number of the
columns in use.
-/

set_option autoImplicit false

namespace SimplexMethod

theorem finite_support (x : List ℚ) : (support x).Finite :=
  (Set.finite_lt_nat x.length).subset fun _ hj => lt_length_of_mem_support hj

/-- A list with all entries multiplied by a number. -/
def scaled (a : ℚ) (x : List ℚ) : List ℚ := x.map (a * ·)

theorem length_scaled (a : ℚ) (x : List ℚ) : (scaled a x).length = x.length := List.length_map _

theorem coeff_scaled (a : ℚ) (x : List ℚ) (j : ℕ) : coeff (scaled a x) j = a * coeff x j :=
  coeff_map (f := (a * ·)) (mul_zero a) x j

theorem dot_scaled (row : List ℚ) (a : ℚ) (x : List ℚ) :
    Scalar.dot row (scaled a x) = a * Scalar.dot row x := by
  have hlen := length_scaled a x
  rw [dot_eq_sum (n := x.length) (by omega), dot_eq_sum (n := x.length) (by omega), Finset.mul_sum]
  apply Finset.sum_congr rfl
  intro j _
  rw [coeff_scaled]
  ring

namespace System

variable {s : System ℚ} {x z : List ℚ}

/-! ## Moving within the columns in use -/

/-- A change for the variables in use at which no left-hand side changes. -/
structure Shift (s : System ℚ) (x z : List ℚ) : Prop where
  length_eq : z.length = s.matrix.columns
  coeff_eq_zero : ∀ j ∉ support x, coeff z j = 0
  dot_eq_zero : ∀ row ∈ s.matrix.rows, Scalar.dot row z = 0

theorem Shift.scaled (hz : s.Shift x z) (a : ℚ) : s.Shift x (scaled a z) where
  length_eq := (length_scaled a z).trans hz.length_eq
  coeff_eq_zero := by
    intro j hj
    rw [coeff_scaled, hz.coeff_eq_zero j hj, mul_zero]
  dot_eq_zero := by
    intro row hrow
    rw [dot_scaled, hz.dot_eq_zero row hrow, mul_zero]

/-- Dependent columns can be moved along without raising the cost, and when the cost does not fall,
towards zero in one of them. -/
theorem exists_shift (hdependent : ¬ s.matrix.IndependentColumns (support x)) (cost : List ℚ) :
    ∃ z, s.Shift x z ∧ Scalar.dot cost z ≤ 0 ∧
      (Scalar.dot cost z = 0 → ∃ j, coeff z j < 0) := by
  rw [RowMatrix.IndependentColumns] at hdependent
  push Not at hdependent
  obtain ⟨z, hlen, hzero, hrows, j, hj⟩ := hdependent
  have hz : s.Shift x z := ⟨hlen, hzero, hrows⟩
  -- Either the change or its opposite will do.
  have hopposite := hz.scaled (-1)
  have hcost := dot_scaled cost (-1) z
  have hentry := coeff_scaled (-1) z j
  rcases lt_trichotomy (Scalar.dot cost z) 0 with hlow | heven | hhigh
  · exact ⟨z, hz, hlow.le, fun heq => absurd heq hlow.ne⟩
  · rcases lt_or_gt_of_ne hj with hneg | hpos
    · exact ⟨z, hz, heven.le, fun _ => ⟨j, hneg⟩⟩
    · exact ⟨_, hopposite, by linarith, fun _ => ⟨j, by linarith⟩⟩
  · have hlow : Scalar.dot cost (SimplexMethod.scaled (-1) z) < 0 := by linarith
    exact ⟨_, hopposite, hlow.le, fun heq => absurd heq hlow.ne⟩

/-- Of the variables that fall, one reaches zero first. -/
theorem exists_leastRatio (x : List ℚ) (hfall : ∃ j, coeff z j < 0) :
    ∃ j, coeff z j < 0 ∧
      ∀ k, coeff z k < 0 → coeff x j / -coeff z j ≤ coeff x k / -coeff z k := by
  have hfinite : {j | coeff z j < 0}.Finite := (finite_support z).subset fun j hj => ne_of_lt hj
  obtain ⟨j, hj, hleast⟩ := Set.exists_min_image _ (fun k => coeff x k / -coeff z k) hfinite hfall
  exact ⟨j, hj, hleast⟩

/-- Where some variable in use falls, the solution can be moved until a variable is used no more. -/
theorem Shift.exists_fewer (hz : s.Shift x z) (hx : s.Feasible x) (hfall : ∃ j, coeff z j < 0) :
    ∃ step, 0 ≤ step ∧ s.Feasible (Ray.along ⟨x, z⟩ step) ∧
      (support (Ray.along ⟨x, z⟩ step)).ncard < (support x).ncard := by
  have hlen := hx.length_eq.trans hz.length_eq.symm
  obtain ⟨j, hneg, hleast⟩ := exists_leastRatio x hfall
  have hstep := div_nonneg (hx.nonneg j) (neg_nonneg.2 hneg.le)
  have hcoeff := Problem.coeff_along hlen (coeff x j / -coeff z j)
  refine ⟨coeff x j / -coeff z j, hstep, ⟨?_, ?_, ?_⟩, ?_⟩
  · exact (Problem.length_along hlen _).trans hx.length_eq
  · intro k
    rw [hcoeff]
    rcases lt_or_ge (coeff z k) 0 with hk | hk
    · have hratio := hleast k hk
      rw [le_div_iff₀ (neg_pos.2 hk)] at hratio
      linarith
    · exact add_nonneg (hx.nonneg k) (mul_nonneg hstep hk)
  · rw [← hx.mulVector_eq]
    apply List.map_congr_left
    intro row hrow
    rw [Problem.dot_along row hlen, hz.dot_eq_zero row hrow, mul_zero, add_zero]
  · refine Set.ncard_lt_ncard (Set.ssubset_iff_exists.2 ⟨fun k hk => ?_, j, ?_, ?_⟩)
      (finite_support x)
    · by_contra hunused
      apply hk
      rw [hcoeff, hz.coeff_eq_zero k hunused, mul_zero, add_zero]
      exact not_not.1 hunused
    · by_contra hunused
      exact hneg.ne (hz.coeff_eq_zero j hunused)
    · apply not_not.2
      rw [hcoeff, div_neg, neg_mul, div_mul_cancel₀ _ hneg.ne, add_neg_cancel]

/-! ## Extreme solutions -/

/-- The cost falls without end, or there is an extreme solution that costs no more. -/
theorem Feasible.exists_extreme (hx : s.Feasible x) (cost : List ℚ) :
    (∃ d, s.Recedes d ∧ Scalar.dot cost d < 0) ∨
      ∃ y, s.Feasible y ∧ s.matrix.IndependentColumns (support y) ∧
        Scalar.dot cost y ≤ Scalar.dot cost x := by
  induction hcount : (support x).ncard using Nat.strong_induction_on generalizing x with
  | _ count ih =>
    subst hcount
    by_cases hindep : s.matrix.IndependentColumns (support x)
    · exact Or.inr ⟨x, hx, hindep, le_rfl⟩
    · obtain ⟨z, hz, hcost, hfall⟩ := exists_shift hindep cost
      -- Either some variable stops the change, or the change can go on without end.
      by_cases hneg : ∃ j, coeff z j < 0
      · obtain ⟨step, hstep, hfeasible, hfewer⟩ := hz.exists_fewer hx hneg
        rcases ih _ hfewer hfeasible rfl with hrecedes | ⟨y, hy, hextreme, hle⟩
        · exact Or.inl hrecedes
        · refine Or.inr ⟨y, hy, hextreme, hle.trans ?_⟩
          rw [Problem.dot_along cost (hx.length_eq.trans hz.length_eq.symm)]
          linarith [mul_nonpos_of_nonneg_of_nonpos hstep hcost]
      · have hlow : Scalar.dot cost z < 0 := lt_of_le_of_ne hcost fun heq => hneg (hfall heq)
        have hnonneg : ∀ j, 0 ≤ coeff z j := fun j => not_lt.1 fun hj => hneg ⟨j, hj⟩
        exact Or.inl ⟨z, ⟨hz.length_eq, hnonneg, hz.dot_eq_zero⟩, hlow⟩

/-! ## Lists of vertices -/

variable {vertices : List (Vertex ℚ)}

/-- Unless the cost falls without end, some vertex costs no more than a given solution. -/
theorem Lists.exists_le (h : s.Lists vertices) (hx : s.Feasible x) {cost : List ℚ}
    (hbounded : ∀ d, s.Recedes d → 0 ≤ Scalar.dot cost d) :
    ∃ v ∈ vertices, Scalar.dot cost v.values ≤ Scalar.dot cost x := by
  obtain ⟨d, hd, hlow⟩ | ⟨y, hy, hextreme, hle⟩ := hx.exists_extreme cost
  · exact absurd (hbounded d hd) hlow.not_ge
  · obtain ⟨v, hv, rfl⟩ := h.complete y hy hextreme
    exact ⟨v, hv, hle⟩

/-- A system with a solution has a vertex. -/
theorem Lists.exists_mem (h : s.Lists vertices) (hx : s.Feasible x) : ∃ v, v ∈ vertices := by
  have hnoCost : ∀ d, s.Recedes d → 0 ≤ Scalar.dot [] d := fun d _ => le_rfl
  obtain ⟨v, hv, -⟩ := h.exists_le hx hnoCost
  exact ⟨v, hv⟩

end System

end SimplexMethod
