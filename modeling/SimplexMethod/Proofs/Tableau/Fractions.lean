import Mathlib.Tactic
import SimplexMethod.Proofs.RowMatrix.Minors
import SimplexMethod.Proofs.Tableau.Moves

/-!
# Denominators of a tableau

When a tableau states a program of integers, the determinant of the basis in some of the equations
is a denominator of all its entries and relative costs (`States.exists_fractions`). A tolerance that
is small compared with this determinant resolves them all, and then every choice that is made at the
tableau is the one that is made without tolerance (`Resolved.move_eq`, `Resolved.replacement_eq`).
-/

set_option autoImplicit false

namespace SimplexMethod

open RowMatrix

namespace Tableau

variable {t : Tableau ℚ} {q tolerance : ℚ} {row : Nat}

/-! ## Fractions -/

/-- All entries and relative costs are fractions with this denominator. -/
structure Fractions (t : Tableau ℚ) (q : ℚ) : Prop where
  entry : ∀ i < t.rowCount, ∀ j, q * t.entry i j ∈ integers
  relativeCost : ∀ j, q * t.relativeCost j ∈ integers

namespace States

variable {rows : List (List ℚ)} {W : Submodule ℚ (ℕ → ℚ)} {cost : ℕ → ℚ}

/-- In the basic columns, the equations take all values. -/
theorem map_basic_eq_top (h : t.States W cost) :
    W.map (LinearMap.funLeft ℚ ℚ fun i : Fin t.rowCount => t.basic i) = ⊤ := by
  rw [eq_top_iff, ← (Pi.basisFun ℚ (Fin t.rowCount)).span_eq, Submodule.span_le]
  rintro _ ⟨k, rfl⟩
  refine ⟨t.entry k, h.entry_mem k.2, ?_⟩
  funext i
  rw [LinearMap.funLeft_apply, Pi.basisFun_apply, Pi.single_apply, h.unit i i.2 k k.2]
  simp only [Fin.ext_iff, eq_comm]

/-- With respect to the basic columns, some of the equations are a regular system, whose solutions
the columns of the tableau are. -/
theorem exists_block (h : t.States (rowSpan rows) cost) :
    ∃ f : Fin t.rowCount → List ℚ, (∀ k, f k ∈ rows) ∧
      (block f fun i => t.basic i).det ≠ 0 ∧
      ∀ j, (block f fun i => t.basic i).mulVec (fun i => t.entry i j) = fun k => coeff (f k) j := by
  -- Read in the basic columns, the equations span everything, so some of them are a basis there.
  have htop := h.map_basic_eq_top
  rw [rowSpan, Submodule.map_span] at htop
  obtain ⟨f, hmem, hdet⟩ := exists_det_ne_zero htop
  choose v hv heq using hmem
  choose row hrow hcoeff using hv
  have hblock : Matrix.of f = block row fun i => t.basic i := by
    ext k i
    rw [Matrix.of_apply, ← heq, ← hcoeff]
    rfl
  refine ⟨row, hrow, hblock ▸ hdet, fun j => ?_⟩
  funext k
  rw [h.eq_sum_of_mem (coeff_mem_rowSpan (hrow k)) j, Finset.sum_range]
  rfl

/-- Where the equations and the costs are integers, the tableau has a determinant of the equations
in its basic columns as a denominator. -/
theorem exists_fractions (h : t.States (rowSpan rows) cost)
    (hrows : ∀ row ∈ rows, ∀ j, coeff row j ∈ integers) (hcost : ∀ j, cost j ∈ integers) :
    ∃ f : Fin t.rowCount → List ℚ, (∀ k, f k ∈ rows) ∧
      (block f fun i => t.basic i).det ≠ 0 ∧ t.Fractions (block f fun i => t.basic i).det := by
  obtain ⟨f, hmem, hdet, hsolves⟩ := h.exists_block
  have hblock : ∀ k i, block f (fun i => t.basic i) k i ∈ integers :=
    fun k i => hrows _ (hmem k) _
  have hentry : ∀ i < t.rowCount, ∀ j,
      (block f fun i => t.basic i).det * t.entry i j ∈ integers := by
    intro i hi j
    refine det_mul_mem_integers hblock (x := fun i => t.entry i j) (fun k => ?_) ⟨i, hi⟩
    rw [hsolves j]
    exact hrows _ (hmem k) j
  refine ⟨f, hmem, hdet, hentry, fun j => ?_⟩
  -- A relative cost is the cost less a sum of integer multiples of entries.
  rw [h.relativeCost_eq j, mul_sub, Finset.mul_sum]
  refine integers.sub_mem (integers.mul_mem (det_mem_integers hblock) (hcost j))
    (integers.sum_mem fun i hi => ?_)
  have hi := Finset.mem_range.1 hi
  have hfactor : cost (t.basic i) - t.relativeCost (t.basic i) ∈ integers := by
    rw [h.unit_cost i hi]
    refine integers.sub_mem (hcost _) ?_
    split
    · exact integers.one_mem
    · exact integers.zero_mem
  rw [mul_left_comm]
  exact integers.mul_mem hfactor (hentry i hi j)

end States

/-! ## Resolved tableaus -/

/-- The tolerance resolves all entries and relative costs. -/
structure Resolved (t : Tableau ℚ) (tolerance : ℚ) : Prop where
  nonneg : 0 ≤ tolerance
  entry : ∀ i < t.rowCount, ∀ j, Scalar.Resolved tolerance (t.entry i j)
  relativeCost : ∀ j, Scalar.Resolved tolerance (t.relativeCost j)

theorem Fractions.resolved (h : t.Fractions q) (htolerance : 0 ≤ tolerance) (hq : q ≠ 0)
    (hsmall : tolerance * |q| < 1) : t.Resolved tolerance where
  nonneg := htolerance
  entry := fun i hi j => Scalar.Resolved.of_mul_mem hq (h.entry i hi j) hsmall
  relativeCost := fun j => Scalar.Resolved.of_mul_mem hq (h.relativeCost j) hsmall

namespace Resolved

theorem profitable_eq (h : t.Resolved tolerance) : t.profitable tolerance = t.profitable 0 := by
  refine List.filter_congr fun column hcolumn => decide_eq_decide.2 ?_
  obtain ⟨j, -, rfl⟩ := List.mem_map.1 hcolumn
  exact (h.relativeCost j).lt_neg_iff h.nonneg

theorem ratios_eq (h : t.Resolved tolerance) (j : Nat) :
    t.ratios (t.columnOf j) tolerance = t.ratios (t.columnOf j) 0 := by
  refine congrArg (List.map _) (List.filter_congr fun place hplace => decide_eq_decide.2 ?_)
  obtain ⟨hlt, hentry⟩ := columnOf_getElem?_eq_some_iff.1 (List.mem_zipIdx_iff_getElem?.1 hplace)
  rw [hentry]
  exact (h.entry _ hlt j).lt_iff h.nonneg

theorem leavingRow_eq (h : t.Resolved tolerance) (j : Nat) :
    t.leavingRow (t.columnOf j) tolerance = t.leavingRow (t.columnOf j) 0 := by
  rw [leavingRow, leavingRow, leastRatioRow, leastRatioRow, h.ratios_eq]

/-- The move is the one without tolerance. -/
theorem move_eq (h : t.Resolved tolerance) (rule : PivotRule) :
    t.move rule tolerance = t.move rule 0 := by
  simp only [move, h.profitable_eq, h.leavingRow_eq]

/-- The replacement is the one without tolerance. -/
theorem replacement_eq (h : t.Resolved tolerance) (hrow : row < t.rowCount) :
    t.replacement row tolerance = t.replacement row 0 := by
  simp only [replacement, (h.entry row hrow _).negligible_iff h.nonneg]

theorem lt_abs_objective_iff (h : t.Resolved tolerance) :
    tolerance < Scalar.abs t.objective ↔ 0 < Scalar.abs t.objective := by
  rw [Scalar.abs_eq, objective, abs_neg]
  exact (h.relativeCost _).lt_abs_iff h.nonneg

end Resolved

end Tableau

end SimplexMethod
