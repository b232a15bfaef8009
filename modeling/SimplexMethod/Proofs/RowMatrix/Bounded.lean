import Mathlib.Tactic
import SimplexMethod.Proofs.RowMatrix.Columns
import SimplexMethod.Proofs.RowMatrix.Condensation
import SimplexMethod.Proofs.RowMatrix.Nonsingular

/-!
# Integer matrices with bounded minors

The rows and the columns of a matrix with bounded minors may be chosen again, with any repetitions
(`Bounded.subset`, `Bounded.selected`), and the bound stays. When such a matrix is that of a system
with integers on the right, a tolerance that is small compared with the bound makes no
difference to the elimination (`Bounded.solve?_eq`) nor to the selection of independent rows
(`Bounded.independentRows?_eq`), and what elimination gives has a common denominator within the
bound (`Bounded.commonDenominator_of_solve?`).
-/

set_option autoImplicit false

namespace SimplexMethod

open Matrix

/-- The entries have a common denominator within the bound. -/
def CommonDenominator (D : ℚ) (x : List ℚ) : Prop :=
  ∃ q ∈ integers, q ≠ 0 ∧ |q| ≤ D ∧ ∀ j, q * coeff x j ∈ integers

namespace CommonDenominator

variable {D : ℚ} {x : List ℚ}

theorem fraction (h : CommonDenominator D x) (j : ℕ) : Scalar.Fraction D (coeff x j) := by
  obtain ⟨q, hint, hq, hle, hmem⟩ := h
  exact ⟨q, hint, hq, hle, hmem j⟩

/-- A combination with integer factors has the same denominator. -/
theorem dot (h : CommonDenominator D x) {factors : List ℚ}
    (hfactors : ∀ a ∈ factors, a ∈ integers) : Scalar.Fraction D (Scalar.dot factors x) := by
  obtain ⟨q, hint, hq, hle, hmem⟩ := h
  refine ⟨q, hint, hq, hle, ?_⟩
  rw [dot_eq_sum (n := x.length) (min_le_right _ _), Finset.mul_sum]
  refine integers.sum_mem fun j _ => ?_
  rw [mul_left_comm]
  exact integers.mul_mem (coeff_mem_integers hfactors j) (hmem j)

end CommonDenominator

namespace RowMatrix

variable {m : RowMatrix ℚ} {D tolerance : ℚ} {rhs x : List ℚ}

/-! ## Bounded minors -/

/-- A matrix of integers whose square minors are within a bound. -/
structure Bounded (D : ℚ) (m : RowMatrix ℚ) : Prop where
  rectangular : m.Rectangular
  mem_integers : ∀ row ∈ m.rows, ∀ a ∈ row, a ∈ integers
  abs_le : ∀ d, m.IsMinor d → |d| ≤ D

namespace Bounded

theorem one_le (h : m.Bounded D) : 1 ≤ D := by
  have hempty := h.abs_le 1 isMinor_one
  rwa [abs_one] at hempty

/-- The bound stays when rows and columns are chosen again. -/
theorem abs_le_of_entries (h : m.Bounded D) {m' : RowMatrix ℚ} (column : ℕ → ℕ)
    (hcolumn : ∀ j < m'.columns, column j < m.columns)
    (hentry : ∀ i < m'.rowCount, ∃ i' < m.rowCount, ∀ j < m'.columns,
      m'.entry i j = m.entry i' (column j)) {d : ℚ} (hd : m'.IsMinor d) : |d| ≤ D := by
  obtain ⟨k, f, g, rfl⟩ := hd
  -- The minor is a determinant of the rows and columns from which its own come.
  choose row hrow heq using fun i : Fin k => hentry (f i) (f i).2
  have hchosen : m'.toMatrix.submatrix f g = m.toMatrix.submatrix (fun i => ⟨row i, hrow i⟩)
      (fun j => ⟨column (g j), hcolumn _ (g j).2⟩) := by
    ext i j
    exact heq i (g j) (g j).2
  rw [hchosen]
  exact forall_abs_det (P := (· ≤ D)) (zero_le_one.trans h.one_le) h.abs_le _ _

/-- The bound stays when only some of the rows are left, in any order. -/
theorem subset (h : m.Bounded D) {m' : RowMatrix ℚ} (hcolumns : m'.columns = m.columns)
    (hrows : ∀ row ∈ m'.rows, row ∈ m.rows) : m'.Bounded D where
  rectangular := fun row hrow => (h.rectangular row (hrows row hrow)).trans hcolumns.symm
  mem_integers := fun row hrow => h.mem_integers row (hrows row hrow)
  abs_le := by
    refine fun d hd => h.abs_le_of_entries id (fun j hj => hj.trans_eq hcolumns)
      (fun i hi => ?_) hd
    have hrow := hrows _ (List.mem_of_getElem? (rows_getElem?_eq hi))
    obtain ⟨i', hi'⟩ := List.mem_iff_getElem?.1 hrow
    exact ⟨i', (List.getElem?_eq_some_iff.1 hi').1, fun j _ => (entry_eq_of_getElem? hi').symm⟩

/-- The bound stays when columns are chosen. -/
theorem selected (h : m.Bounded D) {columns : List ℕ} (hlt : ∀ j ∈ columns, j < m.columns) :
    (m.selected columns).Bounded D where
  rectangular := rectangular_selected
  mem_integers := by
    intro row hrow a ha
    obtain ⟨other, hother, rfl⟩ := List.mem_map.1 hrow
    obtain ⟨j, -, rfl⟩ := List.mem_map.1 ha
    exact coeff_mem_integers (h.mem_integers other hother) j
  abs_le := by
    have hcolumn {j : ℕ} (hj : j < columns.length) : columns[j]? = some (columns.getD j 0) := by
      rw [List.getD_eq_getElem?_getD, List.getElem?_eq_getElem hj, Option.getD_some]
    refine fun d hd => h.abs_le_of_entries (fun j => columns.getD j 0)
      (fun j hj => hlt _ (List.mem_of_getElem? (hcolumn hj))) (fun i hi => ?_) hd
    rw [selected_rowCount] at hi
    refine ⟨i, hi, fun j hj => ?_⟩
    have hrow : (m.selected columns).rows[i]? = some (pick columns (m.rows.getD i [])) := by
      rw [RowMatrix.selected, List.getElem?_map, rows_getElem?_eq hi, Option.map_some]
    rw [entry_eq_of_getElem? hrow]
    apply coeff_of_getElem?
    rw [pick, List.getElem?_map, hcolumn hj, Option.map_some, entry]

/-! ## Systems with bounded minors -/

theorem scaled (h : m.Bounded D) (hrhs : ∀ b ∈ rhs, b ∈ integers) :
    Scaled D 1 m.columns (m.augmented rhs) :=
  Scaled.of_integers (coeff_augmented_mem_integers h.mem_integers hrhs) fun _ _ hf hg =>
    forall_abs_det_block (P := (· ≤ D)) (zero_le_one.trans h.one_le) h.abs_le
      (fun i => h.rectangular.extends_of_mem_augmented (hf i)) hg

variable (hrhs : ∀ b ∈ rhs, b ∈ integers)

include hrhs

theorem solve?_eq (h : m.Bounded D) (htolerance : 0 ≤ tolerance) (hsmall : tolerance * D < 1)
    (hsquare : m.columns = m.rowCount) (hlen : rhs.length = m.rowCount) :
    m.solve? rhs tolerance = m.solve? rhs 0 :=
  solve?_eq_of_scaled (h.scaled hrhs) htolerance hsmall h.rectangular hsquare hlen

theorem independentRows?_eq (h : m.Bounded D) (htolerance : 0 ≤ tolerance)
    (hsmall : tolerance * D < 1) :
    m.independentRows? rhs tolerance = m.independentRows? rhs 0 :=
  independentRows?_eq_of_scaled (h.scaled hrhs) htolerance hsmall h.rectangular

/-- The determinant of the matrix is a common denominator of the solution. -/
theorem commonDenominator_of_solve? (h : m.Bounded D) (hsquare : m.columns = m.rowCount)
    (hlen : rhs.length = m.rowCount) (hsolve : m.solve? rhs 0 = some (some x)) :
    CommonDenominator D x := by
  obtain ⟨hx, hunique⟩ := mulVector_eq_iff_of_solve? le_rfl h.rectangular hsquare hlen hsolve
  have hsolves := (mulVector_eq_iff_mulVec hsquare hlen hx).1 ((hunique x hx).2 rfl)
  have hentry (i j : Fin m.columns) : m.square hsquare i j ∈ integers :=
    coeff_mem_integers (h.mem_integers _ (List.mem_of_getElem?
      (rows_getElem?_eq (Fin.cast hsquare i).2))) j
  refine ⟨_, det_mem_integers hentry,
    det_square_ne_zero le_rfl h.rectangular hsquare hlen hsolve,
    forall_abs_det (P := (· ≤ D)) (zero_le_one.trans h.one_le) h.abs_le _ _, fun j => ?_⟩
  rcases lt_or_ge j m.columns with hj | hj
  · refine det_mul_mem_integers hentry (x := fun j => coeff x j) (fun i => ?_) ⟨j, hj⟩
    rw [hsolves]
    exact coeff_mem_integers hrhs i
  · rw [coeff_of_length_le (hx.trans_le hj), mul_zero]
    exact integers.zero_mem

end Bounded

end RowMatrix

end SimplexMethod
