import Mathlib.LinearAlgebra.Matrix.ToLinearEquiv
import Mathlib.Tactic
import SimplexMethod.Proofs.RowMatrix.Columns
import SimplexMethod.Proofs.RowMatrix.Elimination

/-!
# Nonsingular matrices

Elimination of a square system either gives its only solution, and then the matrix is nonsingular,
or gives none. Without tolerance it gives none exactly when the matrix is singular (`solve?_exact`).

A list solves a system exactly when the vector of its entries does (`mulVector_eq_iff_mulVec`). So a
vector in the kernel makes a second solution out of one, and a list that all rows take to zero is a
vector in the kernel.
-/

set_option autoImplicit false

namespace SimplexMethod

namespace RowMatrix

open Matrix

variable {m : RowMatrix ℚ} {tolerance : ℚ} {rhs x : List ℚ}

/-- A square matrix with its number of columns in its type. -/
def square (m : RowMatrix ℚ) (hsquare : m.columns = m.rowCount) :
    Matrix (Fin m.columns) (Fin m.columns) ℚ :=
  m.toMatrix.submatrix (Fin.cast hsquare) id

theorem square_mulVec (hsquare : m.columns = m.rowCount) (hx : x.length = m.columns)
    (i : Fin m.columns) :
    (m.square hsquare *ᵥ fun j => coeff x j) i = Scalar.dot (m.rows.getD i []) x := by
  rw [dot_eq_sum (n := m.columns) (min_le_of_right_le hx.le), Finset.sum_range]
  rfl

theorem mulVector_eq_iff_mulVec (hsquare : m.columns = m.rowCount)
    (hrhs : rhs.length = m.rowCount) (hx : x.length = m.columns) :
    m.mulVector x = rhs ↔
      (m.square hsquare *ᵥ fun j => coeff x j) = fun i : Fin m.columns => coeff rhs i := by
  -- Row by row, both sides say what the row makes of the vector.
  have hright {i : ℕ} (hi : i < m.rowCount) :
      (m.mulVector x)[i]? = some (Scalar.dot (m.rows.getD i []) x) := by
    rw [mulVector, List.getElem?_map, rows_getElem?_eq hi, Option.map_some]
  constructor
  · rintro rfl
    funext i
    rw [square_mulVec hsquare hx, coeff_of_getElem? (hright (hsquare ▸ i.2))]
  · intro heq
    have hlen : (m.mulVector x).length = m.rowCount := List.length_map _
    apply ext_of_lt hlen hrhs
    intro i hi
    rw [hright hi, getElem?_eq_coeff (hrhs ▸ hi),
      ← square_mulVec hsquare hx ⟨i, hsquare ▸ hi⟩, heq]

/-- Elimination gives a solution only when the matrix is nonsingular. -/
theorem det_square_ne_zero (htolerance : 0 ≤ tolerance) (h : m.Rectangular)
    (hsquare : m.columns = m.rowCount) (hrhs : rhs.length = m.rowCount)
    (hsolve : m.solve? rhs tolerance = some (some x)) : (m.square hsquare).det ≠ 0 := by
  intro hdet
  obtain ⟨v, hv, hkernel⟩ := exists_mulVec_eq_zero_iff.2 hdet
  obtain ⟨hx, hunique⟩ := mulVector_eq_iff_of_solve? htolerance h hsquare hrhs hsolve
  have hsolves := (mulVector_eq_iff_mulVec hsquare hrhs hx).1 ((hunique x hx).2 rfl)
  -- The solution moved along the kernel is another solution.
  obtain ⟨y, hy, hcoeff⟩ := exists_coeff_eq ((fun j : Fin m.columns => coeff x j) + v)
  have hmoved : m.mulVector y = rhs := by
    rw [mulVector_eq_iff_mulVec hsquare hrhs hy, funext hcoeff, mulVec_add, hkernel, add_zero,
      hsolves]
  apply hv
  funext j
  have hentry := hcoeff j
  rwa [(hunique y hy).1 hmoved, Pi.add_apply, left_eq_add] at hentry

/-- When elimination gives no solution without tolerance, the matrix is singular. -/
theorem det_square_eq_zero (h : m.Rectangular) (hsquare : m.columns = m.rowCount)
    (hrhs : rhs.length = m.rowCount) (hsolve : m.solve? rhs 0 = some none) :
    (m.square hsquare).det = 0 := by
  obtain ⟨z, hlen, ⟨j, hj⟩, hkernel⟩ := exists_kernel_of_solve? h hsquare hrhs hsolve
  have hlt : j < m.columns := by
    by_contra hge
    exact hj (coeff_of_length_le (hlen.trans_le (not_lt.1 hge)))
  refine exists_mulVec_eq_zero_iff.1 ⟨fun k => coeff z k, fun hzero => ?_, funext fun i => ?_⟩
  · exact hj (congrFun hzero ⟨j, hlt⟩)
  · rw [square_mulVec hsquare hlen]
    exact hkernel _ (List.mem_of_getElem? (rows_getElem?_eq (hsquare ▸ i.2)))

/-- Elimination of a square system never fails. When it gives a solution, this satisfies the system,
the matrix is nonsingular and there is no other solution; without tolerance it gives none exactly
when the matrix is singular. -/
theorem solve?_exact (h : m.Rectangular) (hsquare : m.columns = m.rowCount)
    (hrhs : rhs.length = m.rowCount) (htolerance : 0 ≤ tolerance) :
    (∃ result, m.solve? rhs tolerance = some result ∧ ∀ x, result = some x →
      x.length = m.columns ∧ m.mulVector x = rhs ∧ (m.square hsquare).det ≠ 0 ∧
        ∀ y : List ℚ, y.length = m.columns → m.mulVector y = rhs → y = x) ∧
      (m.solve? rhs 0 = some none ↔ (m.square hsquare).det = 0) := by
  constructor
  · obtain ⟨result, hresult, -⟩ := exists_solve? tolerance h hsquare hrhs
    refine ⟨result, hresult, ?_⟩
    rintro x rfl
    obtain ⟨hlen, honly⟩ := mulVector_eq_iff_of_solve? htolerance h hsquare hrhs hresult
    exact ⟨hlen, (honly x hlen).2 rfl, det_square_ne_zero htolerance h hsquare hrhs hresult,
      fun y hy => (honly y hy).1⟩
  · refine ⟨det_square_eq_zero h hsquare hrhs, fun hdet => ?_⟩
    obtain ⟨_ | x, hresult, -⟩ := exists_solve? (0 : ℚ) h hsquare hrhs
    · exact hresult
    · exact absurd hdet (det_square_ne_zero le_rfl h hsquare hrhs hresult)

/-- The first pivot is in the second row, the second one in the third. -/
def shuffled : RowMatrix ℚ := ⟨[[0, 1, 1], [2, 1, 0], [1, 3, 1]], 3⟩

theorem solve?_exact_shuffled : shuffled.solve? [5, 4, 10] (1/2) = some (some [1, 2, 3]) ∧
    shuffled.mulVector [1, 2, 3] = [5, 4, 10] ∧ (shuffled.square rfl).det ≠ 0 ∧
    (∀ y : List ℚ, y.length = 3 → shuffled.mulVector y = [5, 4, 10] → y = [1, 2, 3]) ∧
    shuffled.solve? [5, 4, 10] 0 ≠ some none := by
  have hrectangular : shuffled.Rectangular := by simp [Rectangular, shuffled]
  have hrhs : ([5, 4, 10] : List ℚ).length = shuffled.rowCount := rfl
  have htolerance : (0 : ℚ) ≤ 1/2 := by norm_num
  obtain ⟨⟨result, hresult, hexact⟩, hnone⟩ := solve?_exact hrectangular rfl hrhs htolerance
  have hrun : shuffled.solve? [5, 4, 10] (1/2) = some (some [1, 2, 3]) := by decide +kernel
  rw [hrun, Option.some.injEq] at hresult
  obtain ⟨-, hsolves, hdet, honly⟩ := hexact _ hresult.symm
  exact ⟨hrun, hsolves, hdet, honly, fun h => hdet (hnone.1 h)⟩

end RowMatrix

end SimplexMethod
