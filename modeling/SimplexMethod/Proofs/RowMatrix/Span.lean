import Mathlib.LinearAlgebra.Pi
import Mathlib.LinearAlgebra.Span.Basic
import Mathlib.Tactic
import SimplexMethod.Proofs.RowMatrix.Pivot

/-!
# Linear combinations of equations

A row with a right-hand side at its end is an equation, and a vector in the span of the equations
of a system is an equation that follows from them. A linear functional which vanishes on the rows
vanishes on their span (`forall_mem_rowSpan_iff`); with the functionals `leftSide` and `gap` this
says that a vector satisfies a system exactly when it satisfies every combination of its equations
(`gap_eq_zero_iff`). The combination that an element of the span is can be given by a list of
factors (`exists_factors_of_mem_rowSpan`).
-/

set_option autoImplicit false

namespace SimplexMethod

/-- The linear combinations of some rows. -/
def rowSpan (rows : List (List ℚ)) : Submodule ℚ (ℕ → ℚ) :=
  Submodule.span ℚ {v | ∃ row ∈ rows, coeff row = v}

theorem coeff_mem_rowSpan {rows : List (List ℚ)} {row : List ℚ} (h : row ∈ rows) :
    coeff row ∈ rowSpan rows :=
  Submodule.subset_span ⟨row, h, rfl⟩

theorem rowSpan_le_iff {rows : List (List ℚ)} {W : Submodule ℚ (ℕ → ℚ)} :
    rowSpan rows ≤ W ↔ ∀ row ∈ rows, coeff row ∈ W := by
  rw [rowSpan, Submodule.span_le]
  constructor
  · intro h row hrow
    exact h ⟨row, hrow, rfl⟩
  · rintro h _ ⟨row, hrow, rfl⟩
    exact h row hrow

theorem rowSpan_mono {rows others : List (List ℚ)} (h : ∀ row ∈ rows, row ∈ others) :
    rowSpan rows ≤ rowSpan others :=
  rowSpan_le_iff.2 fun row hrow => coeff_mem_rowSpan (h row hrow)

theorem forall_mem_rowSpan_iff {rows : List (List ℚ)} (f : (ℕ → ℚ) →ₗ[ℚ] ℚ) :
    (∀ v ∈ rowSpan rows, f v = 0) ↔ ∀ row ∈ rows, f (coeff row) = 0 := by
  have h : rowSpan rows ≤ LinearMap.ker f ↔ _ := rowSpan_le_iff
  simpa only [SetLike.le_def, LinearMap.mem_ker] using h

theorem rowSpan_cons (row : List ℚ) (rows : List (List ℚ)) :
    rowSpan (row :: rows) =
      Submodule.span ℚ (insert (coeff row) {v | ∃ r ∈ rows, coeff r = v}) := by
  rw [rowSpan]
  congr 1
  ext v
  simp [eq_comm]

/-- An element of a span is the combination of the rows with some list of factors. -/
theorem exists_factors_of_mem_rowSpan {rows : List (List ℚ)} {v : ℕ → ℚ} (h : v ∈ rowSpan rows) :
    ∃ y : List ℚ, y.length = rows.length ∧ ∀ j, v j = Scalar.dot (rows.map (coeff · j)) y := by
  induction rows generalizing v with
  | nil =>
    have hv : v = 0 := by simpa [rowSpan] using h
    exact ⟨[], rfl, fun j => by rw [hv]; rfl⟩
  | cons row rows ih =>
    rw [rowSpan_cons, Submodule.mem_span_insert] at h
    obtain ⟨a, z, hz, rfl⟩ := h
    obtain ⟨y, hlen, hy⟩ := ih hz
    -- The first row has the factor `a`, the others have theirs by induction.
    refine ⟨a :: y, by rw [List.length_cons, hlen, List.length_cons], fun j => ?_⟩
    have htail := hy j
    rw [Scalar.dot, Scalar.sum_eq] at htail ⊢
    simp only [List.map_cons, List.zipWith_cons_cons, List.sum_cons, Pi.add_apply, Pi.smul_apply,
      smul_eq_mul, htail]
    ring

/-! ## Equations at a point -/

/-- The left-hand side at a point of an equation in the first `n` variables. -/
def leftSide (n : Nat) (x : ℕ → ℚ) : (ℕ → ℚ) →ₗ[ℚ] ℚ :=
  ∑ j ∈ Finset.range n, x j • LinearMap.proj j

/-- How far the left-hand side of an equation is above the right-hand side, which stands in place
`n`. -/
def gap (n : Nat) (x : ℕ → ℚ) : (ℕ → ℚ) →ₗ[ℚ] ℚ := leftSide n x - LinearMap.proj n

theorem leftSide_apply (n : Nat) (x v : ℕ → ℚ) :
    leftSide n x v = ∑ j ∈ Finset.range n, v j * x j := by
  simp [leftSide, mul_comm]

/-- Only the first `n` values count on the left. -/
theorem leftSide_congr {n : Nat} {x y : ℕ → ℚ} (h : ∀ j < n, x j = y j) :
    leftSide n x = leftSide n y := by
  apply LinearMap.ext
  intro v
  rw [leftSide_apply, leftSide_apply]
  exact Finset.sum_congr rfl fun j hj => by rw [h j (Finset.mem_range.1 hj)]

theorem gap_congr {n : Nat} {x y : ℕ → ℚ} (h : ∀ j < n, x j = y j) : gap n x = gap n y := by
  rw [gap, gap, leftSide_congr h]

theorem gap_apply (n : Nat) (x v : ℕ → ℚ) : gap n x v = leftSide n x v - v n := rfl

namespace RowMatrix

/-- The rows of a matrix, each with its right-hand side at the end. -/
def augmented {F : Type} (m : RowMatrix F) (rhs : List F) : List (List F) :=
  List.zipWith (fun row value => row ++ [value]) m.rows rhs

theorem length_augmented {F : Type} {m : RowMatrix F} {rhs : List F}
    (hrhs : rhs.length = m.rowCount) : (m.augmented rhs).length = m.rowCount := by
  rw [augmented, List.length_zipWith, hrhs]
  exact Nat.min_self _

theorem Rectangular.length_of_mem_augmented {F : Type} {m : RowMatrix F} {rhs row : List F}
    (h : m.Rectangular) (hrow : row ∈ m.augmented rhs) : row.length = m.columns + 1 := by
  obtain ⟨i, hi⟩ := List.mem_iff_getElem?.1 hrow
  rw [augmented, List.getElem?_zipWith_eq_some] at hi
  obtain ⟨coefficients, value, hcoefficients, -, rfl⟩ := hi
  rw [List.length_append, h _ (List.mem_of_getElem? hcoefficients), List.length_singleton]

theorem augmented_getElem? {F : Type} [Scalar F] {m : RowMatrix F} {rhs : List F} {i : Nat}
    (hrhs : rhs.length = m.rowCount) (hi : i < m.rowCount) :
    (m.augmented rhs)[i]? = some (m.rows.getD i [] ++ [coeff rhs i]) := by
  rw [augmented, List.getElem?_zipWith, rows_getElem?_eq hi, getElem?_eq_coeff (hrhs ▸ hi)]

variable {m : RowMatrix ℚ} {rhs x : List ℚ}

theorem forall_mem_augmented {P : List ℚ → Prop} :
    (∀ row ∈ m.augmented rhs, P row) ↔
      ∀ (i : Nat) (row : List ℚ) (value : ℚ),
        m.rows[i]? = some row → rhs[i]? = some value → P (row ++ [value]) := by
  simp only [augmented, List.mem_iff_getElem?, List.getElem?_zipWith_eq_some]
  constructor
  · intro h i row value hrow hvalue
    exact h _ ⟨i, row, value, hrow, hvalue, rfl⟩
  · rintro h _ ⟨i, row, value, hrow, hvalue, rfl⟩
    exact h i row value hrow hvalue

theorem leftSide_concat {row : List ℚ} {n : Nat} (hrow : row.length = n) (hx : x.length = n)
    (value : ℚ) : leftSide n (coeff x) (coeff (row ++ [value])) = Scalar.dot row x := by
  rw [leftSide_apply, dot_eq_sum (n := n) (by omega)]
  apply Finset.sum_congr rfl
  intro j hj
  rw [coeff_append_left _ (by rw [hrow]; exact Finset.mem_range.1 hj)]

theorem gap_concat {row : List ℚ} {n : Nat} (hrow : row.length = n) (hx : x.length = n)
    (value : ℚ) : gap n (coeff x) (coeff (row ++ [value])) = Scalar.dot row x - value := by
  rw [gap_apply, leftSide_concat hrow hx, ← hrow, coeff_concat_length]

/-- A vector satisfies a system exactly when it satisfies all combinations of its equations. -/
theorem Rectangular.gap_eq_zero_iff (h : m.Rectangular) (hrhs : rhs.length = m.rowCount)
    (hx : x.length = m.columns) :
    (∀ v ∈ rowSpan (m.augmented rhs), gap m.columns (coeff x) v = 0) ↔ m.mulVector x = rhs := by
  rw [forall_mem_rowSpan_iff, forall_mem_augmented]
  have hgap {i : Nat} {row : List ℚ} (hrow : m.rows[i]? = some row) (value : ℚ) :
      gap m.columns (coeff x) (coeff (row ++ [value])) = 0 ↔ Scalar.dot row x = value := by
    rw [gap_concat (h _ (List.mem_of_getElem? hrow)) hx, sub_eq_zero]
  constructor
  · intro hall
    apply ext_of_lt (List.length_map _) hrhs
    intro i hi
    have hrow := List.getElem?_eq_getElem hi
    have hvalue := List.getElem?_eq_getElem (hrhs ▸ hi : i < rhs.length)
    rw [List.getElem?_map, hrow, hvalue, Option.map_some,
      (hgap hrow _).1 (hall i _ _ hrow hvalue)]
  · rintro rfl i row value hrow hvalue
    rw [mulVector, List.getElem?_map, hrow, Option.map_some, Option.some.injEq] at hvalue
    exact (hgap hrow _).2 hvalue

/-- A direction keeps all left-hand sides exactly when it keeps those of all combinations. -/
theorem Rectangular.leftSide_eq_zero_iff (h : m.Rectangular) (hrhs : rhs.length = m.rowCount)
    (hx : x.length = m.columns) :
    (∀ v ∈ rowSpan (m.augmented rhs), leftSide m.columns (coeff x) v = 0) ↔
      ∀ row ∈ m.rows, Scalar.dot row x = 0 := by
  rw [forall_mem_rowSpan_iff, forall_mem_augmented]
  constructor
  · intro hall row hrow
    obtain ⟨i, hi, rfl⟩ := List.getElem_of_mem hrow
    have hvalue : i < rhs.length := hrhs ▸ hi
    rw [← leftSide_concat (h _ hrow) hx rhs[i]]
    exact hall i _ _ (List.getElem?_eq_getElem hi) (List.getElem?_eq_getElem hvalue)
  · intro hall i row value hrow _
    have hmem := List.mem_of_getElem? hrow
    rw [leftSide_concat (h _ hmem) hx, hall _ hmem]

theorem map_coeff_augmented_of_lt (h : m.Rectangular) (hrhs : rhs.length = m.rowCount) {j : Nat}
    (hj : j < m.columns) : (m.augmented rhs).map (coeff · j) = m.column j := by
  apply ext_of_lt ((List.length_map _).trans (length_augmented hrhs)) length_column
  intro i hi
  have hlen := h.length_getD hi
  rw [column, List.getElem?_map, List.getElem?_map, augmented_getElem? hrhs hi, rows_getElem?_eq hi,
    Option.map_some, Option.map_some, coeff_append_left _ (hlen ▸ hj)]

theorem map_coeff_augmented_columns (h : m.Rectangular) (hrhs : rhs.length = m.rowCount) :
    (m.augmented rhs).map (coeff · m.columns) = rhs := by
  apply ext_of_lt ((List.length_map _).trans (length_augmented hrhs)) hrhs
  intro i hi
  have hlen := h.length_getD hi
  rw [List.getElem?_map, augmented_getElem? hrhs hi, Option.map_some, ← hlen, coeff_concat_length,
    getElem?_eq_coeff (hrhs ▸ hi)]

/-- An equation that follows from a system is a combination of columns and of right-hand sides with
the same factors. -/
theorem Rectangular.exists_factors (h : m.Rectangular) (hrhs : rhs.length = m.rowCount)
    {v : ℕ → ℚ} (hv : v ∈ rowSpan (m.augmented rhs)) :
    ∃ y : List ℚ, y.length = m.rowCount ∧
      (∀ j < m.columns, v j = Scalar.dot (m.column j) y) ∧ v m.columns = Scalar.dot rhs y := by
  obtain ⟨y, hlen, hy⟩ := exists_factors_of_mem_rowSpan hv
  refine ⟨y, ?_, fun j hj => ?_, ?_⟩
  · rw [hlen, length_augmented hrhs]
  · rw [hy, map_coeff_augmented_of_lt h hrhs hj]
  · rw [hy, map_coeff_augmented_columns h hrhs]

end RowMatrix

end SimplexMethod
