import Mathlib.Tactic
import SimplexMethod.Proofs.Tableau.Choice
import SimplexMethod.Proofs.Tableau.Solutions

/-!
# Tableaus in other units

In other units for the right-hand sides and for the costs, the last column of a tableau is
multiplied by one positive factor and the cost row by another one, the objective thus by both
(`Tableau.rescaled`). Pivots are made in constraint rows and in columns before the last, which are
not multiplied, so it does not matter whether the units are changed before a pivot or after it
(`WellFormed.bringIn_rescaled`).

Nor do the units matter to the choice of a pivot as long as there is no tolerance
(`WellFormed.move_rescaled`, `WellFormed.replacement_rescaled`): relative costs are compared with
zero and with each other, and so are ratios of values and entries.
-/

set_option autoImplicit false

namespace SimplexMethod

/-! ## Factors for rows and columns -/

namespace RowMatrix

variable {m : RowMatrix ℚ} {rowFactor columnFactor : ℕ → ℚ} {i j : Nat}

/-- The matrix with each entry multiplied by a factor for its row and one for its column. -/
def rescaled (m : RowMatrix ℚ) (rowFactor columnFactor : ℕ → ℚ) : RowMatrix ℚ :=
  { m with
    rows := m.rows.mapIdx fun i row => row.mapIdx fun j a => rowFactor i * columnFactor j * a }

@[simp]
theorem rescaled_rowCount : (m.rescaled rowFactor columnFactor).rowCount = m.rowCount :=
  List.length_mapIdx

theorem Rectangular.rescaled (h : m.Rectangular) :
    (m.rescaled rowFactor columnFactor).Rectangular := by
  intro row hrow
  obtain ⟨i, hi, rfl⟩ := List.mem_mapIdx.1 hrow
  rw [List.length_mapIdx]
  exact h _ (List.getElem_mem hi)

theorem entry_rescaled :
    (m.rescaled rowFactor columnFactor).entry i j = rowFactor i * columnFactor j * m.entry i j := by
  rw [entry, entry, RowMatrix.rescaled, coeff, coeff]
  simp only [List.getD_eq_getElem?_getD, List.getElem?_mapIdx]
  cases m.rows[i]? with
  | none => simp
  | some row =>
    simp only [Option.map_some, Option.getD_some, List.getElem?_mapIdx]
    cases row[j]? <;> simp

/-- Pivoting can be done before or after, unless the row or the column of the pivot has a factor of
its own. -/
theorem Rectangular.pivot_rescaled (h : m.Rectangular) (hi : i < m.rowCount)
    (hrow : rowFactor i = 1) (hcolumn : columnFactor j = 1) :
    (m.rescaled rowFactor columnFactor).pivot i j =
      (m.pivot i j).rescaled rowFactor columnFactor := by
  have hi' : i < (m.rescaled rowFactor columnFactor).rowCount := by rwa [rescaled_rowCount]
  refine (h.rescaled.pivot hi').ext (h.pivot hi).rescaled (by simp) rfl fun k _ l _ => ?_
  rw [entry_rescaled]
  rcases eq_or_ne k i with rfl | hk
  · rw [entry_pivot_self hi', entry_pivot_self hi]
    simp only [entry_rescaled, hrow, hcolumn]
    ring
  · rw [h.rescaled.entry_pivot_of_ne hi' hk, h.entry_pivot_of_ne hi hk]
    simp only [entry_rescaled, hrow, hcolumn]
    ring

end RowMatrix

namespace Tableau

variable {t : Tableau ℚ} {β δ : ℚ} {rule : PivotRule} {i j entering row : Nat}

/-! ## Tableaus -/

/-- The tableau with the right-hand sides multiplied by one factor and the costs by another one. -/
def rescaled (β δ : ℚ) (t : Tableau ℚ) : Tableau ℚ :=
  { t with
    matrix := t.matrix.rescaled (fun i => if i = 0 then δ else 1) fun j =>
      if j = t.columnCount then β else 1 }

@[simp]
theorem rescaled_basis : (t.rescaled β δ).basis = t.basis := rfl

@[simp]
theorem rescaled_rowCount : (t.rescaled β δ).rowCount = t.rowCount := rfl

@[simp]
theorem rescaled_columnCount : (t.rescaled β δ).columnCount = t.columnCount := rfl

@[simp]
theorem rescaled_structuralCount : (t.rescaled β δ).structuralCount = t.structuralCount := rfl

@[simp]
theorem rescaled_openColumns : (t.rescaled β δ).openColumns = t.openColumns := rfl

theorem entry_rescaled (hj : j < t.columnCount) : (t.rescaled β δ).entry i j = t.entry i j := by
  refine RowMatrix.entry_rescaled.trans ?_
  rw [if_neg (Nat.succ_ne_zero i), if_neg hj.ne, one_mul, one_mul]
  rfl

theorem value_rescaled : (t.rescaled β δ).value i = β * t.value i := by
  rw [value, rescaled_columnCount]
  refine RowMatrix.entry_rescaled.trans ?_
  rw [if_neg (Nat.succ_ne_zero i), if_pos rfl, one_mul]
  rfl

theorem relativeCost_rescaled (hj : j < t.columnCount) :
    (t.rescaled β δ).relativeCost j = δ * t.relativeCost j := by
  refine RowMatrix.entry_rescaled.trans ?_
  rw [if_pos rfl, if_neg hj.ne, mul_one]
  rfl

theorem relativeCost_columnCount_rescaled : (t.rescaled β δ).relativeCost t.columnCount =
    β * δ * t.relativeCost t.columnCount := by
  refine RowMatrix.entry_rescaled.trans ?_
  rw [if_pos rfl, if_pos rfl, mul_comm δ β]
  rfl

theorem objective_rescaled : (t.rescaled β δ).objective = β * δ * t.objective := by
  rw [objective, rescaled_columnCount, relativeCost_columnCount_rescaled, objective, mul_neg]

theorem columnOf_rescaled (hj : j < t.columnCount) :
    (t.rescaled β δ).columnOf j = t.columnOf j :=
  List.map_congr_left fun _ _ => entry_rescaled hj

theorem WellFormed.rescaled (h : t.WellFormed) : (t.rescaled β δ).WellFormed where
  rowCount_eq := RowMatrix.rescaled_rowCount.trans h.rowCount_eq
  columns_pos := h.columns_pos
  rectangular := h.rectangular.rescaled
  artificials_le := h.artificials_le
  nodup := h.nodup
  basis_lt := h.basis_lt
  marks_length := h.marks_length
  isMarked_iff := h.isMarked_iff

/-- The units can be changed before a pivot or after it. -/
theorem WellFormed.bringIn_rescaled (h : t.WellFormed) (hentering : entering < t.columnCount)
    (hrow : row < t.rowCount) :
    (t.rescaled β δ).bringIn entering row = (t.bringIn entering row).rescaled β δ := by
  have hpivot : (t.rescaled β δ).matrix.pivot (row + 1) entering =
      (t.matrix.pivot (row + 1) entering).rescaled (fun i => if i = 0 then δ else 1)
        fun j => if j = t.columnCount then β else 1 :=
    h.rectangular.pivot_rescaled (by have := h.rowCount_eq; omega) (if_neg (Nat.succ_ne_zero _))
      (if_neg hentering.ne)
  exact congrArg (fun matrix => { t.bringIn entering row with matrix }) hpivot

/-- A tableau of the same basis is the rescaled one when its entries have these units. -/
theorem WellFormed.eq_rescaled (h : t.WellFormed) {t' : Tableau ℚ} (h' : t'.WellFormed)
    (hbasis : t'.basis = t.basis) (hcolumns : t'.columnCount = t.columnCount)
    (hartificials : t'.artificials = t.artificials)
    (hcost : ∀ j < t.columnCount, t'.relativeCost j = δ * t.relativeCost j)
    (hobjective : t'.relativeCost t.columnCount = β * δ * t.relativeCost t.columnCount)
    (hentry : ∀ i < t.rowCount, ∀ j < t.columnCount, t'.entry i j = t.entry i j)
    (hvalue : ∀ i < t.rowCount, t'.entry i t.columnCount = β * t.value i) :
    t' = t.rescaled β δ := by
  refine h.rescaled.ext h' hbasis hcolumns hartificials (fun j hj => ?_) fun i hi j hj => ?_
  · rw [rescaled_columnCount] at hj
    rcases hj.lt_or_eq with hlt | rfl
    · rw [hcost j hlt, relativeCost_rescaled hlt]
    · rw [hobjective, relativeCost_columnCount_rescaled]
  · rw [rescaled_columnCount] at hj
    rcases hj.lt_or_eq with hlt | rfl
    · rw [hentry i hi j hlt, entry_rescaled hlt]
    · exact (hvalue i hi).trans value_rescaled.symm

/-! ## Choices -/

/-- A rule chooses the same column when all relative costs are multiplied by a positive factor. -/
theorem choose_map_mul (hδ : 0 < δ) (columns : List (Nat × ℚ)) :
    rule.choose (columns.map (Prod.map id (δ * ·))) =
      (rule.choose columns).map (Prod.map id (δ * ·)) := by
  cases rule with
  | first => exact List.head?_map
  | steepest => exact firstLeast?_map fun _ _ _ _ => mul_lt_mul_iff_right₀ hδ

theorem profitable_rescaled (hδ : 0 < δ) :
    (t.rescaled β δ).profitable 0 = (t.profitable 0).map (Prod.map id (δ * ·)) := by
  have hpriced : ((t.rescaled β δ).openColumns.map fun j => (j, (t.rescaled β δ).relativeCost j)) =
      (t.openColumns.map fun j => (j, t.relativeCost j)).map (Prod.map id (δ * ·)) := by
    rw [List.map_map]
    refine List.map_congr_left fun j hj => ?_
    have hlt : j < t.structuralCount := List.mem_range.1 (List.mem_filter.1 hj).1
    rw [relativeCost_rescaled (hlt.trans_le structuralCount_le)]
    rfl
  rw [profitable, profitable, hpriced, List.filter_map]
  congr 1
  refine List.filter_congr fun column _ => decide_eq_decide.2 ?_
  rw [neg_zero]
  exact mul_neg_iff.trans (by simp [hδ, hδ.not_gt])

/-- The first row of least ratio is the same when all ratios are multiplied by a positive factor. -/
theorem leastRatioRow_rescaled (hβ : 0 < β) (column : List ℚ) (threshold : ℚ) :
    (t.rescaled β δ).leastRatioRow column threshold = t.leastRatioRow column threshold := by
  have hratios : (t.rescaled β δ).ratios column threshold =
      (t.ratios column threshold).map (Prod.map id (β * ·)) := by
    rw [ratios, ratios, List.map_map]
    refine List.map_congr_left fun place _ => ?_
    rw [value_rescaled, mul_div_assoc]
    rfl
  have hleast : firstLeast? Prod.snd ((t.ratios column threshold).map (Prod.map id (β * ·))) =
      (firstLeast? Prod.snd (t.ratios column threshold)).map (Prod.map id (β * ·)) :=
    firstLeast?_map fun _ _ _ _ => mul_lt_mul_iff_right₀ hβ
  rw [leastRatioRow, leastRatioRow, hratios, hleast, Option.map_map]
  rfl

theorem leavingRow_rescaled (hβ : 0 < β) (column : List ℚ) (tolerance : ℚ) :
    (t.rescaled β δ).leavingRow column tolerance = t.leavingRow column tolerance := by
  rw [leavingRow, leavingRow, leastRatioRow_rescaled hβ, leastRatioRow_rescaled hβ]

/-- Without tolerance, the move does not depend on the units. -/
theorem WellFormed.move_rescaled (h : t.WellFormed) (hβ : 0 < β) (hδ : 0 < δ) :
    (t.rescaled β δ).move rule 0 = t.move rule 0 := by
  rw [move, move, profitable_rescaled hδ, choose_map_mul hδ]
  cases hchoice : rule.choose (t.profitable 0) with
  | none => rfl
  | some column =>
    obtain ⟨entering, cost⟩ := column
    have hlt := (h.lt_of_choose hchoice).1.trans_le structuralCount_le
    simp only [Option.map_some, Prod.map_apply, id_eq]
    rw [columnOf_rescaled hlt, leavingRow_rescaled hβ]

/-- Whatever the tolerance is, what takes the place of an artificial variable does not depend on the
units. -/
theorem replacement_rescaled (tolerance : ℚ) :
    (t.rescaled β δ).replacement row tolerance = t.replacement row tolerance := by
  rw [replacement, replacement, rescaled_openColumns]
  refine List.find?_congr fun j hj => ?_
  have hlt := List.mem_range.1 (List.mem_filter.1 hj).1
  rw [entry_rescaled (hlt.trans_le structuralCount_le)]

/-! ## Solutions -/

theorem point_rescaled : (t.rescaled β δ).point = fun j => β * t.point j := by
  funext j
  rw [point, point, scatter, scatter, Finset.mul_sum]
  refine Finset.sum_congr rfl fun i _ => ?_
  rw [value_rescaled, mul_ite, mul_zero]
  rfl

/-- The basic solution is in the units of the right-hand sides. -/
theorem WellFormed.basicSolution_rescaled (h : t.WellFormed) :
    (t.rescaled β δ).basicSolution = t.basicSolution.map (β * ·) := by
  apply ext_coeff
  · rw [List.length_map, length_basicSolution, length_basicSolution, rescaled_structuralCount]
  · intro j hj
    rw [length_basicSolution] at hj
    rw [coeff_map (mul_zero _), coeff_basicSolution h.rescaled hj, coeff_basicSolution h hj,
      point_rescaled]

end Tableau

end SimplexMethod
