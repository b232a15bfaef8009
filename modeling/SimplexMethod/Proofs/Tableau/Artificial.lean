import Mathlib.Tactic
import SimplexMethod.Proofs.Problem.Feasible
import SimplexMethod.Proofs.TwoPhase.Descent
import SimplexMethod.Tableau.Artificial

/-!
# The artificial problem

The tableau of the artificial problem is well formed for every kind of scalar
(`wellFormed_artificialTableau`). Over the rationals it states, with respect to the basis of
artificial variables, the constraints with artificial variables and twice the sum of these as the
cost (`canonical_artificialTableau`). Twice, because the cost row holds a one and not a zero for
each of them at the start.
-/

set_option autoImplicit false

namespace SimplexMethod

variable {F : Type}

namespace Problem

section Shape

variable [Scalar F] {p : Problem F} {i j : Nat}

/-- A constraint after the change of signs. -/
def signedRow (p : Problem F) (i : Nat) : List F :=
  (p.constraints.rows.getD i []).map (signFor (coeff p.values i) * ·)

/-- The value of a constraint after the change of signs. -/
def signedValue (p : Problem F) (i : Nat) : F :=
  signFor (coeff p.values i) * coeff p.values i

/-- A constraint row of the artificial problem. -/
def artificialRow (p : Problem F) (i : Nat) : List F :=
  p.signedRow i ++ SimplexMethod.unitRow p.constraintCount i ++ [p.signedValue i]

/-- The constraint rows of the artificial problem. -/
def artificialRows (p : Problem F) : List (List F) :=
  (List.zip p.signedRows p.signedValues).zipIdx.map fun ((row, value), i) =>
    row ++ SimplexMethod.unitRow p.constraintCount i ++ [value]

theorem length_unitRow (size i : Nat) : (SimplexMethod.unitRow size i : List F).length = size := by
  rw [SimplexMethod.unitRow, List.length_map, List.length_range]

theorem coeff_unitRow {size k : Nat} (hk : k < size) :
    coeff (SimplexMethod.unitRow size i : List F) k = if k = i then 1 else 0 := by
  apply coeff_of_getElem?
  rw [SimplexMethod.unitRow, List.getElem?_map, List.getElem?_range hk, Option.map_some]

theorem length_signedRows : p.signedRows.length = p.constraintCount := by
  rw [signedRows, List.length_zipWith, p.values_length]
  exact Nat.min_self _

theorem signedRows_getElem? (hi : i < p.constraintCount) :
    p.signedRows[i]? = some (p.signedRow i) := by
  have hrow := RowMatrix.rows_getElem?_eq (m := p.constraints) hi
  have hvalue : p.values[i]? = some (coeff p.values i) :=
    getElem?_eq_coeff (p.values_length ▸ hi)
  rw [signedRows, List.getElem?_zipWith, hrow, hvalue]
  rfl

theorem signedValues_getElem? (hi : i < p.constraintCount) :
    p.signedValues[i]? = some (p.signedValue i) := by
  have hvalue : p.values[i]? = some (coeff p.values i) :=
    getElem?_eq_coeff (p.values_length ▸ hi)
  rw [signedValues, List.getElem?_map, hvalue]
  rfl

omit [Scalar F] in
theorem length_constraintRow (p : Problem F) (hi : i < p.constraintCount) :
    (p.constraints.rows.getD i []).length = p.variableCount :=
  p.rectangular.length_getD hi

theorem length_signedRow (hi : i < p.constraintCount) :
    (p.signedRow i).length = p.variableCount := by
  rw [signedRow, List.length_map, p.length_constraintRow hi]

theorem length_artificialRow (hi : i < p.constraintCount) :
    (p.artificialRow i).length = p.variableCount + p.constraintCount + 1 := by
  rw [artificialRow, List.length_append, List.length_append, length_signedRow hi, length_unitRow,
    List.length_singleton]

theorem length_of_mem_signedRows {row : List F} (hrow : row ∈ p.signedRows) :
    row.length = p.variableCount := by
  obtain ⟨i, hi, rfl⟩ := List.getElem_of_mem hrow
  have hlt : i < p.constraintCount := length_signedRows (p := p) ▸ hi
  have hget := signedRows_getElem? hlt
  rw [List.getElem?_eq_getElem hi, Option.some.injEq] at hget
  rw [hget, length_signedRow hlt]

theorem length_artificialRows : p.artificialRows.length = p.constraintCount := by
  rw [artificialRows, List.length_map, List.length_zipIdx, List.length_zip, length_signedRows,
    signedValues, List.length_map, p.values_length]
  exact Nat.min_self _

theorem artificialRows_getElem? (hi : i < p.constraintCount) :
    p.artificialRows[i]? = some (p.artificialRow i) := by
  have hzip : (List.zip p.signedRows p.signedValues)[i]? =
      some (p.signedRow i, p.signedValue i) :=
    List.getElem?_zip_eq_some.2 ⟨signedRows_getElem? hi, signedValues_getElem? hi⟩
  rw [artificialRows, List.getElem?_map, List.getElem?_zipIdx, hzip]
  simp [artificialRow]

theorem length_of_mem_artificialRows {row : List F} (hrow : row ∈ p.artificialRows) :
    row.length = p.variableCount + p.constraintCount + 1 := by
  obtain ⟨i, hi, rfl⟩ := List.getElem_of_mem hrow
  have hlt : i < p.constraintCount := length_artificialRows (p := p) ▸ hi
  have hget := artificialRows_getElem? hlt
  rw [List.getElem?_eq_getElem hi, Option.some.injEq] at hget
  rw [hget, length_artificialRow hlt]

/-! ### The cost row -/

theorem getElem?_foldl_zipWith_add (rows : List (List F)) {init : List F} (hj : j < init.length)
    (h : ∀ row ∈ rows, row.length = init.length) :
    (rows.foldl (List.zipWith (· + ·)) init)[j]? =
      some ((rows.map (coeff · j)).foldl (· + ·) (coeff init j)) := by
  induction rows generalizing init with
  | nil => exact getElem?_eq_coeff hj
  | cons row rows ih =>
    have hrow := h row List.mem_cons_self
    have hlen : (List.zipWith (· + ·) init row).length = init.length := by
      rw [List.length_zipWith, hrow, Nat.min_self]
    have hsum : coeff (List.zipWith (· + ·) init row) j = coeff init j + coeff row j := by
      apply coeff_of_getElem?
      rw [List.getElem?_zipWith, getElem?_eq_coeff hj, getElem?_eq_coeff (hrow ▸ hj)]
    rw [List.foldl_cons, ih (hlen ▸ hj) fun r hr => (h r (List.mem_cons_of_mem _ hr)).trans hlen.symm,
      hsum, List.map_cons, List.foldl_cons]

/-- Each of the sums goes down its column. -/
theorem getElem?_columnSums {width : Nat} {rows : List (List F)} (hj : j < width)
    (h : ∀ row ∈ rows, row.length = width) :
    (columnSums width rows)[j]? = some (Scalar.sum (rows.map (coeff · j))) := by
  have hzero : coeff (List.replicate width (-0 : F)) j = -0 :=
    coeff_of_getElem? (List.getElem?_replicate_of_lt hj)
  rw [columnSums, getElem?_foldl_zipWith_add rows (by rwa [List.length_replicate])
    (by simpa using h), hzero, Scalar.sum]

theorem length_foldl_zipWith_add (rows : List (List F)) (init : List F)
    (h : ∀ row ∈ rows, row.length = init.length) :
    (rows.foldl (List.zipWith (· + ·)) init).length = init.length := by
  induction rows generalizing init with
  | nil => rfl
  | cons row rows ih =>
    have hlen : (List.zipWith (· + ·) init row).length = init.length := by
      rw [List.length_zipWith, h row List.mem_cons_self, Nat.min_self]
    rw [List.foldl_cons, ih _ fun r hr => (h r (List.mem_cons_of_mem _ hr)).trans hlen.symm, hlen]

theorem length_columnSums {width : Nat} {rows : List (List F)}
    (h : ∀ row ∈ rows, row.length = width) : (columnSums width rows).length = width := by
  rw [columnSums, length_foldl_zipWith_add, List.length_replicate]
  simpa using h

/-- The cost row of the artificial problem. -/
def artificialCosts (p : Problem F) : List F :=
  (columnSums p.variableCount p.signedRows).map (-·) ++ List.replicate p.constraintCount 1 ++
    [-Scalar.sum p.signedValues]

theorem length_artificialCosts :
    p.artificialCosts.length = p.variableCount + p.constraintCount + 1 := by
  rw [artificialCosts, List.length_append, List.length_append, List.length_map,
    length_columnSums fun _ => length_of_mem_signedRows, List.length_replicate,
    List.length_singleton]

theorem artificialTableau_columnCount :
    p.artificialTableau.columnCount = p.variableCount + p.constraintCount :=
  Nat.add_sub_cancel _ _

theorem artificialTableau_rowCount : p.artificialTableau.rowCount = p.constraintCount :=
  List.length_range' ..

theorem artificialTableau_artificials :
    p.artificialTableau.artificials = p.constraintCount := rfl

theorem artificialTableau_structuralCount :
    p.artificialTableau.structuralCount = p.variableCount := by
  rw [Tableau.structuralCount, artificialTableau_columnCount, artificialTableau_artificials,
    Nat.add_sub_cancel]

theorem artificialTableau_basic (hi : i < p.constraintCount) :
    p.artificialTableau.basic i = p.variableCount + i := by
  show (List.range' p.variableCount p.constraintCount).getD i 0 = _
  rw [List.getD_eq_getElem?_getD, List.getElem?_range' hi]
  simp

theorem wellFormed_artificialTableau : p.artificialTableau.WellFormed := by
  refine Tableau.wellFormed_ofBasis ?_ ?_ (Nat.succ_pos _) ?_ List.nodup_range' ?_
  · show (p.artificialCosts :: p.artificialRows).length = _
    rw [List.length_cons, length_artificialRows, List.length_range']
  · intro row hrow
    rcases List.mem_cons.1 hrow with rfl | hrow
    · exact length_artificialCosts
    · exact length_of_mem_artificialRows hrow
  · show p.constraintCount ≤ p.variableCount + p.constraintCount + 1 - 1
    omega
  · intro j hj
    have hrange := List.mem_range'_1.1 hj
    show j < p.variableCount + p.constraintCount + 1 - 1
    omega

/-! ### Entries -/

theorem artificialTableau_entry_eq (hi : i < p.constraintCount) :
    p.artificialTableau.entry i j = coeff (p.artificialRow i) j :=
  RowMatrix.entry_eq_of_getElem? (artificialRows_getElem? hi)

theorem artificialTableau_entry_structural (hi : i < p.constraintCount)
    (hj : j < p.variableCount) : p.artificialTableau.entry i j =
      signFor (coeff p.values i) * p.constraints.entry i j := by
  have hrow : j < (p.constraints.rows.getD i []).length := by rwa [p.length_constraintRow hi]
  rw [artificialTableau_entry_eq hi, artificialRow, List.append_assoc,
    coeff_append_left _ (by rwa [length_signedRow hi])]
  apply coeff_of_getElem?
  rw [signedRow, List.getElem?_map, getElem?_eq_coeff hrow]
  rfl

theorem artificialTableau_entry_artificial (hi : i < p.constraintCount) {k : Nat}
    (hk : k < p.constraintCount) :
    p.artificialTableau.entry i (p.variableCount + k) = if k = i then 1 else 0 := by
  have hlen := length_signedRow hi
  rw [artificialTableau_entry_eq hi, artificialRow, List.append_assoc,
    coeff_append_right _ (by omega), hlen, Nat.add_sub_cancel_left,
    coeff_append_left _ (by rwa [length_unitRow]), coeff_unitRow hk]

theorem artificialTableau_value (hi : i < p.constraintCount) :
    p.artificialTableau.value i = p.signedValue i := by
  have hlen : (p.signedRow i ++ SimplexMethod.unitRow p.constraintCount i).length =
      p.variableCount + p.constraintCount := by
    rw [List.length_append, length_signedRow hi, length_unitRow]
  rw [Tableau.value, artificialTableau_entry_eq hi, artificialRow, artificialTableau_columnCount,
    ← hlen, coeff_concat_length]

theorem map_coeff_artificialRows_eq {column : List F} (hlen : column.length = p.constraintCount)
    (h : ∀ i < p.constraintCount, p.artificialTableau.entry i j = coeff column i) :
    p.artificialRows.map (coeff · j) = column := by
  apply ext_coeff (by rw [List.length_map, length_artificialRows, hlen])
  intro i hi
  rw [List.length_map, length_artificialRows] at hi
  rw [← h i hi, artificialTableau_entry_eq hi]
  apply coeff_of_getElem?
  rw [List.getElem?_map, artificialRows_getElem? hi, Option.map_some]

/-- The columns of the artificial rows: those of the signed rows, unit vectors, the right-hand
sides, and nothing after them. -/
theorem map_coeff_artificialRows_of_lt (hj : j < p.variableCount) :
    p.artificialRows.map (coeff · j) = p.signedRows.map (coeff · j) := by
  apply map_coeff_artificialRows_eq (by rw [List.length_map, length_signedRows])
  intro i hi
  have hcoeff : coeff (p.signedRows.map (coeff · j)) i = coeff (p.signedRow i) j := by
    apply coeff_of_getElem?
    rw [List.getElem?_map, signedRows_getElem? hi, Option.map_some]
  rw [hcoeff, artificialTableau_entry_eq hi, artificialRow, List.append_assoc,
    coeff_append_left _ (by rw [length_signedRow hi]; exact hj)]

theorem map_coeff_artificialRows_artificial {k : Nat} (hk : k < p.constraintCount) :
    p.artificialRows.map (coeff · (p.variableCount + k)) =
      SimplexMethod.unitRow p.constraintCount k := by
  apply map_coeff_artificialRows_eq (length_unitRow _ _)
  intro i hi
  rw [artificialTableau_entry_artificial hi hk, coeff_unitRow hi]
  simp only [eq_comm]

theorem map_coeff_artificialRows_value :
    p.artificialRows.map (coeff · (p.variableCount + p.constraintCount)) = p.signedValues := by
  refine map_coeff_artificialRows_eq
    (by rw [signedValues, List.length_map]; exact p.values_length) fun i hi => ?_
  rw [coeff_of_getElem? (signedValues_getElem? hi), ← artificialTableau_value hi,
    Tableau.value, artificialTableau_columnCount]

theorem map_coeff_artificialRows_of_gt (hj : p.variableCount + p.constraintCount < j) :
    p.artificialRows.map (coeff · j) = List.replicate p.constraintCount 0 := by
  apply map_coeff_artificialRows_eq (List.length_replicate ..)
  intro i hi
  rw [coeff_of_getElem? (List.getElem?_replicate_of_lt hi), artificialTableau_entry_eq hi]
  apply coeff_of_length_le
  rw [length_artificialRow hi]
  omega

/-- The relative costs: minus the sums of the columns, and ones for the artificial variables. -/
theorem artificialTableau_relativeCost_structural (hj : j < p.variableCount) :
    p.artificialTableau.relativeCost j = -Scalar.sum (p.artificialRows.map (coeff · j)) := by
  have hlt : j < ((columnSums p.variableCount p.signedRows).map (-·)).length := by
    rwa [List.length_map, length_columnSums fun _ => length_of_mem_signedRows]
  show coeff p.artificialCosts j = _
  rw [artificialCosts, List.append_assoc, coeff_append_left _ hlt,
    map_coeff_artificialRows_of_lt hj]
  apply coeff_of_getElem?
  rw [List.getElem?_map, getElem?_columnSums hj fun _ => length_of_mem_signedRows, Option.map_some]

theorem artificialTableau_relativeCost_artificial {k : Nat} (hk : k < p.constraintCount) :
    p.artificialTableau.relativeCost (p.variableCount + k) = 1 := by
  have hsums : ((columnSums p.variableCount p.signedRows).map (-·)).length = p.variableCount := by
    rw [List.length_map, length_columnSums fun _ => length_of_mem_signedRows]
  show coeff p.artificialCosts _ = _
  rw [artificialCosts, List.append_assoc, coeff_append_right _ (by omega), hsums,
    Nat.add_sub_cancel_left, coeff_append_left _ (by rwa [List.length_replicate]),
    coeff_of_getElem? (List.getElem?_replicate_of_lt hk)]

theorem artificialTableau_relativeCost_last :
    p.artificialTableau.relativeCost (p.variableCount + p.constraintCount) =
      -Scalar.sum (p.artificialRows.map (coeff · (p.variableCount + p.constraintCount))) := by
  have hlen : ((columnSums p.variableCount p.signedRows).map (-·) ++
      List.replicate p.constraintCount 1).length = p.variableCount + p.constraintCount := by
    rw [List.length_append, List.length_map, length_columnSums fun _ => length_of_mem_signedRows,
      List.length_replicate]
  show coeff p.artificialCosts _ = _
  rw [artificialCosts, map_coeff_artificialRows_value, ← hlen, coeff_concat_length]

end Shape

/-! ## Exact entries -/

section Exact

variable {p : Problem ℚ} {i j : Nat}

theorem signFor_mul_self_nonneg (b : ℚ) : 0 ≤ signFor b * b := by
  unfold signFor
  split
  · next h =>
    have hneg : b < 0 := h
    simpa using hneg.le
  · next h =>
    have hnonneg : 0 ≤ b := not_lt.1 h
    simpa using hnonneg

theorem signFor_mul_signFor (b : ℚ) : signFor b * signFor b = 1 := by
  unfold signFor
  split <;> norm_num

/-- The sums of the constraint rows, position by position. -/
theorem sum_mem_rowSpan (rows : List (List ℚ)) :
    (fun j => (rows.map (coeff · j)).sum) ∈ rowSpan rows := by
  induction rows with
  | nil => exact Submodule.zero_mem _
  | cons row rows ih =>
    have hle : rowSpan rows ≤ rowSpan (row :: rows) :=
      rowSpan_mono fun r hr => List.mem_cons_of_mem _ hr
    have hsum := Submodule.add_mem _ (coeff_mem_rowSpan List.mem_cons_self) (hle ih)
    simp only [List.map_cons, List.sum_cons]
    exact hsum

/-- Twice the sum of the artificial variables, as a cost. -/
def artificialCost (p : Problem ℚ) (j : ℕ) : ℚ :=
  if p.variableCount ≤ j ∧ j < p.variableCount + p.constraintCount then 2 else 0

/-- The equations of the artificial problem. -/
def artificialEquations (p : Problem ℚ) : Submodule ℚ (ℕ → ℚ) := p.artificialTableau.equations

theorem sum_unitColumn {k : Nat} (hk : k < p.constraintCount) :
    (SimplexMethod.unitRow p.constraintCount k : List ℚ).sum = 1 := by
  rw [SimplexMethod.unitRow, List.sum_map_ite_eq (List.range p.constraintCount)]
  simp [List.count_eq_one_of_mem List.nodup_range (List.mem_range.2 hk)]

/-- The relative costs differ from twice the artificial variables by the sum of all constraint
rows. -/
theorem artificialTableau_relativeCost (j : Nat) :
    p.artificialTableau.relativeCost j =
      p.artificialCost j - (p.artificialRows.map (coeff · j)).sum := by
  rcases lt_or_ge j p.variableCount with hj | hj
  · rw [artificialTableau_relativeCost_structural hj, Scalar.sum_eq, artificialCost,
      if_neg (by omega), zero_sub]
  · obtain ⟨k, rfl⟩ := Nat.exists_eq_add_of_le hj
    rcases lt_trichotomy k p.constraintCount with hk | rfl | hk
    · rw [artificialTableau_relativeCost_artificial hk, map_coeff_artificialRows_artificial hk,
        sum_unitColumn hk, artificialCost, if_pos (by omega)]
      norm_num
    · rw [artificialTableau_relativeCost_last, Scalar.sum_eq, artificialCost, if_neg (by omega),
        zero_sub]
    · rw [map_coeff_artificialRows_of_gt (by omega), artificialCost, if_neg (by omega),
        List.sum_replicate, smul_zero, sub_zero]
      exact coeff_of_length_le (length_artificialCosts.trans_le (by omega))

/-- Phase one starts with a tableau that states the artificial problem. -/
theorem canonical_artificialTableau :
    p.artificialTableau.Canonical p.artificialEquations p.artificialCost
      (p.variableCount + p.constraintCount) p.constraintCount where
  states := {
    wellFormed := wellFormed_artificialTableau
    equations_eq := rfl
    cost_mem := by
      have hsum : p.artificialTableau.relativeCost - p.artificialCost =
          -fun j => (p.artificialRows.map (coeff · j)).sum := by
        funext j
        rw [Pi.sub_apply, artificialTableau_relativeCost, Pi.neg_apply]
        ring
      rw [hsum]
      exact Submodule.neg_mem _ (sum_mem_rowSpan _)
    unit := by
      intro i hi k hk
      rw [artificialTableau_rowCount] at hi hk
      rw [artificialTableau_basic hi, artificialTableau_entry_artificial hk hi]
      simp only [eq_comm]
    unit_cost := by
      intro i hi
      rw [artificialTableau_rowCount] at hi
      have hart : p.artificialTableau.IsArtificial (p.variableCount + i) := by
        rw [Tableau.IsArtificial, artificialTableau_structuralCount]
        omega
      rw [artificialTableau_basic hi, if_pos hart, artificialTableau_relativeCost,
        map_coeff_artificialRows_artificial hi, sum_unitColumn hi, artificialCost,
        if_pos (by omega)]
      norm_num }
  nonneg := by
    intro i hi
    rw [artificialTableau_rowCount] at hi
    rw [artificialTableau_value hi]
    exact signFor_mul_self_nonneg _
  columnCount_eq := artificialTableau_columnCount
  artificials_eq := rfl

end Exact

end Problem

end SimplexMethod
