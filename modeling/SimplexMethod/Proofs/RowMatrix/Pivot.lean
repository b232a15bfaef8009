import Mathlib.Tactic.FieldSimp
import SimplexMethod.Proofs.RowMatrix.Entries
import SimplexMethod.RowMatrix.Pivot

/-!
# Pivots of rectangular matrices

A pivot at a position of a rectangular matrix never fails, whatever the scalars are
(`Rectangular.pivot?_eq`). The rows are cleared one after the other, and each is still what it was
at the start when its turn comes (`Rectangular.foldlM_clearRow?`). Over the rationals the entries
after a pivot are those of Gauss-Jordan elimination (`entry_pivot_self`,
`Rectangular.entry_pivot_of_ne`).
-/

set_option autoImplicit false

namespace SimplexMethod

variable {F : Type}

namespace RowMatrix

variable {m : RowMatrix F} {i j k l : Nat}

/-! ## Pivots -/

section Pivots

variable [Scalar F]

/-- A row after its entry in column `j` has been cleared with the unit row. -/
def clear (j : Nat) (unit row : List F) : List F :=
  if coeff row j == 0 then row
  else List.zipWith (fun u w => w + -coeff row j * u) unit row

theorem length_clear {unit row : List F} (h : unit.length = row.length) :
    (clear j unit row).length = row.length := by
  unfold clear
  split
  · rfl
  · rw [List.length_zipWith, h, Nat.min_self]

/-- The row at a position divided by its entry in column `j`. -/
def unitRow (m : RowMatrix F) (i j : Nat) : List F := (m.rows.getD i []).map (· / m.entry i j)

/-- The matrix with a unit vector in column `j`, whose one is in row `i`; the value of `pivot?` at
a position of the matrix. -/
def pivot (m : RowMatrix F) (i j : Nat) : RowMatrix F :=
  { m with
    rows := m.rows.zipIdx.map fun (other, k) =>
      if k = i then m.unitRow i j else clear j (m.unitRow i j) other }

@[simp]
theorem pivot_columns : (m.pivot i j).columns = m.columns := rfl

@[simp]
theorem pivot_rowCount : (m.pivot i j).rowCount = m.rowCount := by
  simp [pivot, rowCount]

theorem Rectangular.length_unitRow (h : m.Rectangular) (hi : i < m.rowCount) :
    (m.unitRow i j).length = m.columns := by
  rw [unitRow, List.length_map, h.length_getD hi]

theorem rows_pivot_getElem? (hk : k < m.rowCount) :
    (m.pivot i j).rows[k]? =
      some (if k = i then m.unitRow i j else clear j (m.unitRow i j) (m.rows.getD k [])) := by
  simp only [pivot, List.getElem?_map, List.getElem?_zipIdx, rows_getElem?_eq hk,
    Option.map_some, Nat.zero_add]

theorem getD_pivot (hk : k < m.rowCount) :
    (m.pivot i j).rows.getD k [] =
      if k = i then m.unitRow i j else clear j (m.unitRow i j) (m.rows.getD k []) := by
  rw [List.getD_eq_getElem?_getD, rows_pivot_getElem? hk, Option.getD_some]

theorem Rectangular.pivot (h : m.Rectangular) (hi : i < m.rowCount) :
    (m.pivot i j).Rectangular := by
  intro row hrow
  obtain ⟨k, hk, rfl⟩ := List.getElem_of_mem hrow
  have hlt : k < m.rowCount := by
    rw [← pivot_rowCount (m := m) (i := i) (j := j)]
    exact hk
  have hget := rows_pivot_getElem? (i := i) (j := j) hlt
  rw [List.getElem?_eq_getElem hk, Option.some.injEq] at hget
  rw [hget, pivot_columns]
  split
  · exact h.length_unitRow hi
  · rw [length_clear (by rw [h.length_unitRow hi, h.length_getD hlt]), h.length_getD hlt]

/-! ## Row by row -/

theorem divideRow?_eq (hi : i < m.rowCount) (divisor : F) :
    m.divideRow? i divisor = some (m.setRow i ((m.rows.getD i []).map (· / divisor))) := by
  rw [divideRow?, rows_getElem?_eq hi]
  rfl

theorem Rectangular.addRowMultiple?_eq (h : m.Rectangular) (hcolumns : 0 < m.columns)
    (hi : i < m.rowCount) (hk : k < m.rowCount) (factor : F) :
    m.addRowMultiple? i k factor = some (m.setRow k
      (List.zipWith (fun read write => write + factor * read) (m.rows.getD i [])
        (m.rows.getD k []))) := by
  have hread := h.length_getD hi
  have hwrite := h.length_getD hk
  have hsum : addMultiple? m.columns factor (m.rows.getD i []) (m.rows.getD k []) =
      some (List.zipWith (fun read write => write + factor * read) (m.rows.getD i [])
        (m.rows.getD k [])) := by
    rw [addMultiple?, if_neg (by omega), List.take_of_length_le hread.le,
      List.drop_of_length_le hwrite.le, List.append_nil]
  rw [addRowMultiple?, if_neg hcolumns.ne', rows_getElem?_eq hi, rows_getElem?_eq hk]
  simp only [Option.bind_eq_bind, Option.bind_some, hsum]
  rfl

/-- Clearing a row writes the cleared row over it. -/
theorem Rectangular.clearRow?_eq (h : m.Rectangular) (hi : i < m.rowCount) (hj : j < m.columns)
    (hk : k < m.rowCount) :
    clearRow? i j m k =
      some (m.setRow k (clear j (m.rows.getD i []) (m.rows.getD k []))) := by
  rw [clearRow?, h.entry?_eq hk hj]
  simp only [Option.bind_eq_bind, Option.bind_some, Option.pure_def]
  by_cases hzero : (m.entry k j == 0) = true
  · rw [if_pos hzero, clear, if_pos (show (coeff (m.rows.getD k []) j == 0) = true from hzero)]
    exact congrArg some (setRow_getD hk).symm
  · rw [if_neg hzero, clear, if_neg (show ¬ (coeff (m.rows.getD k []) j == 0) = true from hzero)]
    exact h.addRowMultiple?_eq (Nat.zero_lt_of_lt hj) hi hk _

/-- Rows are cleared one after the other, each as it was at the start: the row that clears them is
none of them, and stays. -/
theorem Rectangular.foldlM_clearRow? (h : m.Rectangular) (hi : i < m.rowCount)
    (hj : j < m.columns) (ks : List Nat) (hnodup : ks.Nodup)
    (hks : ∀ k ∈ ks, k < m.rowCount ∧ k ≠ i) :
    ∃ m', ks.foldlM (clearRow? i j) m = some m' ∧ m'.rowCount = m.rowCount ∧
      m'.columns = m.columns ∧ ∀ l, m'.rows.getD l [] =
        if l ∈ ks then clear j (m.rows.getD i []) (m.rows.getD l []) else m.rows.getD l [] := by
  induction ks generalizing m with
  | nil => exact ⟨m, rfl, rfl, rfl, by simp⟩
  | cons k ks ih =>
    obtain ⟨hk, hne⟩ := hks k List.mem_cons_self
    obtain ⟨hnotMem, hnodup⟩ := List.nodup_cons.1 hnodup
    have hlength : (clear j (m.rows.getD i []) (m.rows.getD k [])).length = m.columns := by
      rw [length_clear (by rw [h.length_getD hi, h.length_getD hk]), h.length_getD hk]
    obtain ⟨m', hm', hrows, hcolumns, hget⟩ := ih (h.setRow (k := k) hlength)
      (by rwa [setRow_rowCount]) hj hnodup fun l hl => by
        rw [setRow_rowCount]
        exact hks l (List.mem_cons_of_mem _ hl)
    refine ⟨m', ?_, hrows.trans setRow_rowCount, hcolumns, fun l => ?_⟩
    · rw [List.foldlM_cons, h.clearRow?_eq hi hj hk]
      exact hm'
    · rw [hget l, getD_setRow_of_ne hne.symm]
      rcases eq_or_ne l k with rfl | hother
      · rw [if_neg hnotMem, if_pos List.mem_cons_self, getD_setRow_self hk]
      · simp only [getD_setRow_of_ne hother, List.mem_cons, hother, false_or]

theorem Rectangular.pivot?_eq (h : m.Rectangular) (hi : i < m.rowCount) (hj : j < m.columns) :
    m.pivot? i j = some (m.pivot i j) := by
  have hunit := h.length_unitRow (j := j) hi
  have hdivided := h.setRow (k := i) hunit
  obtain ⟨m', hm', hrows, hcolumns, hget⟩ := hdivided.foldlM_clearRow?
    (by rwa [setRow_rowCount]) hj ((List.range m.rowCount).filter (· ≠ i))
    (List.nodup_range.filter _) fun k hk => by
      rw [List.mem_filter, List.mem_range, decide_eq_true_eq] at hk
      rwa [setRow_rowCount]
  rw [pivot?, h.entry?_eq hi hj]
  simp only [Option.bind_eq_bind, Option.bind_some]
  rw [divideRow?_eq hi, ← unitRow, Option.bind_some, hm', Option.some.injEq]
  refine ext_getD (hrows.trans (setRow_rowCount.trans pivot_rowCount.symm)) hcolumns fun l hl => ?_
  rw [hrows, setRow_rowCount] at hl
  -- All rows have been cleared but the divided one.
  rw [hget, getD_pivot hl, getD_setRow_self hi]
  rcases eq_or_ne l i with rfl | hne
  · rw [if_neg (by simp), if_pos rfl, getD_setRow_self hi]
  · rw [if_pos (by simpa [hne] using hl), if_neg hne, getD_setRow_of_ne hne]

end Pivots

/-! ## Exact pivots -/

section Exact

variable {m : RowMatrix ℚ}

theorem coeff_clear {unit row : List ℚ} (h : unit.length = row.length) :
    coeff (clear j unit row) l = coeff row l - coeff row j * coeff unit l := by
  unfold clear
  split
  · next hzero =>
    rw [beq_iff_eq] at hzero
    rw [hzero]
    ring
  · rw [coeff_zipWith (by ring) h]
    ring

/-- The pivot row is divided by the pivot entry. -/
theorem entry_pivot_self (hi : i < m.rowCount) :
    (m.pivot i j).entry i l = m.entry i l / m.entry i j := by
  rw [entry_eq_of_getElem? (rows_pivot_getElem? hi), if_pos rfl, unitRow,
      coeff_map (f := (· / m.entry i j)) (zero_div _)]
  rfl

/-- The multiple of the pivot row that clears the pivot column is taken off the other rows. -/
theorem Rectangular.entry_pivot_of_ne (h : m.Rectangular) (hi : i < m.rowCount) (hk : k ≠ i) :
    (m.pivot i j).entry k l = m.entry k l - m.entry k j * (m.entry i l / m.entry i j) := by
  rcases lt_or_ge k m.rowCount with hlt | hge
  · rw [entry_eq_of_getElem? (rows_pivot_getElem? hlt), if_neg hk,
      coeff_clear (by rw [h.length_unitRow hi, h.length_getD hlt]), unitRow,
      coeff_map (f := (· / m.entry i j)) (zero_div _)]
    rfl
  · rw [entry_of_rowCount_le hge, entry_of_rowCount_le hge,
      entry_of_rowCount_le (pivot_rowCount.trans_le hge)]
    ring

end Exact

end RowMatrix

end SimplexMethod
