import SimplexMethod.Proofs.Checked
import SimplexMethod.Proofs.Scalar.Exact
import SimplexMethod.RowMatrix.Basic

/-!
# Entries of rectangular matrices

In a rectangular matrix every position below the number of rows and of columns can be read
(`Rectangular.entry?_eq`) and written (`Rectangular.setEntry?_eq`), whatever the scalars are.
Matrices of one size are equal when their rows or their entries are (`ext_getD`, `Rectangular.ext`),
and a matrix into which entries of another one are written becomes the other one when the two agree
everywhere else (`Rectangular.setEntries?_eq`).
-/

set_option autoImplicit false

namespace SimplexMethod

variable {F : Type}

namespace RowMatrix

variable {m : RowMatrix F} {i j k l : Nat}

theorem rows_getElem?_eq (h : i < m.rowCount) : m.rows[i]? = some (m.rows.getD i []) := by
  have hi : i < m.rows.length := h
  simp [List.getD_eq_getElem?_getD, hi]

theorem Rectangular.length_getD (h : m.Rectangular) (hi : i < m.rowCount) :
    (m.rows.getD i []).length = m.columns :=
  h _ (List.mem_of_getElem? (rows_getElem?_eq hi))

/-- Matrices of the same size are equal when their rows are. -/
theorem ext_getD {m' : RowMatrix F} (hrows : m.rowCount = m'.rowCount)
    (hcolumns : m.columns = m'.columns)
    (h : ∀ i < m.rowCount, m.rows.getD i [] = m'.rows.getD i []) : m = m' := by
  have hlist : m.rows = m'.rows := by
    apply ext_of_lt rfl hrows.symm
    intro i hi
    rw [rows_getElem?_eq hi, rows_getElem?_eq (hrows ▸ hi), h i hi]
  cases m
  cases m'
  cases hlist
  cases hcolumns
  rfl

/-- The matrix with another row at a position. -/
def setRow (m : RowMatrix F) (k : Nat) (row : List F) : RowMatrix F :=
  { m with rows := m.rows.set k row }

theorem getD_setRow_self {row : List F} (hk : k < m.rowCount) :
    (m.setRow k row).rows.getD k [] = row := by
  rw [setRow, List.getD_eq_getElem?_getD, List.getElem?_set_self hk, Option.getD_some]

theorem getD_setRow_of_ne {row : List F} (hne : l ≠ k) :
    (m.setRow k row).rows.getD l [] = m.rows.getD l [] := by
  rw [setRow, List.getD_eq_getElem?_getD, List.getElem?_set_ne hne.symm,
    List.getD_eq_getElem?_getD]

theorem setRow_rowCount {row : List F} : (m.setRow k row).rowCount = m.rowCount :=
  List.length_set

theorem Rectangular.setRow (h : m.Rectangular) {row : List F} (hrow : row.length = m.columns) :
    (m.setRow k row).Rectangular := by
  intro other hother
  rcases List.mem_or_eq_of_mem_set hother with hold | rfl
  · exact h other hold
  · exact hrow

theorem setRow_getD (hk : k < m.rowCount) : m.setRow k (m.rows.getD k []) = m := by
  refine ext_getD setRow_rowCount rfl fun l _ => ?_
  rcases eq_or_ne l k with rfl | hne
  · exact getD_setRow_self hk
  · exact getD_setRow_of_ne hne

/-! ## Reading and writing -/

theorem getElem?_getD (hi : i < m.rowCount) : (m.rows.getD i [])[j]? = m.entry? i j := by
  show _ = m.rows[i]?.bind fun row => row[j]?
  rw [rows_getElem?_eq hi, Option.bind_some]

theorem entry?_eq_none (hi : m.rowCount ≤ i) : m.entry? i j = none := by
  show (m.rows[i]?.bind fun row => row[j]?) = none
  rw [List.getElem?_eq_none hi, Option.bind_none]

theorem Rectangular.lt_of_entry? (h : m.Rectangular) {a : F} (hread : m.entry? i j = some a) :
    i < m.rowCount ∧ j < m.columns := by
  obtain ⟨row, hrow, hentry⟩ := Option.bind_eq_some_iff.1 hread
  rw [← h row (List.mem_of_getElem? hrow)]
  exact ⟨(List.getElem?_eq_some_iff.1 hrow).1, (List.getElem?_eq_some_iff.1 hentry).1⟩

theorem Rectangular.setEntry?_eq (h : m.Rectangular) (hi : i < m.rowCount) (hj : j < m.columns)
    (value : F) :
    m.setEntry? i j value = some (m.setRow i ((m.rows.getD i []).set j value)) := by
  unfold setEntry?
  rw [rows_getElem?_eq hi]
  simp only [Option.bind_eq_bind, Option.bind_some, write?_eq (h.length_getD hi ▸ hj)]
  rfl

/-- The written entry is in its place, and all others are as before. -/
theorem Rectangular.entry?_setRow_set (h : m.Rectangular) (hi : i < m.rowCount)
    (hj : j < m.columns) (value : F) :
    RowMatrix.entry? (m.setRow i ((m.rows.getD i []).set j value)) k l =
      if k = i ∧ l = j then some value else m.entry? k l := by
  have hwrite : j < (m.rows.getD i []).length := h.length_getD hi ▸ hj
  rcases eq_or_ne i k with rfl | hrow
  · rw [← getElem?_getD (by rwa [setRow_rowCount]), getD_setRow_self hi]
    rcases eq_or_ne j l with rfl | hcolumn
    · rw [List.getElem?_set_self hwrite, if_pos ⟨rfl, rfl⟩]
    · rw [List.getElem?_set_ne hcolumn, getElem?_getD hi, if_neg fun heq => hcolumn heq.2.symm]
  · rw [if_neg fun heq => hrow heq.1.symm]
    show ((m.rows.set i _)[k]?.bind fun row => row[l]?) = _
    rw [List.getElem?_set_ne hrow]
    rfl

/-- A matrix into which entries of another one are written becomes the other one, if the two agree
in all entries that are not written. -/
theorem Rectangular.setEntries?_eq {target : RowMatrix F} (h : m.Rectangular)
    (htarget : target.Rectangular) (hrows : m.rowCount = target.rowCount)
    (hcolumns : m.columns = target.columns) {entries : List (Nat × Nat × F)}
    (hwrites : ∀ i j value, (i, j, value) ∈ entries → target.entry? i j = some value)
    (hrest : ∀ i j, (∀ value, (i, j, value) ∉ entries) → m.entry? i j = target.entry? i j) :
    m.setEntries? entries = some target := by
  -- Over all matrices: after a write, the matrix agrees with the target in that entry too.
  induction entries generalizing m with
  | nil =>
    refine congrArg some (ext_getD hrows hcolumns fun i hi => List.ext_getElem? fun j => ?_)
    rw [getElem?_getD hi, getElem?_getD (hrows ▸ hi)]
    exact hrest i j (by simp)
  | cons write entries ih =>
    obtain ⟨i, j, value⟩ := write
    have hentry := hwrites i j value List.mem_cons_self
    obtain ⟨hi, hj⟩ := htarget.lt_of_entry? hentry
    rw [← hrows] at hi
    rw [← hcolumns] at hj
    have hstep : m.setEntries? ((i, j, value) :: entries) =
        (m.setRow i ((m.rows.getD i []).set j value)).setEntries? entries := by
      have hwrite := h.setEntry?_eq hi hj value
      rw [setEntries?, List.foldlM_cons]
      exact congrArg (· >>= _) hwrite
    rw [hstep]
    refine ih (h.setRow (by rw [List.length_set, h.length_getD hi]))
      (setRow_rowCount.trans hrows) hcolumns
      (fun k l a hmem => hwrites k l a (List.mem_cons_of_mem _ hmem)) fun k l hnot => ?_
    rw [h.entry?_setRow_set hi hj]
    split
    · next heq => rw [heq.1, heq.2, hentry]
    · next hne =>
      refine hrest k l fun a hmem => ?_
      rcases List.mem_cons.1 hmem with heq | hmem
      · cases heq
        exact hne ⟨rfl, rfl⟩
      · exact hnot a hmem

/-! ## Entries -/

section Entries

variable [Scalar F]

/-- The entry at a row and a column, zero outside the matrix. -/
def entry (m : RowMatrix F) (i j : Nat) : F := coeff (m.rows.getD i []) j

theorem Rectangular.entry?_eq (h : m.Rectangular) (hi : i < m.rowCount) (hj : j < m.columns) :
    m.entry? i j = some (m.entry i j) := by
  show (m.rows[i]?.bind fun row => row[j]?) = _
  rw [rows_getElem?_eq hi, Option.bind_some, getElem?_eq_coeff (h.length_getD hi ▸ hj)]
  rfl

theorem entry_of_rowCount_le (hi : m.rowCount ≤ i) : m.entry i j = 0 := by
  rw [entry, List.getD_eq_getElem?_getD, List.getElem?_eq_none hi, Option.getD_none, coeff_nil]

theorem entry_eq_of_getElem? {row : List F} (h : m.rows[i]? = some row) :
    m.entry i j = coeff row j := by
  rw [entry, List.getD_eq_getElem?_getD, h, Option.getD_some]

/-- Rectangular matrices of the same size are equal when their entries are. -/
theorem Rectangular.ext {m' : RowMatrix F} (h : m.Rectangular) (h' : m'.Rectangular)
    (hrows : m.rowCount = m'.rowCount) (hcolumns : m.columns = m'.columns)
    (hentry : ∀ i < m.rowCount, ∀ j < m.columns, m.entry i j = m'.entry i j) : m = m' := by
  refine ext_getD hrows hcolumns fun i hi => ext_coeff ?_ fun j hj => ?_
  · rw [h.length_getD hi, h'.length_getD (hrows ▸ hi), hcolumns]
  · exact hentry i hi j (h.length_getD hi ▸ hj)

theorem rectangular_zeros {rows columns : Nat} :
    (zeros rows columns : RowMatrix F).Rectangular := by
  intro row hrow
  rw [List.eq_of_mem_replicate hrow]
  exact List.length_replicate

theorem entry?_zeros {rows columns : Nat} (hi : i < rows) :
    RowMatrix.entry? (zeros rows columns : RowMatrix F) i j = (List.replicate columns 0)[j]? := by
  show ((List.replicate rows (List.replicate columns (0 : F)))[i]?.bind fun row => row[j]?) = _
  rw [List.getElem?_replicate_of_lt hi, Option.bind_some]

/-- The entries of a column, from the first row down. -/
def column (m : RowMatrix F) (j : Nat) : List F := m.rows.map (coeff · j)

@[simp]
theorem length_column : (m.column j).length = m.rowCount := List.length_map _

theorem coeff_column : coeff (m.column j) i = m.entry i j := by
  rcases lt_or_ge i m.rowCount with hi | hi
  · have hrow := rows_getElem?_eq hi
    apply coeff_of_getElem?
    rw [column, List.getElem?_map, hrow, Option.map_some, entry]
  · rw [entry_of_rowCount_le hi, coeff_of_length_le (length_column.trans_le hi)]

/-- The columns at the given positions; the value of `selectColumns?` at columns of the matrix. -/
def selected (m : RowMatrix F) (positions : List Nat) : RowMatrix F :=
  { rows := m.rows.map (pick positions), columns := positions.length }

theorem Rectangular.selectColumns?_eq (h : m.Rectangular) {positions : List Nat}
    (hlt : ∀ j ∈ positions, j < m.columns) :
    m.selectColumns? positions = some (m.selected positions) := by
  have hrows : (m.rows.mapM fun row => positions.mapM fun j => row[j]?) =
      some (m.rows.map (pick positions)) := by
    refine mapM_eq_some_map fun row hrow => mapM_eq_some_map fun j hj => getElem?_eq_coeff ?_
    rw [h row hrow]
    exact hlt j hj
  rw [selectColumns?, hrows]
  rfl

theorem rectangular_selected {positions : List Nat} : (m.selected positions).Rectangular := by
  intro row hrow
  obtain ⟨other, -, rfl⟩ := List.mem_map.1 hrow
  exact length_pick _ _

theorem selected_rowCount {positions : List Nat} :
    (m.selected positions).rowCount = m.rowCount := List.length_map _

end Entries

end RowMatrix

end SimplexMethod
