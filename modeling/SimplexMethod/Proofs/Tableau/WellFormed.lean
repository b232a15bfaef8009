import Mathlib.Tactic
import SimplexMethod.Proofs.RowMatrix.Pivot
import SimplexMethod.Tableau.Basic

/-!
# Well-formed tableaus

The parts of a well-formed tableau fit together: there is a constraint row for each place of the
basis, all rows are equally long, the basic columns are distinct and in range, and the marks say
which columns they are. In a well-formed tableau every reading operation has a value, and bringing
a column that is not basic into the basis gives a well-formed tableau again
(`WellFormed.bringIn?_eq`, `WellFormed.bringIn`). To read entries and to make pivots it is enough
that the rows fit (`Aligned`), whichever columns are basic. None of this depends on what the scalars
are.
-/

set_option autoImplicit false

namespace SimplexMethod

variable {F : Type}

/-- After one element of a list without repetitions has been replaced, the members are the new
element and the other old ones. -/
theorem mem_set_iff {α : Type} {xs : List α} (hxs : xs.Nodup) {i : Nat} {x a : α}
    (hi : xs[i]? = some x) (y : α) : y ∈ xs.set i a ↔ y = a ∨ (y ∈ xs ∧ y ≠ x) := by
  obtain ⟨hlt, rfl⟩ := List.getElem?_eq_some_iff.1 hi
  rw [List.mem_iff_getElem?]
  constructor
  · rintro ⟨k, hk⟩
    rcases eq_or_ne i k with rfl | hne
    · rw [List.getElem?_set_self hlt, Option.some.injEq] at hk
      exact Or.inl hk.symm
    · rw [List.getElem?_set_ne hne] at hk
      refine Or.inr ⟨List.mem_of_getElem? hk, ?_⟩
      rintro rfl
      obtain ⟨hklt, heq⟩ := List.getElem?_eq_some_iff.1 hk
      exact hne ((hxs.getElem_inj_iff).1 heq).symm
  · rintro (rfl | ⟨hy, hne⟩)
    · exact ⟨i, List.getElem?_set_self hlt⟩
    · obtain ⟨k, hk, rfl⟩ := List.getElem_of_mem hy
      refine ⟨k, ?_⟩
      rw [List.getElem?_set_ne (by rintro rfl; exact hne rfl), List.getElem?_eq_getElem hk]

namespace Tableau

/-- There is a constraint row for each place of the basis, and all rows are equally long and have a
right-hand side. -/
structure Aligned (t : Tableau F) : Prop where
  rowCount_eq : t.matrix.rowCount = t.rowCount + 1
  columns_pos : 0 < t.matrix.columns
  rectangular : t.matrix.Rectangular

/-- The parts of a tableau fit together. -/
structure WellFormed (t : Tableau F) : Prop where
  rowCount_eq : t.matrix.rowCount = t.rowCount + 1
  columns_pos : 0 < t.matrix.columns
  rectangular : t.matrix.Rectangular
  artificials_le : t.artificials ≤ t.columnCount
  nodup : t.basis.Nodup
  basis_lt : ∀ j ∈ t.basis, j < t.columnCount
  marks_length : t.marks.length = t.matrix.columns
  isMarked_iff : ∀ j, t.isMarked j = true ↔ j ∈ t.basis

/-- The variable that is basic in a constraint row. -/
def basic (t : Tableau F) (i : Nat) : Nat := t.basis.getD i 0

variable {t : Tableau F} {i j : Nat}

theorem basis_getElem?_eq (hi : i < t.rowCount) : t.basis[i]? = some (t.basic i) := by
  have h : i < t.basis.length := hi
  simp [basic, List.getD_eq_getElem?_getD, h]

theorem basic?_eq (hi : i < t.rowCount) : t.basic? i = some (t.basic i) := basis_getElem?_eq hi

theorem basic_mem (hi : i < t.rowCount) : t.basic i ∈ t.basis :=
  List.mem_of_getElem? (basis_getElem?_eq hi)

theorem mem_basis_iff : j ∈ t.basis ↔ ∃ i < t.rowCount, t.basic i = j := by
  constructor
  · intro h
    obtain ⟨i, hi, rfl⟩ := List.getElem_of_mem h
    refine ⟨i, hi, ?_⟩
    have hget := basis_getElem?_eq (t := t) hi
    rwa [List.getElem?_eq_getElem hi, Option.some.injEq, eq_comm] at hget
  · rintro ⟨i, hi, rfl⟩
    exact basic_mem hi

theorem structuralCount_le : t.structuralCount ≤ t.columnCount := Nat.sub_le _ _

theorem not_isArtificial_iff : ¬ t.IsArtificial j ↔ j < t.structuralCount := Nat.not_le

/-- Without basic artificial variables, all basic variables are structural. -/
theorem structural_of_hasArtificialBasic (h : ¬ t.hasArtificialBasic = true)
    (hi : i < t.rowCount) : t.basic i < t.structuralCount := by
  refine not_isArtificial_iff.1 fun hart => h ?_
  rw [hasArtificialBasic, List.any_eq_true]
  exact ⟨_, basic_mem hi, decide_eq_true hart⟩

namespace Aligned

theorem columns_eq (h : t.Aligned) : t.matrix.columns = t.columnCount + 1 :=
  (Nat.sub_add_cancel h.columns_pos).symm

theorem tail_getElem? (h : t.Aligned) (hi : i < t.rowCount) :
    t.matrix.rows.tail[i]? = some (t.matrix.rows.getD (i + 1) []) := by
  rw [List.getElem?_tail]
  exact RowMatrix.rows_getElem?_eq (by have := h.rowCount_eq; omega)

theorem length_tail (h : t.Aligned) : t.matrix.rows.tail.length = t.rowCount := by
  rw [List.length_tail]
  exact (congrArg (· - 1) h.rowCount_eq).trans (Nat.add_sub_cancel _ _)

end Aligned

namespace WellFormed

theorem aligned (h : t.WellFormed) : t.Aligned := ⟨h.rowCount_eq, h.columns_pos, h.rectangular⟩

theorem columns_eq (h : t.WellFormed) : t.matrix.columns = t.columnCount + 1 :=
  h.aligned.columns_eq

theorem basic_lt (h : t.WellFormed) (hi : i < t.rowCount) : t.basic i < t.columnCount :=
  h.basis_lt _ (basic_mem hi)

theorem basic_inj (h : t.WellFormed) {k : Nat} (hi : i < t.rowCount) (hk : k < t.rowCount) :
    t.basic i = t.basic k ↔ i = k := by
  constructor
  · intro heq
    refine (List.getElem?_inj (l := t.basis) hi h.nodup).1 ?_
    rw [basis_getElem?_eq hi, basis_getElem?_eq hk, heq]
  · rintro rfl
    rfl

theorem mem_openColumns_iff (h : t.WellFormed) :
    j ∈ t.openColumns ↔ j < t.structuralCount ∧ j ∉ t.basis := by
  rw [openColumns, List.mem_filter, List.mem_range, ← h.isMarked_iff, Bool.not_eq_true',
    Bool.not_eq_true]

theorem tail_getElem? (h : t.WellFormed) (hi : i < t.rowCount) :
    t.matrix.rows.tail[i]? = some (t.matrix.rows.getD (i + 1) []) :=
  h.aligned.tail_getElem? hi

theorem length_tail (h : t.WellFormed) : t.matrix.rows.tail.length = t.rowCount :=
  h.aligned.length_tail

end WellFormed

/-! ## Reading -/

section Reading

variable [Scalar F]

/-- The relative cost of a column. -/
def relativeCost (t : Tableau F) (j : Nat) : F := t.matrix.entry 0 j

/-- The entry of a constraint row in a column. -/
def entry (t : Tableau F) (i j : Nat) : F := t.matrix.entry (i + 1) j

/-- The right-hand side of a constraint row. -/
def value (t : Tableau F) (i : Nat) : F := t.entry i t.columnCount

/-- The objective at the basic solution. -/
def objective (t : Tableau F) : F := -t.relativeCost t.columnCount

namespace Aligned

theorem relativeCost?_eq (h : t.Aligned) (hj : j ≤ t.columnCount) :
    t.relativeCost? j = some (t.relativeCost j) :=
  h.rectangular.entry?_eq (by have := h.rowCount_eq; omega) (by have := h.columns_eq; omega)

theorem entry?_eq (h : t.Aligned) (hi : i < t.rowCount) (hj : j ≤ t.columnCount) :
    t.entry? i j = some (t.entry i j) :=
  h.rectangular.entry?_eq (by have := h.rowCount_eq; omega) (by have := h.columns_eq; omega)

theorem value?_eq (h : t.Aligned) (hi : i < t.rowCount) : t.value? i = some (t.value i) :=
  h.entry?_eq hi le_rfl

theorem column?_eq (h : t.Aligned) (hj : j ≤ t.columnCount) :
    t.column? j = some ((List.range t.rowCount).map (t.entry · j)) := by
  have hmap : t.column? j = some (t.matrix.rows.tail.map (coeff · j)) := by
    refine mapM_eq_some_map fun row hrow => getElem?_eq_coeff ?_
    rw [h.rectangular row (List.mem_of_mem_tail hrow), h.columns_eq]
    omega
  rw [hmap, Option.some.injEq]
  apply ext_of_lt ((List.length_map _).trans h.length_tail)
    ((List.length_map _).trans List.length_range)
  intro i hi
  rw [List.getElem?_map, List.getElem?_map, h.tail_getElem? hi, List.getElem?_range hi]
  rfl

end Aligned

namespace WellFormed

theorem relativeCost?_eq (h : t.WellFormed) (hj : j ≤ t.columnCount) :
    t.relativeCost? j = some (t.relativeCost j) :=
  h.aligned.relativeCost?_eq hj

theorem entry?_eq (h : t.WellFormed) (hi : i < t.rowCount) (hj : j ≤ t.columnCount) :
    t.entry? i j = some (t.entry i j) :=
  h.aligned.entry?_eq hi hj

theorem value?_eq (h : t.WellFormed) (hi : i < t.rowCount) : t.value? i = some (t.value i) :=
  h.aligned.value?_eq hi

theorem objective?_eq (h : t.WellFormed) : t.objective? = some t.objective := by
  have hread := h.relativeCost?_eq le_rfl
  rw [relativeCost?] at hread
  rw [objective?, hread]
  rfl

theorem column?_eq (h : t.WellFormed) (hj : j ≤ t.columnCount) :
    t.column? j = some ((List.range t.rowCount).map (t.entry · j)) :=
  h.aligned.column?_eq hj

theorem column?_getElem? (h : t.WellFormed) (hj : j ≤ t.columnCount) {column : List F}
    (hcolumn : t.column? j = some column) (hi : i < t.rowCount) :
    column[i]? = some (t.entry i j) := by
  rw [h.column?_eq hj, Option.some.injEq] at hcolumn
  rw [← hcolumn, List.getElem?_map, List.getElem?_range hi, Option.map_some]

end WellFormed

end Reading

/-! ## Changing the basis -/

section BringIn

variable [Scalar F] {entering row : Nat}

/-- The tableau in which a column is basic in a row; the value of `bringIn?` at a column and a
constraint row of the tableau. -/
def bringIn (t : Tableau F) (entering row : Nat) : Tableau F :=
  { t with
    matrix := t.matrix.pivot (row + 1) entering
    basis := t.basis.set row entering
    marks := (t.marks.set (t.basic row) false).set entering true }

@[simp]
theorem bringIn_basis : (t.bringIn entering row).basis = t.basis.set row entering := rfl

@[simp]
theorem bringIn_rowCount : (t.bringIn entering row).rowCount = t.rowCount := by
  rw [rowCount, bringIn_basis, List.length_set, rowCount]

@[simp]
theorem bringIn_columnCount : (t.bringIn entering row).columnCount = t.columnCount := rfl

@[simp]
theorem bringIn_artificials : (t.bringIn entering row).artificials = t.artificials := rfl

@[simp]
theorem bringIn_structuralCount :
    (t.bringIn entering row).structuralCount = t.structuralCount := rfl

@[simp]
theorem bringIn_isArtificial_iff :
    (t.bringIn entering row).IsArtificial j ↔ t.IsArtificial j := Iff.rfl

theorem basic_bringIn_self (hrow : row < t.rowCount) :
    (t.bringIn entering row).basic row = entering := by
  rw [basic, bringIn_basis, List.getD_eq_getElem?_getD, List.getElem?_set_self hrow,
    Option.getD_some]

theorem basic_bringIn_of_ne (hi : i ≠ row) : (t.bringIn entering row).basic i = t.basic i := by
  rw [basic, bringIn_basis, List.getD_eq_getElem?_getD, List.getElem?_set_ne hi.symm, basic,
    List.getD_eq_getElem?_getD]

/-- The column that was basic in the row leaves, and the entering column takes its place. -/
theorem basis_of_bringIn? {t' : Tableau F} {leaving : Nat}
    (h : t.bringIn? entering row = some (leaving, t')) :
    t.basis[row]? = some leaving ∧ t'.basis = t.basis.set row entering := by
  rw [bringIn?] at h
  obtain ⟨matrix, -, h⟩ := Option.bind_eq_some_iff.1 h
  obtain ⟨basic, hbasic, h⟩ := Option.bind_eq_some_iff.1 h
  cases Option.some.inj h
  exact ⟨hbasic, rfl⟩

theorem Aligned.bringIn?_eq (h : t.Aligned) (hentering : entering < t.columnCount)
    (hrow : row < t.rowCount) :
    t.bringIn? entering row = some (t.basic row, t.bringIn entering row) := by
  have hpivot : t.matrix.pivot? (row + 1) entering = some (t.matrix.pivot (row + 1) entering) :=
    h.rectangular.pivot?_eq (by have := h.rowCount_eq; omega) (by have := h.columns_eq; omega)
  unfold bringIn?
  rw [hpivot, basis_getElem?_eq hrow]
  rfl

theorem Aligned.bringIn (h : t.Aligned) (hrow : row < t.rowCount) :
    (t.bringIn entering row).Aligned where
  rowCount_eq := by
    rw [bringIn_rowCount, ← h.rowCount_eq]
    exact RowMatrix.pivot_rowCount
  columns_pos := h.columns_pos
  rectangular := h.rectangular.pivot (by have := h.rowCount_eq; omega)

namespace WellFormed

theorem bringIn?_eq (h : t.WellFormed) (hentering : entering < t.columnCount)
    (hrow : row < t.rowCount) :
    t.bringIn? entering row = some (t.basic row, t.bringIn entering row) :=
  h.aligned.bringIn?_eq hentering hrow

theorem mem_basis_bringIn_iff (h : t.WellFormed) (hrow : row < t.rowCount) :
    j ∈ (t.bringIn entering row).basis ↔ j = entering ∨ (j ∈ t.basis ∧ j ≠ t.basic row) :=
  mem_set_iff h.nodup (basis_getElem?_eq hrow) j

theorem isMarked_bringIn_iff (h : t.WellFormed) (hentering : entering < t.columnCount)
    (hrow : row < t.rowCount) :
    (t.bringIn entering row).isMarked j = true ↔
      j = entering ∨ (j ∈ t.basis ∧ j ≠ t.basic row) := by
  have hlen : entering < (t.marks.set (t.basic row) false).length := by
    rw [List.length_set, h.marks_length, h.columns_eq]
    omega
  have hleaving : t.basic row < t.marks.length := by
    rw [h.marks_length, h.columns_eq]
    exact (h.basic_lt hrow).trans (Nat.lt_succ_self _)
  rw [← h.isMarked_iff]
  -- The entering column is marked last, so its mark stays whatever was wiped out before.
  simp only [isMarked, SimplexMethod.Tableau.bringIn, List.getD_eq_getElem?_getD]
  rcases eq_or_ne entering j with rfl | hne
  · simp [List.getElem?_set_self hlen]
  · rw [List.getElem?_set_ne hne]
    rcases eq_or_ne (t.basic row) j with rfl | hother
    · simp [List.getElem?_set_self hleaving, hne.symm]
    · simp [List.getElem?_set_ne hother, hne.symm, hother.symm]

/-- Bringing in a column that is not basic keeps a tableau well formed. -/
theorem bringIn (h : t.WellFormed) (hentering : entering < t.columnCount)
    (hnew : entering ∉ t.basis) (hrow : row < t.rowCount) :
    (t.bringIn entering row).WellFormed where
  rowCount_eq := (h.aligned.bringIn hrow).rowCount_eq
  columns_pos := h.columns_pos
  rectangular := (h.aligned.bringIn hrow).rectangular
  artificials_le := h.artificials_le
  nodup := h.nodup.set hnew
  basis_lt := by
    intro j hj
    rcases (h.mem_basis_bringIn_iff hrow).1 hj with rfl | ⟨hj, -⟩
    · exact hentering
    · exact h.basis_lt j hj
  marks_length := by
    show ((t.marks.set _ _).set _ _).length = _
    rw [List.length_set, List.length_set, h.marks_length]
    rfl
  isMarked_iff := by
    intro j
    rw [h.isMarked_bringIn_iff hentering hrow, h.mem_basis_bringIn_iff hrow]

end WellFormed

end BringIn

/-! ## Equality -/

section Equality

variable {t' : Tableau F}

/-- The marks of a tableau are those of its basis. -/
theorem WellFormed.marks_eq (h : t.WellFormed) (h' : t'.WellFormed) (hbasis : t'.basis = t.basis)
    (hcolumns : t'.matrix.columns = t.matrix.columns) : t'.marks = t.marks := by
  apply ext_of_lt (h'.marks_length.trans hcolumns) h.marks_length
  intro j hj
  have hmarked : t'.isMarked j = t.isMarked j := by
    rw [Bool.eq_iff_iff, h'.isMarked_iff, h.isMarked_iff, hbasis]
  have hj' : j < t'.marks.length := by rwa [h'.marks_length, hcolumns]
  rw [← h.marks_length] at hj
  rw [isMarked, isMarked, List.getD_eq_getElem?_getD, List.getD_eq_getElem?_getD,
    List.getElem?_eq_getElem hj', List.getElem?_eq_getElem hj] at hmarked
  rw [List.getElem?_eq_getElem hj', List.getElem?_eq_getElem hj]
  exact congrArg some hmarked

/-- Tableaus of the same size are equal when their bases and their entries are. -/
theorem WellFormed.ext [Scalar F] (h : t.WellFormed) (h' : t'.WellFormed)
    (hbasis : t'.basis = t.basis) (hcolumns : t'.columnCount = t.columnCount)
    (hartificials : t'.artificials = t.artificials)
    (hcost : ∀ j ≤ t.columnCount, t'.relativeCost j = t.relativeCost j)
    (hentry : ∀ i < t.rowCount, ∀ j ≤ t.columnCount, t'.entry i j = t.entry i j) : t' = t := by
  have hrows : t'.rowCount = t.rowCount := congrArg List.length hbasis
  have hmatrixColumns : t'.matrix.columns = t.matrix.columns := by
    rw [h'.columns_eq, h.columns_eq, hcolumns]
  have hmatrix : t'.matrix = t.matrix := by
    refine h'.rectangular.ext h.rectangular ?_ hmatrixColumns fun i hi j hj => ?_
    · rw [h'.rowCount_eq, h.rowCount_eq, hrows]
    · rw [h'.rowCount_eq, hrows] at hi
      rw [h'.columns_eq, hcolumns] at hj
      -- Row 0 holds the relative costs, and constraint row `i` is one further down.
      cases i with
      | zero => exact hcost j (Nat.lt_succ_iff.1 hj)
      | succ i => exact hentry i (Nat.succ_lt_succ_iff.1 hi) j (Nat.lt_succ_iff.1 hj)
  have hmarks := h.marks_eq h' hbasis hmatrixColumns
  cases t
  cases t'
  cases hmatrix
  cases hbasis
  cases hmarks
  cases hartificials
  rfl

end Equality

/-! ## Sizes -/

/-- The tableau is well formed and has the given numbers of constraint rows, of columns and of
artificial variables. -/
structure Shaped (t : Tableau F) (rows columns artificials : Nat) : Prop where
  wellFormed : t.WellFormed
  rowCount_eq : t.rowCount = rows
  columnCount_eq : t.columnCount = columns
  artificials_eq : t.artificials = artificials

theorem WellFormed.shaped (h : t.WellFormed) : t.Shaped t.rowCount t.columnCount t.artificials :=
  ⟨h, rfl, rfl, rfl⟩

namespace Shaped

variable {rows columns artificials : Nat}

theorem structuralCount_eq (h : t.Shaped rows columns artificials) :
    t.structuralCount = columns - artificials := by
  rw [structuralCount, h.columnCount_eq, h.artificials_eq]

theorem bringIn [Scalar F] {entering row : Nat} (h : t.Shaped rows columns artificials)
    (hentering : entering < t.structuralCount) (hnew : entering ∉ t.basis)
    (hrow : row < t.rowCount) : (t.bringIn entering row).Shaped rows columns artificials where
  wellFormed := h.wellFormed.bringIn (hentering.trans_le structuralCount_le) hnew hrow
  rowCount_eq := bringIn_rowCount.trans h.rowCount_eq
  columnCount_eq := h.columnCount_eq
  artificials_eq := h.artificials_eq

end Shaped

/-! ## Making tableaus -/

/-- A tableau made from a matrix and a list of distinct columns of it is well formed. -/
theorem wellFormed_ofBasis {matrix : RowMatrix F} {basis : List Nat} {artificials : Nat}
    (hrows : matrix.rowCount = basis.length + 1) (hrect : matrix.Rectangular)
    (hcolumns : 0 < matrix.columns) (hart : artificials ≤ matrix.columns - 1)
    (hnodup : basis.Nodup) (hlt : ∀ j ∈ basis, j < matrix.columns - 1) :
    (ofBasis matrix basis artificials).WellFormed where
  rowCount_eq := hrows
  columns_pos := hcolumns
  rectangular := hrect
  artificials_le := hart
  nodup := hnodup
  basis_lt := hlt
  marks_length := by
    show ((List.range matrix.columns).map _).length = _
    rw [List.length_map, List.length_range]
    rfl
  isMarked_iff := by
    intro j
    show ((List.range matrix.columns).map fun j => decide (j ∈ basis)).getD j false = true ↔ _
    rw [List.getD_eq_getElem?_getD, List.getElem?_map]
    rcases lt_or_ge j matrix.columns with hj | hj
    · simp [List.getElem?_range hj, ofBasis]
    · have hnot : j ∉ basis := fun hmem => by
        have := hlt j hmem
        omega
      simp [List.getElem?_eq_none (List.length_range.trans_le hj), ofBasis, hnot]

end Tableau

end SimplexMethod
