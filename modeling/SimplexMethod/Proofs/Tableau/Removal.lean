import SimplexMethod.Proofs.Tableau.Costs
import SimplexMethod.Tableau.WordRow

/-!
# Rows that are left out

Redundant constraint rows are left out of the matrix at the positions one after their places in the
basis. Both removals leave the same places (`RowMatrix.remains_removeRows`): the row of the costs
stays the first one, and each constraint row that is left keeps its basic variable, its entries and
its value (`Tableau.keepsRows_of_withCosts?`). None of this depends on what the scalars are, or on
whether the basic columns are unit columns.

In words the position after the largest one is that of the costs, but the places of a basis that a
word can count do not get there (`removePositions_aligned`).
-/

set_option autoImplicit false

namespace SimplexMethod

variable {F : Type} {positions places : List Nat}

namespace RowMatrix

variable {α : Type} {m selected : RowMatrix F} {elements left : List α}

/-- Where a list has one element for each row below the first one, the rows of the elements that are
left are left too, and so is the first row. -/
theorem remains_removeRows (h : Remains positions places elements left)
    (hsorted : positions.Pairwise (· < ·)) (hcount : m.rowCount = elements.length + 1) :
    Remains (positions.map (· + 1)) (0 :: places.map (· + 1)) m.rows
      (m.removeRows (positions.map (· + 1))).rows := by
  obtain ⟨first, rest, hrows⟩ := List.exists_cons_of_length_eq_add_one hcount
  have hlength : rest.length = elements.length := by
    rw [rowCount, hrows, List.length_cons] at hcount
    exact Nat.succ.inj hcount
  -- The places depend on the number of the elements alone.
  have hrest := remains_removePositions hsorted rest
  rw [hlength, ← h.places_eq] at hrest
  rw [removeRows, hrows, removePositions_map_succ hsorted]
  exact hrest.shift first

/-- An entry of the selected columns is one of the matrix. -/
theorem entry?_of_selectColumns? (h : m.selectColumns? positions = some selected) (i j : Nat) :
    selected.entry? i j = positions[j]?.bind (m.entry? i) := by
  obtain ⟨rows, hrows, hselected⟩ := Option.bind_eq_some_iff.1 h
  cases Option.some.inj hselected
  have hrow := map_getElem?_of_mapM hrows i
  show (rows[i]?.bind fun row => row[j]?) =
    positions[j]?.bind fun column => m.rows[i]?.bind fun row => row[column]?
  cases hm : m.rows[i]? with
  | none =>
    rw [hm, Option.map_none, eq_comm, Option.map_eq_none_iff] at hrow
    simp [hrow]
  | some row =>
    rw [hm, Option.map_some, eq_comm] at hrow
    obtain ⟨picked, hpicked, hpick⟩ := Option.map_eq_some_iff.1 hrow
    rw [hpicked, Option.bind_some, getElem?_of_mapM hpick.symm j]
    rfl

theorem rowCount_of_selectColumns? (h : m.selectColumns? positions = some selected) :
    selected.rowCount = m.rowCount := by
  obtain ⟨rows, hrows, hselected⟩ := Option.bind_eq_some_iff.1 h
  cases Option.some.inj hselected
  exact length_of_mapM hrows

theorem columns_of_selectColumns? (h : m.selectColumns? positions = some selected) :
    selected.columns = positions.length := by
  obtain ⟨rows, -, hselected⟩ := Option.bind_eq_some_iff.1 h
  cases Option.some.inj hselected
  rfl

end RowMatrix

namespace Tableau

variable {t start : Tableau F}

/-- The constraint rows of `start` are those of `t` at some places, one for each place: they have
the same basic variables, the same entries in the structural columns and the same values. -/
structure KeepsRows (t start : Tableau F) (places : List Nat) : Prop where
  rowCount_eq : start.rowCount = places.length
  matrix_rowCount_eq : start.matrix.rowCount = places.length + 1
  columnCount_eq : start.columnCount = t.structuralCount
  basic?_eq (k : Nat) : start.basic? k = places[k]?.bind t.basic?
  entry?_eq (k : Nat) : ∀ j < t.structuralCount,
    start.entry? k j = places[k]?.bind fun i => t.entry? i j
  value?_eq (k : Nat) : start.value? k = places[k]?.bind t.value?

variable [Scalar F] {p : Problem F}

/-- Below the costs, the matrix that is read off has a row for each place that is left: what is
selected of the row one after the place. -/
theorem exists_rows_of_withCosts? (hplaces : Remains positions places t.basis start.basis)
    (hsorted : positions.Pairwise (· < ·)) (hcount : t.matrix.rowCount = t.rowCount + 1)
    (h : t.withCosts? positions p = some start) :
    ∃ selected,
      t.matrix.selectColumns? (List.range t.structuralCount ++ [t.columnCount]) = some selected ∧
      start.matrix.columns = selected.columns ∧ start.matrix.rowCount = places.length + 1 ∧
      ∀ k, start.matrix.rows[k + 1]? = places[k]?.bind fun i => selected.rows[i + 1]? := by
  obtain ⟨selected, costs, hselected, rfl⟩ := exists_selected_of_withCosts? h
  have hrows := RowMatrix.remains_removeRows (m := selected) hplaces hsorted
    ((RowMatrix.rowCount_of_selectColumns? hselected).trans hcount)
  refine ⟨selected, hselected, rfl, ?_, fun k => ?_⟩
  · show (selected.removeRows (positions.map (· + 1))).rows.tail.length + 1 = _
    rw [List.length_tail, hrows.length_eq, List.length_cons, List.length_map]
    rfl
  · show (selected.removeRows (positions.map (· + 1))).rows.tail[k]? = _
    rw [List.getElem?_tail, hrows.getElem?_eq, List.getElem?_cons_succ, List.getElem?_map,
      Option.bind_map]
    rfl

/-- Reading off the tableau of the program keeps the constraint rows that are left. -/
theorem keepsRows_of_withCosts? (hplaces : Remains positions places t.basis start.basis)
    (hsorted : positions.Pairwise (· < ·)) (hcount : t.matrix.rowCount = t.rowCount + 1)
    (h : t.withCosts? positions p = some start) : t.KeepsRows start places := by
  obtain ⟨selected, hselected, hcolumns, hrowCount, hrows⟩ :=
    exists_rows_of_withCosts? hplaces hsorted hcount h
  have hentry (k j : Nat) : start.entry? k j = places[k]?.bind fun i =>
      (List.range t.structuralCount ++ [t.columnCount])[j]?.bind fun l => t.entry? i l := by
    calc start.entry? k j = start.matrix.rows[k + 1]?.bind fun row => row[j]? := rfl
      _ = places[k]?.bind fun i => selected.entry? (i + 1) j := by
        rw [hrows, Option.bind_assoc]
        rfl
      _ = _ := by
        simp only [RowMatrix.entry?_of_selectColumns? hselected]
        rfl
  have hlast : start.columnCount = t.structuralCount := by
    rw [columnCount, hcolumns, RowMatrix.columns_of_selectColumns? hselected, List.length_append,
      List.length_range, List.length_singleton, Nat.add_sub_cancel]
  refine ⟨hplaces.length_eq, hrowCount, hlast, hplaces.getElem?_eq, fun k j hj => ?_, fun k => ?_⟩
  · rw [hentry, List.getElem?_append_left (by rwa [List.length_range]), List.getElem?_range hj]
    rfl
  · have hvalue := hentry k t.structuralCount
    rw [List.getElem?_append_right (by rw [List.length_range]), List.length_range, Nat.sub_self]
      at hvalue
    rw [value?, hlast]
    exact hvalue

end Tableau

/-- Let positions be given in strictly increasing order. Their removal leaves the elements of a list
at the other positions, in their order, and takes one element away for each position in range. When
they are removed from a basis and, one further, from the rows of its matrix, the first row stays and
the other rows that are left are those at the places that are left. So a tableau that is read off
has, row for row, the basic variables, the entries and the values from before. It is read off
whenever only structural variables are basic in the rows that are left, and it is the same when the
positions are words in the range of the basis. -/
theorem removePositions_aligned (hsorted : positions.Pairwise (· < ·)) :
    (∀ {α : Type} (elements : List α), ∃ places,
      Remains positions places elements (removePositions positions elements) ∧
        ((∀ i ∈ positions, i < elements.length) →
          positions.length + places.length = elements.length)) ∧
    (∀ {F : Type} (m : RowMatrix F) (basis : List Nat), m.rowCount = basis.length + 1 →
      ∃ places, Remains positions places basis (removePositions positions basis) ∧
        Remains (positions.map (· + 1)) (0 :: places.map (· + 1)) m.rows
          (m.removeRows (positions.map (· + 1))).rows) ∧
    ∀ {F : Type} [Scalar F] (t : Tableau F) (p : Problem F),
      (∀ start, t.matrix.rowCount = t.rowCount + 1 → t.withCosts? positions p = some start →
        ∃ places, Remains positions places t.basis start.basis ∧ t.KeepsRows start places) ∧
      (t.WellFormed → t.structuralCount = p.variableCount →
        (∀ i < t.rowCount, i ∉ positions → t.basic i < t.structuralCount) →
        ∃ start, t.withCosts? positions p = some start) ∧
      ∀ words : List UInt64, words.map UInt64.toNat = positions →
        (∀ i ∈ positions, i < t.rowCount) → t.rowCount < UInt64.size →
        t.withCostsAt? words p = t.withCosts? positions p := by
  refine ⟨fun elements => ?_, fun m basis hcount => ?_, fun t p => ⟨?_, ?_, ?_⟩⟩
  · have hremains := remains_removePositions hsorted elements
    exact ⟨_, hremains, hremains.length_add_length hsorted⟩
  · have hremains := remains_removePositions hsorted basis
    exact ⟨_, hremains, RowMatrix.remains_removeRows hremains hsorted hcount⟩
  · intro start hcount h
    have hremains := remains_removePositions hsorted t.basis
    rw [← Tableau.basis_of_withCosts? h] at hremains
    exact ⟨_, hremains, Tableau.keepsRows_of_withCosts? hremains hsorted hcount h⟩
  · intro hwell hsize hstructural
    exact ⟨_, hwell.withCosts?_eq hsize hsorted hstructural⟩
  · rintro words rfl hlt hsize
    apply t.withCostsAt?_eq p
    intro word hword
    exact (Nat.succ_le_of_lt (hlt _ (List.mem_map_of_mem hword))).trans_lt hsize

/-- A program whose first constraint is the sum of the second and the last one, and whose third and
fourth ones are multiples of these. -/
def summed : Problem ℚ where
  constraints := ⟨[[1, 1, 0], [1, 0, 1], [2, 0, 2], [0, 3, -3], [0, 1, -1]], 3⟩
  values := [4, 3, 6, 3, 1]
  minimizationCost := [1, 2, 3]
  direction := .minimize
  rows_ne_nil := List.cons_ne_nil _ _
  columns_pos := by decide
  rectangular := by simp [RowMatrix.Rectangular]
  values_length := rfl
  cost_length := rfl

/-- Its artificial problem after two pivots, with artificial variables in the redundant rows. -/
def summedTableau : Tableau ℚ :=
  .ofBasis ⟨[[0, 0, 0, 1, 5, 1, 1, 6, 0], [0, 0, 0, 1, -1, 0, 0, -1, 0],
    [1, 0, 1, 0, 1, 0, 0, 0, 3], [0, 0, 0, 0, -2, 1, 0, 0, 0], [0, 0, 0, 0, 0, 0, 1, -3, 0],
    [0, 1, -1, 0, 0, 0, 0, 1, 1]], 9⟩ [3, 0, 5, 6, 1] 5

/-- The first row and two adjacent ones are left out, and the last one is left. -/
theorem removePositions_aligned_summed :
    (summed.artificialTableau.bringIn? 0 1).bind (fun pivoted => pivoted.2.bringIn? 1 4) =
        some (7, summedTableau) ∧
      [0, 2, 3].Pairwise (· < ·) ∧
      Remains [0, 2, 3] [1, 4] [3, 0, 5, 6, 1] (removePositions [0, 2, 3] [3, 0, 5, 6, 1]) ∧
      Remains [1, 3, 4] [0, 2, 5] summedTableau.matrix.rows
        (summedTableau.matrix.removeRows [1, 3, 4]).rows ∧
      ∃ start, summedTableau.withCosts? [0, 2, 3] summed = some start ∧
        summedTableau.withCostsAt? [0, 2, 3] summed = some start ∧
        summedTableau.KeepsRows start [1, 4] := by
  have hsorted : [0, 2, 3].Pairwise (· < ·) := by decide
  obtain ⟨-, hmatrices, htableaus⟩ := removePositions_aligned hsorted
  obtain ⟨hkeeps, hreads, hwords⟩ := htableaus summedTableau summed
  obtain ⟨places, hbasis, hrows⟩ := hmatrices summedTableau.matrix summedTableau.basis rfl
  have hwell : summedTableau.WellFormed :=
    Tableau.wellFormed_ofBasis rfl (by simp [RowMatrix.Rectangular]) (by decide) (by decide)
      (by decide) (by decide)
  obtain ⟨start, hstart⟩ := hreads hwell rfl (by decide)
  obtain ⟨places', hbasis', hkept⟩ := hkeeps start rfl hstart
  have hwordStart := (hwords [0, 2, 3] rfl (by decide) (by decide)).trans hstart
  obtain rfl : places = [1, 4] := hbasis.places_eq.trans (by decide)
  obtain rfl : places' = [1, 4] := hbasis'.places_eq.trans (by decide)
  exact ⟨by decide +kernel, hsorted, hbasis, hrows, start, hstart, hwordStart, hkept⟩

end SimplexMethod
