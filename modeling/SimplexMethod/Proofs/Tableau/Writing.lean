import Mathlib.Tactic
import SimplexMethod.Proofs.Tableau.Artificial

/-!
# Writing the artificial problem

The tableau of the artificial problem is written into zeros, entry by entry. Whatever the scalars
are, every position that is read or written exists, and what comes out is the tableau in blocks
(`Problem.artificialTableau?_eq`). A constraint writes all entries of its row but the zeros of the
other artificial variables (`of_mem_constraintEntries`, `exists_mem_constraintEntries`), and the
costs are read off the columns that the constraints have written (`columnCost?_eq`).
-/

set_option autoImplicit false

namespace SimplexMethod

namespace Problem

variable {F : Type} [Scalar F] {p : Problem F} {i j : Nat}

/-- The matrix of the artificial problem before the costs are written. -/
def costlessMatrix (p : Problem F) : RowMatrix F :=
  { rows := List.replicate (p.variableCount + p.constraintCount + 1) 0 :: p.artificialRows
    columns := p.variableCount + p.constraintCount + 1 }

theorem rectangular_costlessMatrix : p.costlessMatrix.Rectangular := by
  intro row hrow
  rcases List.mem_cons.1 hrow with rfl | hrow
  · exact List.length_replicate
  · exact length_of_mem_artificialRows hrow

theorem costlessMatrix_rowCount : p.costlessMatrix.rowCount = p.constraintCount + 1 :=
  congrArg (· + 1) length_artificialRows

theorem entry?_costlessMatrix_succ (hi : i < p.constraintCount) :
    p.costlessMatrix.entry? (i + 1) j = (p.artificialRow i)[j]? := by
  show (p.artificialRows[i]?.bind fun row => row[j]?) = _
  rw [artificialRows_getElem? hi, Option.bind_some]

theorem getElem?_artificialRow (hi : i < p.constraintCount)
    (hj : j < p.variableCount + p.constraintCount + 1) :
    (p.artificialRow i)[j]? = some (p.artificialTableau.entry i j) := by
  rw [artificialTableau_entry_eq hi, getElem?_eq_coeff (by rwa [length_artificialRow hi])]

/-! ## The constraints -/

/-- The entries that a constraint writes. -/
def constraintEntries (p : Problem F) (i : Nat) : List (Nat × Nat × F) :=
  ((p.constraints.rows.getD i []).zipIdx.map fun (entry, j) =>
      (i + 1, j, signFor (coeff p.values i) * entry)) ++
    [(i + 1, p.variableCount + i, 1),
      (i + 1, p.variableCount + p.constraintCount, p.signedValue i)]

theorem constraintEntries?_eq (hi : i < p.constraintCount) :
    p.constraintEntries? i (coeff p.values i) = some (p.constraintEntries i) := by
  rw [constraintEntries?, RowMatrix.row?, RowMatrix.rows_getElem?_eq hi]
  rfl

/-- They are entries of its row. -/
theorem of_mem_constraintEntries (hi : i < p.constraintCount) {k : Nat} {value : F}
    (hmem : (k, j, value) ∈ p.constraintEntries i) :
    k = i + 1 ∧ (p.artificialRow i)[j]? = some value := by
  rcases List.mem_append.1 hmem with hmem | hmem
  · -- An entry of the constraint itself.
    obtain ⟨⟨entry, l⟩, hentry, heq⟩ := List.mem_map.1 hmem
    cases heq
    have hread := List.mem_zipIdx_iff_getElem?.1 hentry
    have hj := (List.getElem?_eq_some_iff.1 hread).1
    rw [p.length_constraintRow hi] at hj
    rw [getElem?_artificialRow hi (by omega), artificialTableau_entry_structural hi hj,
      RowMatrix.entry, coeff_of_getElem? hread]
    exact ⟨rfl, rfl⟩
  · -- The one of its artificial variable, or its value.
    rcases List.mem_cons.1 hmem with heq | hmem
    · cases heq
      rw [getElem?_artificialRow hi (by omega), artificialTableau_entry_artificial hi hi,
        if_pos rfl]
      exact ⟨rfl, rfl⟩
    · cases List.mem_singleton.1 hmem
      have hvalue := artificialTableau_value hi
      rw [Tableau.value, artificialTableau_columnCount] at hvalue
      rw [getElem?_artificialRow hi (by omega), hvalue]
      exact ⟨rfl, rfl⟩

/-- They are all entries of its row but those of the other artificial variables. -/
theorem exists_mem_constraintEntries (hi : i < p.constraintCount)
    (hj : j < p.variableCount + p.constraintCount + 1)
    (hother : ∀ k < p.constraintCount, k ≠ i → j ≠ p.variableCount + k) :
    ∃ value, (i + 1, j, value) ∈ p.constraintEntries i := by
  rcases Nat.lt_or_ge j p.variableCount with hstructural | hge
  · have hread := getElem?_eq_coeff ((p.length_constraintRow hi).symm ▸ hstructural)
    exact ⟨_, List.mem_append_left _
      (List.mem_map.2 ⟨(_, j), List.mem_zipIdx_iff_getElem?.2 hread, rfl⟩)⟩
  · obtain ⟨k, rfl⟩ := Nat.exists_eq_add_of_le hge
    rcases Nat.lt_or_ge k p.constraintCount with hk | hlast
    · obtain rfl : k = i := by
        by_contra hne
        exact hother k hk hne rfl
      exact ⟨_, List.mem_append_right _ List.mem_cons_self⟩
    · obtain rfl : k = p.constraintCount := by omega
      exact ⟨_, List.mem_append_right _ (List.mem_cons_of_mem _ List.mem_cons_self)⟩

/-- The entries of a row that its constraint does not write are zero. -/
theorem getElem?_artificialRow_of_notMem (hi : i < p.constraintCount)
    (hnot : ∀ value, (i + 1, j, value) ∉ p.constraintEntries i) :
    (p.artificialRow i)[j]? =
      (List.replicate (p.variableCount + p.constraintCount + 1) (0 : F))[j]? := by
  rcases Nat.lt_or_ge j (p.variableCount + p.constraintCount + 1) with hj | hj
  · obtain ⟨k, hk, hne, rfl⟩ : ∃ k < p.constraintCount, k ≠ i ∧ j = p.variableCount + k := by
      by_contra hnone
      push Not at hnone
      obtain ⟨value, hmem⟩ := exists_mem_constraintEntries hi hj hnone
      exact hnot value hmem
    rw [getElem?_artificialRow hi hj, artificialTableau_entry_artificial hi hk, if_neg hne,
      List.getElem?_replicate_of_lt hj]
  · rw [List.getElem?_eq_none (by rwa [length_artificialRow hi]),
      List.getElem?_eq_none (by rwa [List.length_replicate])]

/-- The entries that all constraints write. -/
theorem mapM_constraintEntries? (p : Problem F) :
    (p.values.zipIdx.mapM fun (value, i) => p.constraintEntries? i value) =
      some ((List.range p.constraintCount).map p.constraintEntries) := by
  rw [mapM_eq_some_iff, List.map_map]
  apply ext_of_lt (n := p.constraintCount)
  · rw [List.length_map, List.length_zipIdx]
    exact p.values_length
  · rw [List.length_map, List.length_range]
  · intro i hi
    have hvalue : p.values[i]? = some (coeff p.values i) :=
      getElem?_eq_coeff (p.values_length.symm ▸ hi)
    rw [List.getElem?_map, List.getElem?_zipIdx, hvalue, List.getElem?_map, List.getElem?_range hi]
    simp [constraintEntries?_eq hi]

/-- The constraints are written in full. -/
theorem setEntries?_constraints (p : Problem F) :
    (RowMatrix.zeros (p.constraintCount + 1)
        (p.variableCount + p.constraintCount + 1) : RowMatrix F).setEntries?
      ((List.range p.constraintCount).map p.constraintEntries).flatten =
        some p.costlessMatrix := by
  refine RowMatrix.rectangular_zeros.setEntries?_eq (rectangular_costlessMatrix (p := p)) ?_ rfl
    ?_ ?_
  · rw [costlessMatrix_rowCount]
    exact List.length_replicate
  · intro k j value hmem
    obtain ⟨written, hwritten, hmem⟩ := List.mem_flatten.1 hmem
    obtain ⟨i, hi, rfl⟩ := List.mem_map.1 hwritten
    rw [List.mem_range] at hi
    obtain ⟨rfl, hread⟩ := of_mem_constraintEntries hi hmem
    rw [entry?_costlessMatrix_succ hi, hread]
  · -- Nothing is written to the row of the costs, and it is zero in both matrices.
    intro k j hnot
    rcases k with _ | i
    · rfl
    rcases Nat.lt_or_ge i p.constraintCount with hi | hi
    · rw [RowMatrix.entry?_zeros (Nat.succ_lt_succ hi), entry?_costlessMatrix_succ hi,
        getElem?_artificialRow_of_notMem hi fun value hmem => hnot value (List.mem_flatten.2
          ⟨_, List.mem_map.2 ⟨i, List.mem_range.2 hi, rfl⟩, hmem⟩)]
    · rw [RowMatrix.entry?_eq_none (List.length_replicate.trans_le (Nat.succ_le_succ hi)),
        RowMatrix.entry?_eq_none (costlessMatrix_rowCount.trans_le (Nat.succ_le_succ hi))]

/-! ## The costs -/

/-- The sum of a column can be read off the constraints. -/
theorem columnCost?_eq (hj : j < p.variableCount + p.constraintCount + 1) :
    p.columnCost? p.costlessMatrix j =
      some (-Scalar.sum (p.artificialRows.map (coeff · j))) := by
  have hcolumn : (List.range' 1 p.constraintCount).mapM (fun i => p.costlessMatrix.entry? i j) =
      some (p.artificialRows.map (coeff · j)) := by
    rw [mapM_eq_some_iff, List.map_map]
    apply ext_of_lt (n := p.constraintCount) (by simp) (by simp [length_artificialRows])
    intro i hi
    have hread := entry?_costlessMatrix_succ (p := p) (j := j) hi
    rw [getElem?_eq_coeff (by rwa [length_artificialRow hi]), Nat.add_comm] at hread
    rw [List.getElem?_map, List.getElem?_range' hi, List.getElem?_map, artificialRows_getElem? hi,
      Option.map_some, Option.map_some, Nat.one_mul, hread]
    rfl
  rw [columnCost?, hcolumn]
  rfl

/-- The entries of the cost row that are written. -/
def costEntries (p : Problem F) : List (Nat × Nat × F) :=
  (List.range p.variableCount ++ [p.variableCount + p.constraintCount]).map
      (fun j => (0, j, p.artificialTableau.relativeCost j)) ++
    (List.range' p.variableCount p.constraintCount).map fun j => (0, j, 1)

/-- They are all relative costs. -/
theorem mem_costEntries_iff {k : Nat} {value : F} :
    (k, j, value) ∈ p.costEntries ↔ k = 0 ∧ j < p.variableCount + p.constraintCount + 1 ∧
      value = p.artificialTableau.relativeCost j := by
  constructor
  · intro hmem
    rcases List.mem_append.1 hmem with hmem | hmem
    · obtain ⟨l, hl, heq⟩ := List.mem_map.1 hmem
      cases heq
      refine ⟨rfl, ?_, rfl⟩
      rcases List.mem_append.1 hl with hl | hl
      · rw [List.mem_range] at hl
        omega
      · cases List.mem_singleton.1 hl
        omega
    · obtain ⟨l, hl, heq⟩ := List.mem_map.1 hmem
      cases heq
      obtain ⟨hge, hlt⟩ := List.mem_range'_1.1 hl
      obtain ⟨k, rfl⟩ := Nat.exists_eq_add_of_le hge
      exact ⟨rfl, by omega, (artificialTableau_relativeCost_artificial (by omega)).symm⟩
  · rintro ⟨rfl, hj, rfl⟩
    by_cases hartificial : p.variableCount ≤ j ∧ j < p.variableCount + p.constraintCount
    · obtain ⟨k, rfl⟩ := Nat.exists_eq_add_of_le hartificial.1
      rw [artificialTableau_relativeCost_artificial (by omega)]
      exact List.mem_append_right _
        (List.mem_map.2 ⟨_, List.mem_range'_1.2 hartificial, rfl⟩)
    · refine List.mem_append_left _ (List.mem_map.2 ⟨j, ?_, rfl⟩)
      rw [List.mem_append, List.mem_range, List.mem_singleton]
      omega

/-- The costs are written in full. -/
theorem setEntries?_costs (p : Problem F) :
    p.costlessMatrix.setEntries? p.costEntries = some p.artificialTableau.matrix := by
  have hwell := wellFormed_artificialTableau (p := p)
  refine rectangular_costlessMatrix.setEntries?_eq hwell.aligned.rectangular rfl rfl ?_ ?_
  · intro k j value hmem
    obtain ⟨rfl, hj, rfl⟩ := mem_costEntries_iff.1 hmem
    exact hwell.relativeCost?_eq (Nat.le_of_lt_succ hj)
  · intro k j hnot
    rcases k with _ | i
    · have hj : p.variableCount + p.constraintCount + 1 ≤ j := by
        by_contra hlt
        exact hnot _ (mem_costEntries_iff.2 ⟨rfl, not_le.1 hlt, rfl⟩)
      show (List.replicate _ (0 : F))[j]? = p.artificialCosts[j]?
      rw [List.getElem?_eq_none (by rwa [List.length_replicate]),
        List.getElem?_eq_none (by rwa [length_artificialCosts])]
    · rfl

/-- The tableau that is written is the one in blocks. -/
theorem artificialTableau?_eq (p : Problem F) :
    p.artificialTableau? = some p.artificialTableau := by
  have hcosts : (List.range p.variableCount ++
        [p.variableCount + p.constraintCount]).mapM (fun j => do
          return (0, j, ← p.columnCost? p.costlessMatrix j)) =
      some ((List.range p.variableCount ++ [p.variableCount + p.constraintCount]).map
        fun j => (0, j, p.artificialTableau.relativeCost j)) := by
    refine mapM_eq_some_map fun j hj => ?_
    rcases List.mem_append.1 hj with hj | hj
    · rw [List.mem_range] at hj
      rw [columnCost?_eq (by omega), artificialTableau_relativeCost_structural hj]
      rfl
    · cases List.mem_singleton.1 hj
      rw [columnCost?_eq (Nat.lt_succ_self _), artificialTableau_relativeCost_last]
      rfl
  -- The four passes one after the other; each reads what the one before has written.
  exact Option.bind_eq_some_iff.2 ⟨_, p.mapM_constraintEntries?,
    Option.bind_eq_some_iff.2 ⟨_, p.setEntries?_constraints,
      Option.bind_eq_some_iff.2 ⟨_, hcosts,
        Option.bind_eq_some_iff.2 ⟨_, p.setEntries?_costs, rfl⟩⟩⟩⟩

end Problem

end SimplexMethod
