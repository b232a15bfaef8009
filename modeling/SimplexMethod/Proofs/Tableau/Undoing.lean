import Mathlib.Tactic
import SimplexMethod.Proofs.Tableau.BasicFeasible

/-!
# Undoing a pivot

A pivot is undone by bringing the column that has left the basis back in, in the same row
(`SolvedForm.bringIn?_undone`). The basic variables are the same again, and so are all entries: the
column that comes back holds, after the first pivot, the very multiples that were taken off the
other rows, because it was a unit column before. For the row of the relative costs this needs that
the basic variable had no relative cost, so a tableau in which a variable with a cost is basic, as
artificial variables are, does not come back.
-/

set_option autoImplicit false

namespace SimplexMethod

namespace Tableau

variable {t : Tableau ℚ} {entering row j : Nat}

/-! ## Solved form -/

/-- A tableau without artificial variables that is solved for its basic variables: their columns
are those of an identity matrix, and they have no relative cost. -/
structure SolvedForm (t : Tableau ℚ) : Prop where
  wellFormed : t.WellFormed
  artificials_eq : t.artificials = 0
  unit : ∀ i j, t.basis[i]? = some j → t.column? j = some (unitRow t.rowCount i)
  cost : ∀ j ∈ t.basis, t.relativeCost? j = some 0

theorem not_isArtificial_of_artificials_eq (hartificials : t.artificials = 0)
    (hj : j < t.columnCount) : ¬ t.IsArtificial j := by
  rw [not_isArtificial_iff, structuralCount, hartificials]
  exact hj

/-- A tableau in solved form states a program: that of its own rows. -/
theorem SolvedForm.states (h : t.SolvedForm) : t.States t.equations t.relativeCost where
  wellFormed := h.wellFormed
  equations_eq := rfl
  cost_mem := by
    rw [sub_self]
    exact Submodule.zero_mem _
  unit := by
    intro i hi k hk
    have hcolumn := h.unit i _ (basis_getElem?_eq hi)
    have hread := h.wellFormed.column?_getElem? (h.wellFormed.basic_lt hi).le hcolumn hk
    rw [unitRow, List.getElem?_map, List.getElem?_range hk, Option.map_some,
      Option.some.injEq] at hread
    exact hread.symm
  unit_cost := by
    intro i hi
    have hlt := h.wellFormed.basic_lt hi
    have hread := h.cost _ (basic_mem hi)
    rw [h.wellFormed.relativeCost?_eq hlt.le, Option.some.injEq] at hread
    rw [hread, if_neg (not_isArtificial_of_artificials_eq h.artificials_eq hlt)]

theorem States.solvedForm {W : Submodule ℚ (ℕ → ℚ)} {cost : ℕ → ℚ} (h : t.States W cost)
    (hartificials : t.artificials = 0) : t.SolvedForm where
  wellFormed := h.wellFormed
  artificials_eq := hartificials
  unit := fun _ _ hj => h.column?_basic hj
  cost := by
    intro j hj
    have hlt := h.wellFormed.basis_lt j hj
    rw [h.wellFormed.relativeCost?_eq hlt.le, h.relativeCost_of_mem hj,
      if_neg (not_isArtificial_of_artificials_eq hartificials hlt)]

/-- A pivot keeps the solved form, whatever the sign of the pivot entry is. -/
theorem SolvedForm.bringIn (h : t.SolvedForm) (hentering : entering < t.columnCount)
    (hnew : entering ∉ t.basis) (hrow : row < t.rowCount) (hne : t.entry row entering ≠ 0) :
    (t.bringIn entering row).SolvedForm := by
  have hstructural : entering < t.structuralCount :=
    not_isArtificial_iff.1 (not_isArtificial_of_artificials_eq h.artificials_eq hentering)
  exact (h.states.bringIn hstructural hnew hrow hne).solvedForm h.artificials_eq

/-! ## Back and forth -/

/-- The column that has left the basis is not basic. -/
theorem WellFormed.basic_notMem_bringIn (h : t.WellFormed) (hnew : entering ∉ t.basis)
    (hrow : row < t.rowCount) : t.basic row ∉ (t.bringIn entering row).basis := by
  rw [h.mem_basis_bringIn_iff hrow]
  rintro (heq | ⟨-, hne⟩)
  · exact hnew (heq ▸ basic_mem hrow)
  · exact hne rfl

/-- The basis is the old one again. -/
theorem basis_bringIn_bringIn (hrow : row < t.rowCount) :
    ((t.bringIn entering row).bringIn (t.basic row) row).basis = t.basis := by
  rw [bringIn_basis, bringIn_basis, List.set_set]
  apply List.ext_getElem?
  intro i
  rcases eq_or_ne row i with rfl | hne
  · rw [List.getElem?_set_self hrow, basis_getElem?_eq hrow]
  · rw [List.getElem?_set_ne hne]

/-- When the basic variable of the row has a unit column and no relative cost, bringing its column
back in undoes the pivot. -/
theorem WellFormed.bringIn_bringIn (h : t.WellFormed) (hentering : entering < t.columnCount)
    (hnew : entering ∉ t.basis) (hrow : row < t.rowCount) (hne : t.entry row entering ≠ 0)
    (hunit : ∀ i < t.rowCount, t.entry i (t.basic row) = if i = row then 1 else 0)
    (hcost : t.relativeCost (t.basic row) = 0) :
    (t.bringIn entering row).bringIn (t.basic row) row = t := by
  have h' := h.bringIn hentering hnew hrow
  have hrow' : row < (t.bringIn entering row).rowCount := by rwa [bringIn_rowCount]
  have hself : t.entry row (t.basic row) = 1 := by rw [hunit row hrow, if_pos rfl]
  have hback := h'.bringIn (h.basic_lt hrow) (h.basic_notMem_bringIn hnew hrow) hrow'
  refine h.ext hback (basis_bringIn_bringIn hrow) rfl rfl (fun j _ => ?_) fun i hi j _ => ?_
  · rw [h'.relativeCost_bringIn hrow', h.relativeCost_bringIn hrow, h.relativeCost_bringIn hrow,
      h.entry_bringIn_self hrow, h.entry_bringIn_self hrow, hcost, hself]
    field_simp
    ring
  · rcases eq_or_ne i row with rfl | hother
    · rw [h'.entry_bringIn_self hrow', h.entry_bringIn_self hrow, h.entry_bringIn_self hrow, hself]
      field_simp
    · have hzero : t.entry i (t.basic row) = 0 := by rw [hunit i hi, if_neg hother]
      rw [h'.entry_bringIn_of_ne hrow' hother, h.entry_bringIn_of_ne hrow hother,
        h.entry_bringIn_of_ne hrow hother, h.entry_bringIn_self hrow, h.entry_bringIn_self hrow,
        hzero, hself]
      field_simp
      ring

/-- A row that can be read is a constraint row. -/
theorem Aligned.row_lt_of_entry? (h : t.Aligned) {entry : ℚ} (hread : t.entry? row j = some entry) :
    row < t.rowCount := by
  obtain ⟨hlt, -⟩ := h.rectangular.lt_of_entry? hread
  rw [h.rowCount_eq] at hlt
  exact Nat.lt_of_succ_lt_succ hlt

/-- At a tableau in solved form, bring a column that is not basic into the basis in a row in which
it has a nonzero entry. The column that was basic in the row leaves, the other one is basic there in
its place, and the tableau is in solved form again. When the column that has left is brought back in
the same row, then the other one leaves and the tableau is the one from before: the same matrix, the
same basis and the same marks. -/
theorem SolvedForm.bringIn?_undone (h : t.SolvedForm) (hentering : entering < t.columnCount)
    (hnew : entering ∉ t.basis) {entry : ℚ} (hread : t.entry? row entering = some entry)
    (hne : entry ≠ 0) :
    ∃ leaving t', t.bringIn? entering row = some (leaving, t') ∧
      t.basis[row]? = some leaving ∧ t'.basis = t.basis.set row entering ∧ t'.SolvedForm ∧
      t'.bringIn? leaving row = some (entering, t) := by
  have hwell := h.wellFormed
  have hrow := hwell.aligned.row_lt_of_entry? hread
  rw [hwell.entry?_eq hrow hentering.le, Option.some.injEq] at hread
  subst hread
  have hsolved := h.bringIn hentering hnew hrow hne
  have hpivot := hwell.bringIn?_eq hentering hrow
  obtain ⟨hleaving, hbasis⟩ := basis_of_bringIn? hpivot
  refine ⟨_, _, hpivot, hleaving, hbasis, hsolved, ?_⟩
  have hundone := hwell.bringIn_bringIn hentering hnew hrow hne (h.states.unit row hrow) (by
    rw [h.states.unit_cost row hrow,
      if_neg (not_isArtificial_of_artificials_eq h.artificials_eq (hwell.basic_lt hrow))])
  rw [hsolved.wellFormed.bringIn?_eq (hwell.basic_lt hrow) (by rwa [bringIn_rowCount]),
    basic_bringIn_self hrow, hundone]

/-- A tableau in solved form with a column whose entries have different signs. -/
def opposed : Tableau ℚ := ofBasis ⟨[[0, 0, -3, 5], [1, 0, 2, 4], [0, 1, -1, 3]], 4⟩ [0, 1] 0

/-- A pivot at a negative entry, and back. -/
theorem SolvedForm.bringIn?_undone_opposed :
    opposed.SolvedForm ∧ opposed.entry? 1 2 = some (-1) ∧
      ∃ t', opposed.bringIn? 2 1 = some (1, t') ∧ t'.basis = [0, 2] ∧ t'.SolvedForm ∧
        t'.bringIn? 1 1 = some (2, opposed) := by
  have hsolved : opposed.SolvedForm := by
    refine ⟨wellFormed_ofBasis rfl (by simp [RowMatrix.Rectangular]) (by decide) (by decide)
      (by decide) (by decide), rfl, ?_, by decide +kernel⟩
    intro i j hj
    have hi : i < 2 := (List.getElem?_eq_some_iff.1 hj).1
    have hbasic : j = i := by
      interval_cases i
      · exact (Option.some.inj hj).symm
      · exact (Option.some.inj hj).symm
    subst hbasic
    interval_cases j
    · decide +kernel
    · decide +kernel
  have hread : opposed.entry? 1 2 = some (-1) := by decide +kernel
  refine ⟨hsolved, hread, ?_⟩
  obtain ⟨leaving, t', hpivot, hleaving, hbasis, hsolved', hback⟩ :=
    hsolved.bringIn?_undone (by decide) (by decide) hread (by decide)
  obtain rfl : 1 = leaving := Option.some.inj hleaving
  exact ⟨t', hpivot, hbasis, hsolved', hback⟩

end Tableau

end SimplexMethod
