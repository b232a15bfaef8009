import Mathlib.Tactic
import SimplexMethod.Proofs.Tableau.Artificial
import SimplexMethod.Proofs.TwoPhase.Descent
import SimplexMethod.Tableau.BasicFeasible

/-!
# Tableaus with a feasible basic solution

What the test for a feasible basic solution looks for, read in the tableau without any tolerance
(`BasicFeasible`). A tableau that states a program with respect to a feasible basis has it
(`Canonical.basicFeasible`), and then the test succeeds with tolerance zero
(`BasicFeasible.isBasicFeasible?_eq`): there are as many marks as rows since the marks are those of
the basic columns (`WellFormed.count_marks`), and no value is below zero, let alone below the
allowance that the test makes for rounding.
-/

set_option autoImplicit false

namespace SimplexMethod

namespace Tableau

/-- In a well-formed tableau there is a marked column for each constraint row. -/
theorem WellFormed.count_marks {F : Type} {t : Tableau F} (h : t.WellFormed) :
    t.marks.count true = t.rowCount := by
  have hmarks : t.marks = (List.range t.marks.length).map t.isMarked := by
    apply List.ext_getElem (by simp)
    intro j hj hj'
    simp [isMarked, hj]
  have hperm : ((List.range t.marks.length).filter t.isMarked).Perm t.basis := by
    refine (List.perm_ext_iff_of_nodup (List.nodup_range.filter _) h.nodup).2 fun j => ?_
    rw [List.mem_filter, List.mem_range, h.isMarked_iff, and_iff_right_iff_imp, h.marks_length,
      h.columns_eq]
    exact fun hj => (h.basis_lt j hj).trans (Nat.lt_succ_self _)
  have hlength : ((List.range t.marks.length).filter t.isMarked).length = t.rowCount :=
    hperm.length_eq
  rw [hmarks, List.count_eq_countP, List.countP_map, List.countP_eq_length_filter]
  simpa [Function.comp_def] using hlength

/-- The basic columns form an identity matrix, those of variables that are not artificial have no
relative cost, and the values of the rows are not negative. -/
structure BasicFeasible (t : Tableau ℚ) : Prop where
  wellFormed : t.WellFormed
  unit : ∀ i j, t.basis[i]? = some j → t.column? j = some (unitRow t.rowCount i)
  cost : ∀ j ∈ t.basis, ¬ t.IsArtificial j → t.relativeCost? j = some 0
  nonneg : ∀ i < t.rowCount, ∃ value, t.value? i = some value ∧ 0 ≤ value

variable {t : Tableau ℚ}

/-- A basic column is that of the identity matrix which belongs to its row. -/
theorem States.column?_basic {W : Submodule ℚ (ℕ → ℚ)} {cost : ℕ → ℚ} (h : t.States W cost)
    {i j : Nat} (hj : t.basis[i]? = some j) : t.column? j = some (unitRow t.rowCount i) := by
  have hi : i < t.rowCount := (List.getElem?_eq_some_iff.1 hj).1
  rw [basis_getElem?_eq hi, Option.some.injEq] at hj
  subst hj
  rw [h.wellFormed.column?_eq (h.wellFormed.basic_lt hi).le, unitRow]
  exact congrArg some (List.map_congr_left fun k hk => h.unit i hi k (List.mem_range.1 hk))

/-- A tableau that states a program with respect to a feasible basis has a feasible basic
solution. -/
theorem Canonical.basicFeasible {W : Submodule ℚ (ℕ → ℚ)} {cost : ℕ → ℚ}
    {columns artificials : Nat} (h : t.Canonical W cost columns artificials) :
    t.BasicFeasible where
  wellFormed := h.states.wellFormed
  unit := fun _ _ hj => h.states.column?_basic hj
  cost := by
    intro j hj hart
    rw [h.states.wellFormed.relativeCost?_eq (h.states.wellFormed.basis_lt j hj).le]
    obtain ⟨i, hi, rfl⟩ := mem_basis_iff.1 hj
    rw [h.states.unit_cost i hi, if_neg hart]
  nonneg := fun i hi => ⟨t.value i, h.states.wellFormed.value?_eq hi, h.nonneg i hi⟩

/-- A row of an identity matrix differs from itself by nothing. -/
theorem isUnit_unitRow (size i : Nat) : isUnit (0 : ℚ) i (unitRow size i) = true := by
  rw [isUnit, List.all_eq_true]
  rintro ⟨entry, k⟩ hmem
  have hentry := List.mk_mem_zipIdx_iff_getElem?.1 hmem
  have hk : k < size :=
    Problem.length_unitRow (F := ℚ) size i ▸ (List.getElem?_eq_some_iff.1 hentry).1
  rw [unitRow, List.getElem?_map, List.getElem?_range hk, Option.map_some, Option.some.injEq]
    at hentry
  exact decide_eq_true (Scalar.negligible_zero_iff.2 (sub_eq_zero.2 hentry.symm))

/-- What the test allows is not above zero. -/
theorem lowestValue_nonpos (values : List ℚ) : lowestValue values ≤ 0 := by
  have hlargest (start : ℚ) (hstart : 0 ≤ start) : 0 ≤ values.foldl
      (fun largest value => Scalar.larger largest (Scalar.abs value)) start := by
    induction values generalizing start with
    | nil => exact hstart
    | cons value values ih =>
      refine ih _ ?_
      show 0 ≤ Scalar.larger start (Scalar.abs value)
      rw [Scalar.larger_eq_max]
      exact hstart.trans (le_max_left _ _)
  exact mul_nonpos_of_nonpos_of_nonneg (by norm_num) (hlargest 1 zero_le_one)

/-- The test for a feasible basic solution succeeds without tolerance. -/
theorem BasicFeasible.isBasicFeasible?_eq (h : t.BasicFeasible) :
    t.isBasicFeasible? 0 = some true := by
  have hcolumns : t.basis.mapM t.column? =
      some ((List.range t.rowCount).map (unitRow t.rowCount)) := by
    rw [mapM_eq_some_iff]
    apply List.ext_getElem (by simp [rowCount])
    intro i hi hi'
    rw [List.getElem_map, List.getElem_map, List.getElem_map, List.getElem_range]
    exact h.unit i _ (List.getElem?_eq_getElem _)
  have hcosts : (t.basis.filter fun j => ¬ t.IsArtificial j).mapM t.relativeCost? =
      some ((t.basis.filter fun j => ¬ t.IsArtificial j).map fun _ => 0) := by
    refine mapM_eq_some_map fun j hj => ?_
    obtain ⟨hmem, hart⟩ := List.mem_filter.1 hj
    exact h.cost j hmem (of_decide_eq_true hart)
  have hvalues : (List.range t.rowCount).mapM t.value? =
      some ((List.range t.rowCount).map t.value) :=
    mapM_eq_some_map fun i hi => h.wellFormed.value?_eq (List.mem_range.1 hi)
  rw [isBasicFeasible?, if_neg (not_not.2 h.wellFormed.count_marks), hcolumns, hcosts, hvalues]
  simp only [Option.bind_eq_bind, Option.bind_some, Option.pure_def, Option.some.injEq,
    Bool.and_eq_true]
  refine ⟨⟨?_, ?_⟩, ?_⟩
  · rw [List.all_eq_true]
    rintro ⟨column, i⟩ hmem
    have hcolumn := List.mk_mem_zipIdx_iff_getElem?.1 hmem
    obtain ⟨hi, rfl⟩ := List.getElem?_eq_some_iff.1 hcolumn
    rw [List.getElem_map, List.getElem_range]
    exact isUnit_unitRow _ _
  · rw [List.all_eq_true]
    rintro cost hmem
    obtain ⟨j, -, rfl⟩ := List.mem_map.1 hmem
    exact decide_eq_true (Scalar.negligible_zero_iff.2 rfl)
  · rw [List.all_eq_true]
    rintro value hmem
    obtain ⟨i, hi, rfl⟩ := List.mem_map.1 hmem
    obtain ⟨value, hread, hnonneg⟩ := h.nonneg i (List.mem_range.1 hi)
    rw [h.wellFormed.value?_eq (List.mem_range.1 hi), Option.some.injEq] at hread
    exact decide_eq_true ((lowestValue_nonpos _).trans (hnonneg.trans_eq hread.symm))

end Tableau

end SimplexMethod
