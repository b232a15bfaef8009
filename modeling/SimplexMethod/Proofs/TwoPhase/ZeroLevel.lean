import Mathlib.Tactic
import SimplexMethod.Proofs.Tableau.Solutions
import SimplexMethod.Proofs.TwoPhase.Redundancy

/-!
# Exchanges at zero level

When the artificial variables that are still basic are expelled without tolerance, the basis changes
and the point does not (`Problem.expel?_levelExchange`). Every pivot, whatever the sign of its
entry, leaves the whole column of right-hand sides as it is, and with it the basic solution and the
objective, and takes one artificial variable out of the basis (`Tableau.LevelExchange`). In the rows
that are listed in the end, and in no others, an artificial variable is left, and the structural
entries and the right-hand sides of these rows are zero.

The reason is that all artificial variables are zero when their sum is, because none is negative
(`Problem.CanonicalArtificial.levelled`). The row of a pivot thus has the value zero, and so nothing
is added to any right-hand side, and this remains so for the artificial variables that are left
(`Problem.Levelled.levelExchange`).
-/

set_option autoImplicit false

namespace SimplexMethod

open Tableau

/-- The walk goes on to another one by steps that are in a relation to the tableau before them. -/
inductive Walk.LeadsTo {F : Type} (R : Tableau F → Pivot → Tableau F → Prop) (w : Walk F) :
    Walk F → Prop where
  | refl : LeadsTo R w w
  | step {v : Walk F} {pivot : Pivot} {t : Tableau F} (walk : LeadsTo R w v)
      (related : R v.tableau pivot t) : LeadsTo R w { v with steps := ⟨pivot, t⟩ :: v.steps }

/-- The exchange takes an artificial variable out of the basis, and it changes no right-hand side,
neither those of the constraint rows nor that of the cost row. -/
structure Tableau.LevelExchange (t : Tableau ℚ) (pivot : Pivot) (t' : Tableau ℚ) : Prop where
  exchanges : t.Exchanges pivot t'
  entry_ne_zero : t.entry pivot.row pivot.entering ≠ 0
  column_eq : t'.matrix.column t'.columnCount = t.matrix.column t.columnCount
  basicSolution?_eq : ∃ point, t.basicSolution? = some point ∧ t'.basicSolution? = some point
  objective?_eq : ∃ objective, t.objective? = some objective ∧ t'.objective? = some objective
  leaving : t.IsArtificial pivot.leaving
  mem_basis_iff : ∀ j, t.IsArtificial j → (j ∈ t'.basis ↔ j ∈ t.basis ∧ j ≠ pivot.leaving)

namespace Problem

variable {p : Problem ℚ} {t : Tableau ℚ} {row entering : Nat}

/-! ## One exchange -/

namespace Levelled

/-- A pivot in a row whose value is zero does not change the objective either. -/
theorem objective_bringIn (h : p.Levelled t) (hrow : row < t.rowCount)
    (hart : t.IsArtificial (t.basic row)) : (t.bringIn entering row).objective = t.objective := by
  rw [h.wellFormed.objective_bringIn hrow, h.value_eq_zero row hrow hart, zero_div, mul_zero,
    add_zero]

/-- The right-hand sides, that of the cost row first, stay as they are. -/
theorem column_bringIn (h : p.Levelled t) (hrow : row < t.rowCount)
    (hart : t.IsArtificial (t.basic row)) :
    (t.bringIn entering row).matrix.column t.columnCount = t.matrix.column t.columnCount := by
  apply ext_coeff
  · rw [RowMatrix.length_column, RowMatrix.length_column]
    exact RowMatrix.pivot_rowCount
  · intro k _
    rw [RowMatrix.coeff_column, RowMatrix.coeff_column]
    cases k with
    | zero => exact neg_injective (h.objective_bringIn hrow hart)
    | succ i => exact h.value_bringIn hrow hart i

/-- The basic solution stays. -/
theorem basicSolution_bringIn (h : p.Levelled t) (hrow : row < t.rowCount)
    (hart : t.IsArtificial (t.basic row)) (hentering : entering < t.structuralCount)
    (hnew : entering ∉ t.basis) : (t.bringIn entering row).basicSolution = t.basicSolution := by
  have hwell' := h.wellFormed.bringIn (hentering.trans_le structuralCount_le) hnew hrow
  refine basicSolution_congr h.wellFormed hwell' rfl fun j _ => ?_
  rw [h.wellFormed.point_bringIn_of_value_eq_zero hrow (h.value_eq_zero row hrow hart)]

/-- Expelling an artificial variable that is zero is an exchange at zero level. -/
theorem levelExchange (h : p.Levelled t) (hrow : row < t.rowCount)
    (hart : t.IsArtificial (t.basic row)) (hentering : entering < t.structuralCount)
    (hnew : entering ∉ t.basis) (hne : t.entry row entering ≠ 0) :
    t.LevelExchange ⟨entering, t.basic row, row⟩ (t.bringIn entering row) where
  exchanges := h.wellFormed.exchanges hentering hnew hrow
  entry_ne_zero := hne
  column_eq := h.column_bringIn hrow hart
  basicSolution?_eq := by
    have hnext := h.bringIn hrow hart hentering hnew hne
    refine ⟨t.basicSolution, h.wellFormed.basicSolution?_eq, ?_⟩
    rw [hnext.wellFormed.basicSolution?_eq, h.basicSolution_bringIn hrow hart hentering hnew]
  objective?_eq := by
    have hnext := h.bringIn hrow hart hentering hnew hne
    refine ⟨t.objective, h.wellFormed.objective?_eq, ?_⟩
    rw [hnext.wellFormed.objective?_eq, h.objective_bringIn hrow hart]
  leaving := hart
  mem_basis_iff := by
    intro j hj
    rw [h.wellFormed.mem_basis_bringIn_iff hrow, or_iff_right]
    rintro rfl
    exact not_isArtificial_iff.2 hentering hj

end Levelled

/-! ## Expelling -/

section Expel

variable {options : Options ℚ} {rule : PivotRule} {w : Walk ℚ}

/-- While artificial variables that are zero are expelled, every pivot is an exchange at zero level,
also when expelling is cut short. -/
theorem leadsTo_of_expel? (htolerance : options.tolerance = 0) {rows : List Nat} {w' : Walk ℚ}
    {result : Option (List Nat)} (hw : p.Levelled w.tableau)
    (hrows : ∀ row ∈ rows, row < w.tableau.rowCount)
    (h : expel? options rows w = some (w', result)) : w.LeadsTo LevelExchange w' := by
  refine (hw.expel?_keeps htolerance (fun hsteps ht hrow hart hentering hnew hne => ?_) .refl
    hrows h).1
  exact hsteps.step (ht.levelExchange hrow hart hentering hnew hne)

/-- When the descent of phase one ends and the sum of the artificial variables is negligible, those
that are still basic are expelled at zero level: every pivot leaves the right-hand sides, the basic
solution and the objective as they are and takes one artificial variable out of the basis. Unless
this is cut short by the pivot limit, artificial variables are left in the listed rows only, and
these have nothing but zeros in the structural columns and on the right-hand side. -/
theorem expel?_levelExchange (htolerance : options.tolerance = 0) {objective : ℚ}
    (hdescend : descend? rule options.tolerance options.pivotLimit
      (.startingAt p.artificialTableau) = some (w, .optimal))
    (hobjective : w.tableau.objective? = some objective)
    (hsmall : ¬ options.tolerance < Scalar.abs objective) :
    ∃ w' result, expel? options (List.range w.tableau.rowCount) w = some (w', result) ∧
      w.LeadsTo LevelExchange w' ∧
      ∀ redundant, result = some redundant →
        redundant = artificialPlaces p.variableCount w'.tableau.basis ∧
        ∀ i ∈ redundant, (∀ j < p.variableCount, w'.tableau.entry? i j = some 0) ∧
          w'.tableau.value? i = some 0 := by
  rw [htolerance] at hdescend hsmall
  have hcanonical := (canonical_of_descend? hdescend).tableau
  obtain ⟨-, hlevelled⟩ := hcanonical.levelled hobjective hsmall
  have hrows : ∀ row ∈ List.range w.tableau.rowCount, row < w.tableau.rowCount :=
    fun row hrow => List.mem_range.1 hrow
  obtain ⟨w', result, hresult⟩ := exists_expel? options hlevelled.wellFormed hrows
  refine ⟨w', result, hresult, leadsTo_of_expel? htolerance hlevelled hrows hresult, ?_⟩
  rintro redundant rfl
  have hexpelled := expelled_of_expel? htolerance hlevelled hrows List.nodup_range hresult
  have hreduced := hexpelled.reduced
  have hwell := hreduced.canonical.states.wellFormed
  have hsize := hreduced.canonical.structuralCount_eq
  refine ⟨hsize ▸ hexpelled.redundant_eq, fun i hi => ?_⟩
  have hnull := hreduced.nullRow i hi
  constructor
  · intro j hj
    rw [← hsize] at hj
    rw [hwell.entry?_eq hnull.row_lt (hj.le.trans structuralCount_le), hnull.entry_eq_zero j hj]
  · rw [hwell.value?_eq hnull.row_lt, hnull.value_eq_zero]

/-- In the program with a redundant row, an artificial variable is expelled at the entry -1. -/
theorem expel?_levelExchange_overstated :
    ∃ w w', descend? .first 0 10 (.startingAt overstated.artificialTableau) = some (w, .optimal) ∧
      expel? ⟨10, 0⟩ (List.range w.tableau.rowCount) w = some (w', some [1]) ∧
      w.tableau.entry? 2 1 = some (-1) ∧ w'.steps.head?.map Step.pivot = some ⟨1, 6, 2⟩ ∧
      w.LeadsTo LevelExchange w' ∧ [1] = artificialPlaces 4 w'.tableau.basis ∧
      w'.tableau.value? 1 = some 0 := by
  have hend : ((descend? .first 0 10 (.startingAt overstated.artificialTableau)).map
      fun found => (found.2, found.1.tableau.objective?, found.1.tableau.entry? 2 1)) =
        some (.optimal, some 0, some (-1)) := by decide +kernel
  have hlast : ((descend? .first 0 10 (.startingAt overstated.artificialTableau)).bind
      fun found => (expel? ⟨10, 0⟩ (List.range found.1.tableau.rowCount) found.1).map
        fun expelled => (expelled.2, expelled.1.steps.head?.map Step.pivot)) =
          some (some [1], some ⟨1, 6, 2⟩) := by decide +kernel
  obtain ⟨⟨w, ending⟩, hdescend, hfound⟩ := Option.map_eq_some_iff.1 hend
  simp only [Prod.mk.injEq] at hfound
  obtain ⟨rfl, hobjective, hentry⟩ := hfound
  obtain ⟨w', result, hexpel, hsteps, hrows⟩ :=
    @expel?_levelExchange _ ⟨10, 0⟩ _ _ rfl _ hdescend hobjective (by decide)
  rw [hdescend, Option.bind_some, hexpel, Option.map_some, Option.some.injEq, Prod.mk.injEq]
    at hlast
  obtain ⟨rfl, hpivot⟩ := hlast
  obtain ⟨hplaces, hnull⟩ := hrows [1] rfl
  exact ⟨w, w', hdescend, hexpel, hentry, hpivot, hsteps, hplaces,
    (hnull 1 List.mem_cons_self).2⟩

end Expel

end Problem

end SimplexMethod
