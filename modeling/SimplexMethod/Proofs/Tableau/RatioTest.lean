import Mathlib.Tactic
import SimplexMethod.Proofs.Tableau.Moves

/-!
# What the ratio test keeps

With a tolerance the ratio test does not look at entries that are positive but not above the
tolerance, unless there are no others. The values of the rows of such entries can become negative,
and this module says how far (`le_value_of_leavingRow?`): by no more than the tolerance times the
step, which is the value that the entering variable gets. Where no positive entry is passed over,
because all of them are above the tolerance or none of them is, no value becomes negative.

The bound is one for each row. A row whose entry is not positive does not lose anything, a row that
takes part in the choice does not lose more than it has because its ratio is not less than the
least one, and a row that is passed over loses its entry times the step.
-/

set_option autoImplicit false

namespace SimplexMethod

namespace Tableau

variable {t : Tableau ℚ} {tolerance : ℚ} {entering row : Nat}

/-- The row that the ratio test chooses has the least ratio among the entries above some threshold
between zero and the tolerance. No entry is passed over when all positive entries are above the
tolerance or none of them is. -/
theorem exists_leastRatio_of_leavingRow (htolerance : 0 ≤ tolerance)
    (h : t.leavingRow (t.columnOf entering) tolerance = some row) :
    ∃ threshold, 0 ≤ threshold ∧ threshold ≤ tolerance ∧ t.LeastRatio entering threshold row ∧
      ((∀ i < t.rowCount, t.entry i entering ≤ tolerance) ∨
        (∀ i < t.rowCount, 0 < t.entry i entering → tolerance < t.entry i entering) →
      ∀ i < t.rowCount, t.entry i entering ≤ 0 ∨ threshold < t.entry i entering) := by
  rcases leastRatio_of_leavingRow h with hleast | ⟨hleast, -⟩
  · refine ⟨tolerance, htolerance, le_rfl, hleast, fun hnone i hi => ?_⟩
    rcases hnone with hall | hall
    · -- The entry of the chosen row is above the tolerance.
      exact absurd hleast.threshold_lt (hall row hleast.row_lt).not_gt
    · exact (le_or_gt _ _).imp_right (hall i hi)
  · exact ⟨0, le_rfl, htolerance, hleast, fun _ _ _ => le_or_gt _ _⟩

/-- A pivot in the row that the ratio test chooses lowers no value by more than the tolerance times
the step below zero. -/
theorem neg_mul_le_value_bringIn (h : t.Aligned) (hvalues : t.ValuesNonneg) {threshold : ℚ}
    (hthreshold : 0 ≤ threshold) (hle : threshold ≤ tolerance)
    (hleast : t.LeastRatio entering threshold row) {i : Nat} (hi : i < t.rowCount) :
    -(tolerance * (t.value row / t.entry row entering)) ≤ (t.bringIn entering row).value i := by
  have hstep := hleast.step_nonneg hthreshold hvalues
  have hbound := mul_nonneg (hthreshold.trans hle) hstep
  rcases le_or_gt (t.entry i entering) threshold with hpassed | hgt
  · rcases eq_or_ne i row with rfl | hne
    · exact absurd hleast.threshold_lt hpassed.not_gt
    · -- Of what the row has, it loses the entry times the step.
      have hloss := mul_le_mul_of_nonneg_right (hpassed.trans hle) hstep
      rw [h.value_bringIn_of_ne hleast.row_lt hne]
      linarith [hvalues i hi]
  · have hnonneg := hleast.value_bringIn_nonneg h hthreshold hvalues hi (Or.inr hgt)
    linarith

/-- At a tableau without negative values, let the ratio test choose a row for a column, and let the
step be the ratio of that row. After the pivot the value of the row is the step, which is not
negative, and no other value is below minus the tolerance times the step. No value is negative when
no entry of the column is above the tolerance, or when all positive entries are, and thus in
particular without tolerance. -/
theorem le_value_of_leavingRow? (h : t.Aligned) (htolerance : 0 ≤ tolerance)
    (hvalues : ∀ i < t.rowCount, ∃ value, t.value? i = some value ∧ 0 ≤ value)
    (hentering : entering < t.columnCount) {column : List ℚ}
    (hcolumn : t.column? entering = some column)
    (hrow : t.leavingRow? column tolerance = some (some row)) :
    ∃ value entry step leaving t', t.value? row = some value ∧
      t.entry? row entering = some entry ∧ step = value / entry ∧ 0 ≤ step ∧
      t.bringIn? entering row = some (leaving, t') ∧ t'.value? row = some step ∧
      (∀ i < t.rowCount, i ≠ row → ∃ value', t'.value? i = some value' ∧
        -(tolerance * step) ≤ value') ∧
      (tolerance = 0 ∨ (∀ a ∈ column, a ≤ tolerance) ∨ (∀ a ∈ column, 0 < a → tolerance < a) →
        ∀ i < t.rowCount, ∃ value', t'.value? i = some value' ∧ 0 ≤ value') := by
  have hnonneg : t.ValuesNonneg := by
    intro i hi
    obtain ⟨value, hread, hvalue⟩ := hvalues i hi
    rw [h.value?_eq hi, Option.some.injEq] at hread
    rwa [hread]
  obtain rfl : column = t.columnOf entering :=
    Option.some.inj (hcolumn.symm.trans (h.column?_eq hentering.le))
  rw [h.leavingRow?_eq length_columnOf, Option.some.injEq] at hrow
  obtain ⟨threshold, hthreshold, hle, hleast, hnone⟩ :=
    exists_leastRatio_of_leavingRow htolerance hrow
  have hlt := hleast.row_lt
  have hread (i : Nat) (hi : i < t.rowCount) :
      (t.bringIn entering row).value? i = some ((t.bringIn entering row).value i) :=
    (h.bringIn hlt).value?_eq (by rwa [bringIn_rowCount])
  refine ⟨_, _, _, _, _, h.value?_eq hlt, h.entry?_eq hlt hentering.le, rfl,
    hleast.step_nonneg hthreshold hnonneg, h.bringIn?_eq hentering hlt, ?_, fun i hi _ => ?_,
    fun hall i hi => ?_⟩
  · rw [hread row hlt, h.value_bringIn_self hlt]
  · exact ⟨_, hread i hi, neg_mul_le_value_bringIn h hnonneg hthreshold hle hleast hi⟩
  · refine ⟨_, hread i hi, hleast.value_bringIn_nonneg h hthreshold hnonneg hi ?_⟩
    have hentries {P : ℚ → Prop} (hP : ∀ a ∈ t.columnOf entering, P a) :
        ∀ i < t.rowCount, P (t.entry i entering) :=
      fun i hi => hP _ (List.mem_map.2 ⟨i, List.mem_range.2 hi, rfl⟩)
    rcases hall with rfl | hall | hall
    · exact hnone (Or.inr fun _ _ => id) i hi
    · exact hnone (Or.inl (hentries hall)) i hi
    · exact hnone (Or.inr (hentries (P := fun a => 0 < a → tolerance < a) hall)) i hi

/-- A tableau in whose first column one entry is much smaller than the other. -/
def slanted : Tableau ℚ :=
  ofBasis ⟨[[-1, 0, 0, 0], [1/4, 1, 0, 1/8], [1, 0, 1, 1]], 4⟩ [1, 2] 0

/-- With the tolerance 1/2 the small entry is passed over, and the value of its row becomes
negative. -/
theorem le_value_of_leavingRow?_slanted :
    ((slanted.bringIn? 0 1).bind fun (_, t') => t'.value? 0) = some (-1/8) ∧
      ∃ step leaving t', slanted.bringIn? 0 1 = some (leaving, t') ∧ t'.value? 1 = some step ∧
        0 ≤ step ∧ ∀ i < slanted.rowCount, i ≠ 1 → ∃ value', t'.value? i = some value' ∧
          -(1/2 * step) ≤ value' := by
  have haligned : slanted.Aligned :=
    ⟨rfl, Nat.succ_pos _, by simp [RowMatrix.Rectangular, slanted, ofBasis]⟩
  have hvalues : ∀ i < slanted.rowCount, ∃ value, slanted.value? i = some value ∧ 0 ≤ value := by
    intro i hi
    refine ⟨slanted.value i, haligned.value?_eq hi, ?_⟩
    revert i
    decide +kernel
  have hcolumn : slanted.column? 0 = some [1/4, 1] := by decide +kernel
  have hrow : slanted.leavingRow? [1/4, 1] (1/2) = some (some 1) := by decide +kernel
  obtain ⟨_, _, step, leaving, t', -, -, -, hstep, hbringIn, hself, hothers, -⟩ :=
    le_value_of_leavingRow? haligned (by norm_num) hvalues (by decide +kernel) hcolumn hrow
  exact ⟨by decide +kernel, step, leaving, t', hbringIn, hself, hstep, hothers⟩

end Tableau

end SimplexMethod
