import Mathlib.Tactic
import SimplexMethod.Proofs.Tableau.Choice
import SimplexMethod.Proofs.Tableau.States

/-!
# Moves

What the choice of a pivot says about a well-formed tableau over the rationals. A column that
enters is profitable (`WellFormed.profitable_of_choose`); a row that leaves has the least ratio
among those above the threshold in force, and a column that nothing limits has no positive entry
(`leastRatio_of_leavingRow`, `entry_nonpos_of_leavingRow`). Together these explain every move
(`WellFormed.explains_of_move?`). With tolerance zero a pivot in the row of least ratio keeps all
values nonnegative (`ValuesNonneg.bringIn`).
-/

set_option autoImplicit false

namespace SimplexMethod

namespace Tableau

variable {t : Tableau ℚ} {rule : PivotRule} {tolerance threshold : ℚ} {entering row : Nat}

/-! ## The entering column -/

/-- The column may enter: it is structural and not basic, and its relative cost is below minus the
tolerance. -/
structure Profitable (t : Tableau ℚ) (tolerance : ℚ) (j : Nat) : Prop where
  structural : j < t.structuralCount
  notMem : j ∉ t.basis
  cost_lt : t.relativeCost j < -tolerance

namespace WellFormed

theorem mem_profitable_iff (h : t.WellFormed) (column : Nat × ℚ) :
    column ∈ t.profitable tolerance ↔
      t.Profitable tolerance column.1 ∧ column.2 = t.relativeCost column.1 := by
  rw [Tableau.mem_profitable_iff, h.mem_openColumns_iff]
  constructor
  · rintro ⟨⟨hlt, hnot⟩, hcost, hless⟩
    exact ⟨⟨hlt, hnot, hcost ▸ hless⟩, hcost⟩
  · rintro ⟨hprofitable, hcost⟩
    exact ⟨⟨hprofitable.structural, hprofitable.notMem⟩, hcost, hcost ▸ hprofitable.cost_lt⟩

/-- Both rules choose among the profitable columns. -/
theorem profitable_of_choose (h : t.WellFormed) {cost : ℚ}
    (hchoice : rule.choose (t.profitable tolerance) = some (entering, cost)) :
    t.Profitable tolerance entering :=
  ((h.mem_profitable_iff _).1 (PivotRule.mem_of_choose hchoice)).1

/-- They choose none only when there is none. -/
theorem not_profitable_of_choose (h : t.WellFormed)
    (hchoice : rule.choose (t.profitable tolerance) = none) (j : Nat) :
    ¬ t.Profitable tolerance j := by
  intro hj
  have hin := (h.mem_profitable_iff (j, t.relativeCost j)).2 ⟨hj, rfl⟩
  rw [PivotRule.choose_eq_none_iff.1 hchoice] at hin
  exact absurd hin List.not_mem_nil

end WellFormed

/-! ## The leaving row -/

/-- The row has the least ratio of value and entry among the rows whose entry in the column is
above the threshold. -/
structure LeastRatio (t : Tableau ℚ) (entering : Nat) (threshold : ℚ) (row : Nat) : Prop where
  row_lt : row < t.rowCount
  threshold_lt : threshold < t.entry row entering
  ratio_le : ∀ i < t.rowCount, threshold < t.entry i entering →
    t.value row / t.entry row entering ≤ t.value i / t.entry i entering

theorem leastRatio_of_leastRatioRow
    (h : t.leastRatioRow (t.columnOf entering) threshold = some row) :
    t.LeastRatio entering threshold row := by
  obtain ⟨ratio, hleast, rfl⟩ := Option.map_eq_some_iff.1 h
  obtain ⟨hlt, hthreshold, heq⟩ := mem_ratios_columnOf_iff.1 (mem_of_survivor? hleast)
  refine ⟨hlt, hthreshold, fun i hi hthresholdi => ?_⟩
  have hle := firstLeast?_le hleast _ (mem_ratios_columnOf_iff.2 ⟨hi, hthresholdi, rfl⟩)
  rwa [heq] at hle

theorem entry_le_of_leastRatioRow (h : t.leastRatioRow (t.columnOf entering) threshold = none)
    {i : Nat} (hi : i < t.rowCount) : t.entry i entering ≤ threshold := by
  have hempty := survivor?_eq_none_iff.1 (Option.map_eq_none_iff.1 h)
  apply not_lt.1
  intro hthreshold
  have hmem := mem_ratios_columnOf_iff.2 ⟨hi, hthreshold, rfl⟩
  rw [hempty] at hmem
  exact absurd hmem List.not_mem_nil

/-- The row to pivot in has the least ratio above the tolerance, or above zero when no entry is
above the tolerance. -/
theorem leastRatio_of_leavingRow
    (h : t.leavingRow (t.columnOf entering) tolerance = some row) :
    t.LeastRatio entering tolerance row ∨
      (t.LeastRatio entering 0 row ∧ ∀ i < t.rowCount, t.entry i entering ≤ tolerance) := by
  rcases Option.or_eq_some_iff.1 h with h | ⟨hnone, h⟩
  · exact Or.inl (leastRatio_of_leastRatioRow h)
  · -- Smaller positive entries are looked at only when none is above the tolerance.
    exact Or.inr ⟨leastRatio_of_leastRatioRow h, fun i hi => entry_le_of_leastRatioRow hnone hi⟩

theorem entry_nonpos_of_leavingRow (h : t.leavingRow (t.columnOf entering) tolerance = none)
    {i : Nat} (hi : i < t.rowCount) : t.entry i entering ≤ 0 :=
  entry_le_of_leastRatioRow (Option.or_eq_none_iff.1 h).2 hi

/-! ## The move -/

/-- What a move says about the tableau. -/
def Explains (t : Tableau ℚ) (tolerance : ℚ) : Move ℚ → Prop
  | .stay => ∀ j, ¬ t.Profitable tolerance j
  | .fall entering column => t.Profitable tolerance entering ∧
      t.column? entering = some column ∧ ∀ i < t.rowCount, t.entry i entering ≤ 0
  | .pivot entering row => t.Profitable tolerance entering ∧
      (t.LeastRatio entering tolerance row ∨
        (t.LeastRatio entering 0 row ∧ ∀ i < t.rowCount, t.entry i entering ≤ tolerance))

namespace WellFormed

/-- Every move is made for its reason. -/
theorem explains_of_move? (h : t.WellFormed) {move : Move ℚ}
    (hmove : t.move? rule tolerance = some move) : t.Explains tolerance move := by
  rw [h.move?_eq, Option.some.injEq] at hmove
  subst hmove
  rw [Tableau.move]
  split
  · next hchoice => exact h.not_profitable_of_choose hchoice
  · next entering cost hchoice =>
    have hprofitable := h.profitable_of_choose hchoice
    split
    · next hrow =>
      have hle := hprofitable.structural.le.trans structuralCount_le
      exact ⟨hprofitable, h.column?_eq hle, fun i hi => entry_nonpos_of_leavingRow hrow hi⟩
    · next row hrow => exact ⟨hprofitable, leastRatio_of_leavingRow hrow⟩

/-- Whatever the tolerance is, a pivot is made at a positive entry. -/
theorem entry_pos_of_pivot (h : t.WellFormed) (htolerance : 0 ≤ tolerance)
    (hmove : t.move? rule tolerance = some (.pivot entering row)) :
    t.Profitable tolerance entering ∧ row < t.rowCount ∧ 0 < t.entry row entering := by
  obtain ⟨hprofitable, hleast | ⟨hleast, -⟩⟩ := h.explains_of_move? hmove
  · exact ⟨hprofitable, hleast.row_lt, htolerance.trans_lt hleast.threshold_lt⟩
  · exact ⟨hprofitable, hleast.row_lt, hleast.threshold_lt⟩

/-- With tolerance zero, a pivot is made in the row of least ratio among all positive entries. -/
theorem leastRatio_of_pivot (h : t.WellFormed)
    (hmove : t.move? rule 0 = some (.pivot entering row)) :
    t.Profitable 0 entering ∧ t.LeastRatio entering 0 row := by
  obtain ⟨hprofitable, hleast | ⟨hleast, -⟩⟩ := h.explains_of_move? hmove
  · exact ⟨hprofitable, hleast⟩
  · exact ⟨hprofitable, hleast⟩

end WellFormed

namespace LeastRatio

/-- The entering variable does not become negative. -/
theorem step_nonneg (hleast : t.LeastRatio entering threshold row) (hthreshold : 0 ≤ threshold)
    (hvalues : t.ValuesNonneg) : 0 ≤ t.value row / t.entry row entering :=
  div_nonneg (hvalues row hleast.row_lt) (hthreshold.trans hleast.threshold_lt.le)

/-- No value becomes negative, but for those of rows whose positive entry was passed over. -/
theorem value_bringIn_nonneg (hleast : t.LeastRatio entering threshold row) (h : t.Aligned)
    (hthreshold : 0 ≤ threshold) (hvalues : t.ValuesNonneg) {i : Nat} (hi : i < t.rowCount)
    (hentry : t.entry i entering ≤ 0 ∨ threshold < t.entry i entering) :
    0 ≤ (t.bringIn entering row).value i := by
  have hstep := hleast.step_nonneg hthreshold hvalues
  rcases eq_or_ne i row with rfl | hne
  · rw [h.value_bringIn_self hi]
    exact hstep
  · rw [h.value_bringIn_of_ne hleast.row_lt hne, sub_nonneg]
    rcases hentry with hle | hgt
    · exact (mul_nonpos_of_nonpos_of_nonneg hle hstep).trans (hvalues i hi)
    · -- The row is one of those with which the ratio was compared.
      have hpos := hthreshold.trans_lt hgt
      have hmul := mul_le_mul_of_nonneg_left (hleast.ratio_le i hi hgt) hpos.le
      rwa [mul_div_cancel₀ _ hpos.ne'] at hmul

end LeastRatio

/-- A pivot in the row of least ratio among the positive entries keeps all values nonnegative. -/
theorem ValuesNonneg.bringIn (hvalues : t.ValuesNonneg) (h : t.WellFormed)
    (hleast : t.LeastRatio entering 0 row) : (t.bringIn entering row).ValuesNonneg := by
  intro i hi
  rw [bringIn_rowCount] at hi
  exact hleast.value_bringIn_nonneg h.aligned le_rfl hvalues hi (le_or_gt _ _)

end Tableau

end SimplexMethod
