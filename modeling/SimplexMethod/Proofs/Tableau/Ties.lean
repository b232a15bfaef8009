import Mathlib.Tactic
import SimplexMethod.Proofs.Scalar.Choice
import SimplexMethod.Proofs.Tableau.Choice

/-!
# Ties in the choice of a pivot

Several columns may have the least relative cost and several rows the least ratio. The method then
takes the one of least index, so that the choice of a pivot is determined by the tableau
(`Aligned.pivot_determined`). Both the columns that may enter and the rows that limit a column are
listed by increasing index (`ascending_profitable`, `ascending_ratios`), and both choices are passes
over such a list. All that is needed of the tableau is that its rows fit together; whether a column
counts as basic is read off its mark.
-/

set_option autoImplicit false

namespace SimplexMethod

/-- The place that a rule looks for, where indices carry costs. -/
def PivotRule.Prefers (rule : PivotRule) (Carries : Nat → ℚ → Prop) (j : Nat) (cost : ℚ) : Prop :=
  match rule with
  | first => Carries j cost ∧ ∀ k other, Carries k other → j ≤ k
  | steepest => FirstLeast Carries j cost

theorem PivotRule.choose_eq_some_iff {rule : PivotRule} {columns : List (Nat × ℚ)}
    (hcolumns : Ascending columns) {j : Nat} {cost : ℚ} :
    rule.choose columns = some (j, cost) ↔
      rule.Prefers (fun k other => (k, other) ∈ columns) j cost := by
  cases rule with
  | first => exact head?_eq_some_iff hcolumns
  | steepest => exact firstLeast?_eq_some_iff hcolumns

namespace Tableau

variable {t : Tableau ℚ} {tolerance threshold : ℚ} {column : List ℚ} {i j row : Nat}
  {cost ratio : ℚ}

/-! ## Columns -/

/-- The column may enter at the cost: it is structural and not marked as basic, and its relative
cost is below minus the tolerance. -/
structure Candidate (t : Tableau ℚ) (tolerance : ℚ) (j : Nat) (cost : ℚ) : Prop where
  structural : j < t.structuralCount
  unmarked : t.isMarked j = false
  relativeCost?_eq : t.relativeCost? j = some cost
  cost_lt : cost < -tolerance

theorem Aligned.mem_profitable_iff (h : t.Aligned) :
    (j, cost) ∈ t.profitable tolerance ↔ t.Candidate tolerance j cost := by
  rw [Tableau.mem_profitable_iff, openColumns, List.mem_filter, List.mem_range,
    Bool.not_eq_true']
  constructor
  · rintro ⟨⟨hstructural, hmark⟩, rfl, hless⟩
    exact ⟨hstructural, hmark, h.relativeCost?_eq (hstructural.le.trans structuralCount_le), hless⟩
  · rintro ⟨hstructural, hmark, hread, hless⟩
    rw [h.relativeCost?_eq (hstructural.le.trans structuralCount_le), Option.some.injEq] at hread
    exact ⟨⟨hstructural, hmark⟩, hread.symm, hless⟩

theorem ascending_profitable : Ascending (t.profitable tolerance) := by
  have hopen : t.openColumns.Pairwise (· < ·) := List.pairwise_lt_range.filter _
  apply List.Pairwise.filter
  rw [List.pairwise_map]
  exact hopen

/-! ## Rows -/

/-- The row limits the entering variable to the ratio: its entry in the column is above the
threshold, and the ratio is that of the value of the row to the entry. -/
def Limits (t : Tableau ℚ) (column : List ℚ) (threshold : ℚ) (i : Nat) (ratio : ℚ) : Prop :=
  ∃ entry value, column[i]? = some entry ∧ threshold < entry ∧ t.value? i = some value ∧
    ratio = value / entry

/-- The threshold in force: the tolerance if an entry of the column is above it, and zero if none
is. -/
def thresholdFor (tolerance : ℚ) (column : List ℚ) : ℚ :=
  if ∃ entry ∈ column, tolerance < entry then tolerance else 0

theorem Aligned.mem_ratios_iff (h : t.Aligned) (hlen : column.length = t.rowCount) :
    (i, ratio) ∈ t.ratios column threshold ↔ t.Limits column threshold i ratio := by
  have hvalue {entry : ℚ} (hentry : column[i]? = some entry) :
      t.value? i = some (t.value i) := by
    apply h.value?_eq
    rw [← hlen]
    exact (List.getElem?_eq_some_iff.1 hentry).1
  rw [Tableau.mem_ratios_iff]
  constructor
  · rintro ⟨entry, hentry, hthreshold, rfl⟩
    exact ⟨entry, _, hentry, hthreshold, hvalue hentry, rfl⟩
  · rintro ⟨entry, value, hentry, hthreshold, hread, rfl⟩
    rw [hvalue hentry, Option.some.injEq] at hread
    exact ⟨entry, hentry, hthreshold, by rw [hread]⟩

theorem ascending_ratios : Ascending (t.ratios column threshold) := by
  have hindices : (column.zipIdx.map Prod.snd).Pairwise (· < ·) := by
    rw [List.zipIdx_map_snd]
    exact List.pairwise_lt_range'
  rw [List.pairwise_map] at hindices
  rw [Ascending, ratios, List.pairwise_map]
  exact hindices.filter _

/-- The row of least ratio is the first one with that ratio. -/
theorem Aligned.leastRatioRow_eq_some_iff (h : t.Aligned) (hlen : column.length = t.rowCount) :
    t.leastRatioRow column threshold = some row ↔
      ∃ ratio, FirstLeast (t.Limits column threshold) row ratio := by
  have hlimits : (fun i ratio => (i, ratio) ∈ t.ratios column threshold) =
      t.Limits column threshold := by
    funext i ratio
    exact propext (h.mem_ratios_iff hlen)
  rw [leastRatioRow, Option.map_eq_some_iff]
  constructor
  · rintro ⟨⟨k, ratio⟩, hleast, rfl⟩
    rw [firstLeast?_eq_some_iff ascending_ratios, hlimits] at hleast
    exact ⟨ratio, hleast⟩
  · rintro ⟨ratio, hleast⟩
    rw [← hlimits, ← firstLeast?_eq_some_iff ascending_ratios] at hleast
    exact ⟨(row, ratio), hleast, rfl⟩

theorem leastRatioRow_eq_none_iff :
    t.leastRatioRow column threshold = none ↔ ∀ entry ∈ column, entry ≤ threshold := by
  rw [leastRatioRow, Option.map_eq_none_iff, firstLeast?, survivor?_eq_none_iff, ratios,
    List.map_eq_nil_iff, List.filter_eq_nil_iff]
  constructor
  · intro hnone entry hentry
    obtain ⟨i, hi⟩ := List.mem_iff_getElem?.1 hentry
    have hnot := hnone (entry, i) (List.mk_mem_zipIdx_iff_getElem?.2 hi)
    simpa using hnot
  · rintro hle ⟨entry, i⟩ hplace
    have hnot := hle entry (List.fst_mem_of_mem_zipIdx hplace)
    simpa using hnot

/-- The two passes of the choice look at one class of rows: the second is made only when the first
finds no row. -/
theorem leavingRow_eq_leastRatioRow : t.leavingRow column tolerance =
    t.leastRatioRow column (thresholdFor tolerance column) := by
  rw [leavingRow, thresholdFor]
  split
  · next habove =>
    obtain ⟨entry, hentry, hlt⟩ := habove
    cases hleast : t.leastRatioRow column tolerance with
    | none => exact absurd (leastRatioRow_eq_none_iff.1 hleast entry hentry) hlt.not_ge
    | some row => rfl
  · next hnone =>
    have hfirst : t.leastRatioRow column tolerance = none := by
      rw [leastRatioRow_eq_none_iff]
      intro entry hentry
      exact not_lt.1 fun hlt => hnone ⟨entry, hentry, hlt⟩
    rw [hfirst, Option.none_or]

/-- Nothing limits the entering variable just when no entry of its column is positive. -/
theorem leavingRow_eq_none_iff (htolerance : 0 ≤ tolerance) :
    t.leavingRow column tolerance = none ↔ ∀ entry ∈ column, entry ≤ 0 := by
  rw [leavingRow, Option.or_eq_none_iff, leastRatioRow_eq_none_iff, leastRatioRow_eq_none_iff]
  constructor
  · exact fun hnone => hnone.2
  · intro hle
    exact ⟨fun entry hentry => (hle entry hentry).trans htolerance, hle⟩

/-! ## Pivots -/

/-- At every tableau whose rows fit together, and for every tolerance that is not negative, both
choices have a value, and it is determined. A rule finds no column just when no column may enter;
otherwise it takes the first one, or the first one of least relative cost, with its cost. For a
column of the right length no row is found just when no entry is positive; otherwise it is the first
row of least ratio, among those with entries above the tolerance if there are any, and else among
all those with positive entries. -/
theorem Aligned.pivot_determined (h : t.Aligned) (htolerance : 0 ≤ tolerance) :
    (∀ rule : PivotRule, ∃ choice, rule.entering? t tolerance = some choice ∧
      (choice = none ↔ ∀ j cost, ¬ t.Candidate tolerance j cost) ∧
      ∀ j cost, choice = some (j, cost) ↔ rule.Prefers (t.Candidate tolerance) j cost) ∧
    ∀ column : List ℚ, column.length = t.rowCount →
      ∃ choice, t.leavingRow? column tolerance = some choice ∧
        (choice = none ↔ ∀ entry ∈ column, entry ≤ 0) ∧
        ∀ row, choice = some row ↔
          ∃ ratio, FirstLeast (t.Limits column (thresholdFor tolerance column)) row ratio := by
  have hcandidates : (fun j cost => (j, cost) ∈ t.profitable tolerance) =
      t.Candidate tolerance := by
    funext j cost
    exact propext h.mem_profitable_iff
  constructor
  · intro rule
    refine ⟨_, h.entering?_eq, ?_, fun j cost => ?_⟩
    · rw [PivotRule.choose_eq_none_iff, List.eq_nil_iff_forall_not_mem, Prod.forall]
      simp only [h.mem_profitable_iff]
    · rw [PivotRule.choose_eq_some_iff ascending_profitable, hcandidates]
  · intro column hlen
    refine ⟨_, h.leavingRow?_eq hlen, leavingRow_eq_none_iff htolerance, fun row => ?_⟩
    rw [leavingRow_eq_leastRatioRow, h.leastRatioRow_eq_some_iff hlen]

/-- A tableau with two columns of least relative cost. In the second column both rows have the same
ratio, and so they have in the third one, where no entry is above 1/2. -/
def tied : Tableau ℚ :=
  ofBasis ⟨[[-1, -2, -2, 0, 0, 0], [1/4, 1, 1/4, 1, 0, 1], [2, 2, 1/2, 0, 1, 2]], 6⟩ [3, 4] 0

/-- With the tolerance 1/2 the earlier ones of the tied columns and rows are chosen. -/
theorem Aligned.pivot_determined_tied :
    (0 : ℚ) ≤ 1/2 ∧ tied.Aligned ∧
      PivotRule.steepest.entering? tied (1/2) = some (some (1, -2)) ∧
      FirstLeast (tied.Candidate (1/2)) 1 (-2) ∧
      tied.leavingRow? [1, 2] (1/2) = some (some 0) ∧
      (∃ ratio, FirstLeast (tied.Limits [1, 2] (1/2)) 0 ratio) ∧
      tied.leavingRow? [1/4, 1/2] (1/2) = some (some 0) ∧
      ∃ ratio, FirstLeast (tied.Limits [1/4, 1/2] 0) 0 ratio := by
  have htolerance : (0 : ℚ) ≤ 1/2 := by norm_num
  have haligned : tied.Aligned :=
    ⟨rfl, Nat.succ_pos _, by simp [RowMatrix.Rectangular, tied, ofBasis]⟩
  have hentering : PivotRule.steepest.entering? tied (1/2) = some (some (1, -2)) := by
    decide +kernel
  have hleaving : tied.leavingRow? [1, 2] (1/2) = some (some 0) := by decide +kernel
  have hfallback : tied.leavingRow? [1/4, 1/2] (1/2) = some (some 0) := by decide +kernel
  have hthreshold : thresholdFor (1/2) [1, 2] = 1/2 := by decide +kernel
  have hzero : thresholdFor (1/2) [1/4, 1/2] = 0 := by decide +kernel
  obtain ⟨hcolumns, hrows⟩ := haligned.pivot_determined htolerance
  obtain ⟨_, hchoice, -, hprefers⟩ := hcolumns .steepest
  obtain rfl := Option.some.inj (hentering.symm.trans hchoice)
  obtain ⟨_, hrow, -, hleast⟩ := hrows [1, 2] rfl
  obtain rfl := Option.some.inj (hleaving.symm.trans hrow)
  obtain ⟨_, hlast, -, hleast'⟩ := hrows [1/4, 1/2] rfl
  obtain rfl := Option.some.inj (hfallback.symm.trans hlast)
  rw [hthreshold] at hleast
  rw [hzero] at hleast'
  exact ⟨htolerance, haligned, hentering, (hprefers _ _).1 rfl, hleaving, (hleast 0).1 rfl,
    hfallback, (hleast' 0).1 rfl⟩

end Tableau

end SimplexMethod
