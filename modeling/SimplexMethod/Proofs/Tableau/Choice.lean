import Mathlib.Tactic
import SimplexMethod.Proofs.Tableau.WellFormed
import SimplexMethod.TwoPhase.Feasibility

/-!
# Choosing a pivot never fails

At a well-formed tableau every reading operation that goes into the choice of a pivot has a value,
whatever the scalars are, and so have the choices themselves: the move of a descent
(`WellFormed.move?_eq`) and the replacement of an artificial variable
(`WellFormed.replacement?_eq`). A pivot that is chosen can be made: its column is structural and
not basic, and its row is one of the constraint rows (`WellFormed.pivot_bounds`).
-/

set_option autoImplicit false

namespace SimplexMethod

variable {F : Type} [Scalar F]

/-- The column that a rule chooses among columns with their relative costs. -/
def PivotRule.choose (rule : PivotRule) (columns : List (Nat × F)) : Option (Nat × F) :=
  match rule with
  | first => columns.head?
  | steepest => firstLeast? Prod.snd columns

theorem PivotRule.mem_of_choose {rule : PivotRule} {columns : List (Nat × F)} {column : Nat × F}
    (h : rule.choose columns = some column) : column ∈ columns := by
  cases rule with
  | first => exact List.mem_of_head? h
  | steepest => exact mem_of_survivor? h

theorem PivotRule.choose_eq_none_iff {rule : PivotRule} {columns : List (Nat × F)} :
    rule.choose columns = none ↔ columns = [] := by
  cases rule with
  | first => exact List.head?_eq_none_iff
  | steepest => exact survivor?_eq_none_iff

namespace Tableau

variable {t : Tableau F} {rule : PivotRule} {tolerance threshold : F} {column : List F}
  {entering row i j : Nat}

/-! ## Values of the choices -/

/-- The open columns whose relative cost is below minus the tolerance, each with that cost; the
value of `profitable?`. -/
def profitable (t : Tableau F) (tolerance : F) : List (Nat × F) :=
  (t.openColumns.map fun j => (j, t.relativeCost j)).filter fun column => column.2 < -tolerance

/-- The entries of the constraint rows in a column; the value of `column?`. -/
def columnOf (t : Tableau F) (j : Nat) : List F := (List.range t.rowCount).map (t.entry · j)

/-- The rows with an entry above the threshold, each with its ratio. -/
def ratios (t : Tableau F) (column : List F) (threshold : F) : List (Nat × F) :=
  (column.zipIdx.filter fun entry => threshold < entry.1).map fun entry =>
    (entry.2, t.value entry.2 / entry.1)

/-- The first row of least ratio; the value of `leastRatioRow?`. -/
def leastRatioRow (t : Tableau F) (column : List F) (threshold : F) : Option Nat :=
  (firstLeast? Prod.snd (t.ratios column threshold)).map Prod.fst

/-- The row to pivot in; the value of `leavingRow?`. -/
def leavingRow (t : Tableau F) (column : List F) (tolerance : F) : Option Nat :=
  (t.leastRatioRow column tolerance).or (t.leastRatioRow column 0)

/-- The move at a tableau; the value of `move?`. -/
def move (t : Tableau F) (rule : PivotRule) (tolerance : F) : Move F :=
  match rule.choose (t.profitable tolerance) with
  | none => .stay
  | some (entering, _) =>
    match t.leavingRow (t.columnOf entering) tolerance with
    | none => .fall entering (t.columnOf entering)
    | some row => .pivot entering row

/-- The first open column with an entry in a row that is not negligible; the value of
`replacement?`. -/
def replacement (t : Tableau F) (row : Nat) (tolerance : F) : Option Nat :=
  t.openColumns.find? fun j => ¬ Scalar.Negligible tolerance (t.entry row j)

theorem length_columnOf : (t.columnOf j).length = t.rowCount :=
  (List.length_map _).trans List.length_range

theorem columnOf_getElem?_eq_some_iff {entry : F} :
    (t.columnOf j)[i]? = some entry ↔ i < t.rowCount ∧ entry = t.entry i j := by
  rw [columnOf, List.getElem?_map]
  constructor
  · intro hget
    obtain ⟨k, hk, heq⟩ := Option.map_eq_some_iff.1 hget
    obtain ⟨hlt, rfl⟩ := List.getElem?_eq_some_iff.1 hk
    rw [List.getElem_range] at heq
    exact ⟨List.length_range (n := t.rowCount) ▸ hlt, heq.symm⟩
  · rintro ⟨hlt, rfl⟩
    rw [List.getElem?_range hlt, Option.map_some]

/-- The profitable columns are the open ones whose relative cost is below minus the tolerance. -/
theorem mem_profitable_iff {cost : F} : (j, cost) ∈ t.profitable tolerance ↔
    j ∈ t.openColumns ∧ cost = t.relativeCost j ∧ cost < -tolerance := by
  rw [profitable, List.mem_filter, List.mem_map, decide_eq_true_eq]
  constructor
  · rintro ⟨⟨k, hk, heq⟩, hcost⟩
    cases heq
    exact ⟨hk, rfl, hcost⟩
  · rintro ⟨hopen, rfl, hcost⟩
    exact ⟨⟨j, hopen, rfl⟩, hcost⟩

/-- The rows that limit a column are those with an entry above the threshold. -/
theorem mem_ratios_iff {ratio : F} : (i, ratio) ∈ t.ratios column threshold ↔
    ∃ entry, column[i]? = some entry ∧ threshold < entry ∧ ratio = t.value i / entry := by
  rw [ratios, List.mem_map]
  constructor
  · rintro ⟨⟨entry, k⟩, hplace, heq⟩
    cases heq
    obtain ⟨hin, hthreshold⟩ := List.mem_filter.1 hplace
    exact ⟨entry, List.mk_mem_zipIdx_iff_getElem?.1 hin, of_decide_eq_true hthreshold, rfl⟩
  · rintro ⟨entry, hentry, hthreshold, rfl⟩
    refine ⟨(entry, i), List.mem_filter.2 ⟨?_, decide_eq_true hthreshold⟩, rfl⟩
    exact List.mk_mem_zipIdx_iff_getElem?.2 hentry

theorem mem_ratios_columnOf_iff {ratio : F} :
    (i, ratio) ∈ t.ratios (t.columnOf entering) threshold ↔
      i < t.rowCount ∧ threshold < t.entry i entering ∧
        ratio = t.value i / t.entry i entering := by
  rw [mem_ratios_iff]
  constructor
  · rintro ⟨entry, hentry, hthreshold, rfl⟩
    obtain ⟨hlt, rfl⟩ := columnOf_getElem?_eq_some_iff.1 hentry
    exact ⟨hlt, hthreshold, rfl⟩
  · rintro ⟨hlt, hthreshold, rfl⟩
    exact ⟨_, columnOf_getElem?_eq_some_iff.2 ⟨hlt, rfl⟩, hthreshold, rfl⟩

theorem row_lt_of_leastRatioRow (hlen : column.length = t.rowCount)
    (h : t.leastRatioRow column threshold = some row) : row < t.rowCount := by
  obtain ⟨ratio, hleast, rfl⟩ := Option.map_eq_some_iff.1 h
  obtain ⟨place, hplace, rfl⟩ := List.mem_map.1 (mem_of_survivor? hleast)
  have hlt := (List.mem_zipIdx (List.mem_filter.1 hplace).1).2.1
  rwa [Nat.zero_add, hlen] at hlt

theorem row_lt_of_leavingRow (hlen : column.length = t.rowCount)
    (h : t.leavingRow column tolerance = some row) : row < t.rowCount := by
  rcases Option.or_eq_some_iff.1 h with h | ⟨-, h⟩
  · exact row_lt_of_leastRatioRow hlen h
  · exact row_lt_of_leastRatioRow hlen h

namespace Aligned

theorem profitable?_eq (h : t.Aligned) :
    t.profitable? tolerance = some (t.profitable tolerance) := by
  have hpriced : (t.openColumns.mapM fun j => do return (j, ← t.relativeCost? j)) =
      some (t.openColumns.map fun j => (j, t.relativeCost j)) := by
    apply mapM_eq_some_map
    intro j hj
    have hlt := List.mem_range.1 (List.mem_filter.1 hj).1
    rw [h.relativeCost?_eq (hlt.le.trans structuralCount_le)]
    rfl
  rw [profitable?, hpriced]
  rfl

theorem entering?_eq (h : t.Aligned) :
    rule.entering? t tolerance = some (rule.choose (t.profitable tolerance)) := by
  rw [PivotRule.entering?, h.profitable?_eq]
  cases rule <;> rfl

theorem leastRatioRow?_eq (h : t.Aligned) (hlen : column.length = t.rowCount) :
    t.leastRatioRow? column threshold = some (t.leastRatioRow column threshold) := by
  rw [leastRatioRow?, mapM_eq_some_map (g := fun place => (place.2, t.value place.2 / place.1))]
  · rfl
  · intro place hplace
    have hlt := (List.mem_zipIdx (List.mem_filter.1 hplace).1).2.1
    rw [Nat.zero_add, hlen] at hlt
    dsimp only
    rw [h.value?_eq hlt]
    rfl

theorem leavingRow?_eq (h : t.Aligned) (hlen : column.length = t.rowCount) :
    t.leavingRow? column tolerance = some (t.leavingRow column tolerance) := by
  rw [leavingRow?, leavingRow, h.leastRatioRow?_eq hlen]
  cases hpreferred : t.leastRatioRow column tolerance with
  | some row => simp
  | none => simp [h.leastRatioRow?_eq hlen]

end Aligned

namespace WellFormed

theorem lt_of_choose (h : t.WellFormed) {cost : F}
    (hchoice : rule.choose (t.profitable tolerance) = some (entering, cost)) :
    entering < t.structuralCount ∧ entering ∉ t.basis := by
  obtain ⟨j, hj, heq⟩ := List.mem_map.1 (List.mem_filter.1 (PivotRule.mem_of_choose hchoice)).1
  cases heq
  exact h.mem_openColumns_iff.1 hj

theorem move?_eq (h : t.WellFormed) : t.move? rule tolerance = some (t.move rule tolerance) := by
  rw [move?, move, h.aligned.entering?_eq]
  simp only [Option.bind_eq_bind, Option.bind_some]
  cases hchoice : rule.choose (t.profitable tolerance) with
  | none => rfl
  | some column =>
    obtain ⟨entering, cost⟩ := column
    -- The column that is chosen is there, and so are the values of its rows.
    have hle := (h.lt_of_choose hchoice).1.le.trans structuralCount_le
    simp only [h.column?_eq hle, Option.bind_some]
    rw [← columnOf, h.aligned.leavingRow?_eq length_columnOf]
    simp only [Option.bind_some]
    cases t.leavingRow (t.columnOf entering) tolerance <;> rfl

/-- The column and the row of a pivot are there. -/
theorem pivot_bounds (h : t.WellFormed) (hmove : t.move rule tolerance = .pivot entering row) :
    entering < t.structuralCount ∧ entering ∉ t.basis ∧ row < t.rowCount := by
  rw [move] at hmove
  split at hmove
  · cases hmove
  · next column cost hchoice =>
    split at hmove
    · cases hmove
    · next hrow =>
      cases hmove
      obtain ⟨hlt, hnew⟩ := h.lt_of_choose hchoice
      exact ⟨hlt, hnew, row_lt_of_leavingRow length_columnOf hrow⟩

/-- The column that nothing limits is there. -/
theorem fall_bound (h : t.WellFormed) (hmove : t.move rule tolerance = .fall entering column) :
    entering < t.structuralCount := by
  rw [move] at hmove
  split at hmove
  · cases hmove
  · next hchoice =>
    split at hmove
    · cases hmove
      exact (h.lt_of_choose hchoice).1
    · cases hmove

theorem replacement?_eq (h : t.WellFormed) (hrow : row < t.rowCount) :
    t.replacement? row tolerance = some (t.replacement row tolerance) := by
  have hentries : (t.openColumns.mapM fun j => do return (j, ← t.entry? row j)) =
      some (t.openColumns.map fun j => (j, t.entry row j)) := by
    apply mapM_eq_some_map
    intro j hj
    have hlt := (h.mem_openColumns_iff.1 hj).1
    rw [h.entry?_eq hrow (hlt.le.trans structuralCount_le)]
    rfl
  rw [replacement?, replacement, hentries]
  simp only [Option.bind_eq_bind, Option.bind_some, List.find?_map, Option.map_map]
  congr 1
  simp [Function.comp_def]

/-- A replacement is an open column with an entry that is not negligible. -/
theorem replacement_bounds (h : t.WellFormed) (hchoice : t.replacement row tolerance = some j) :
    j < t.structuralCount ∧ j ∉ t.basis ∧ ¬ Scalar.Negligible tolerance (t.entry row j) := by
  obtain ⟨hlt, hnew⟩ := h.mem_openColumns_iff.1 (List.mem_of_find?_eq_some hchoice)
  exact ⟨hlt, hnew, by simpa using List.find?_some hchoice⟩

/-- There is no replacement only when all open columns have negligible entries. -/
theorem negligible_of_replacement (h : t.WellFormed) (hchoice : t.replacement row tolerance = none)
    (hj : j < t.structuralCount) (hnew : j ∉ t.basis) :
    Scalar.Negligible tolerance (t.entry row j) := by
  have hnone := List.find?_eq_none.1 hchoice j (h.mem_openColumns_iff.2 ⟨hj, hnew⟩)
  simpa using hnone

end WellFormed

end Tableau

end SimplexMethod
