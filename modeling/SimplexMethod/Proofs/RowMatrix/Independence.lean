import Mathlib.LinearAlgebra.Matrix.Rank
import Mathlib.Tactic
import SimplexMethod.Proofs.RowMatrix.Span
import SimplexMethod.RowMatrix.Independence

/-!
# Independent rows

The selection of independent rows never fails, whatever the scalars are
(`exists_independentRows?`). Over the rationals and with tolerance zero it says that a system is
inconsistent only when the equation `0 = c` with a nonzero `c` follows from it, and otherwise the
equations at the positions it keeps imply all others, and there are as many of them as the rank of
the matrix says (`independentRows?_cases`).

The invariant is `Selects`. The rows kept so far are reduced: each vanishes at the pivots of the
earlier ones (`Echelon`), so their coefficients are independent (`Echelon.linearIndependent`).
They span the same equations as all rows passed so far, and so do the given rows at their positions.
-/

set_option autoImplicit false

namespace SimplexMethod

variable {F : Type}

namespace RowMatrix

/-! ## Reduction -/

section Reduction

variable [Scalar F] {tolerance : F} {columns : Nat} {row : List F} {kept : List (KeptRow F)}

/-- The row after its entry in the pivot column of a kept row has been cleared; the value of
`reduce?` for rows of one length. -/
def KeptRow.reduce (kept : KeptRow F) (row : List F) : List F :=
  let factor := coeff row kept.pivot / coeff kept.entries kept.pivot
  if factor == 0 then row
  else List.zipWith (fun target source => target - factor * source) row kept.entries

/-- The row after reduction by all kept rows. -/
def reduceAll (kept : List (KeptRow F)) (row : List F) : List F :=
  kept.foldl (fun entries earlier => earlier.reduce entries) row

/-- The kept rows are as long as an equation and have their pivots among the coefficients. -/
def Fits (columns : Nat) (kept : List (KeptRow F)) : Prop :=
  ∀ k ∈ kept, k.entries.length = columns + 1 ∧ k.pivot < columns

theorem KeptRow.length_reduce {kept : KeptRow F} (h : kept.entries.length = row.length) :
    (kept.reduce row).length = row.length := by
  unfold reduce
  dsimp only
  split
  · rfl
  · rw [List.length_zipWith, h, Nat.min_self]

theorem KeptRow.reduce?_eq {kept : KeptRow F} (h : kept.entries.length = row.length)
    (hpivot : kept.pivot < row.length) : kept.reduce? row = some (kept.reduce row) := by
  have hrow := getElem?_eq_coeff hpivot
  have hentry : kept.entries[kept.pivot]? = some (coeff kept.entries kept.pivot) :=
    getElem?_eq_coeff (h ▸ hpivot)
  by_cases hzero : (coeff row kept.pivot / coeff kept.entries kept.pivot == 0) = true
  · simp [reduce?, reduce, hrow, hentry, hzero]
  · simp [reduce?, reduce, hrow, hentry, hzero, h]

theorem length_reduceAll (hkept : Fits columns kept) (hrow : row.length = columns + 1) :
    (reduceAll kept row).length = columns + 1 := by
  induction kept generalizing row with
  | nil => exact hrow
  | cons k kept ih =>
    obtain ⟨hk, hkept⟩ := List.forall_mem_cons.1 hkept
    exact ih hkept ((KeptRow.length_reduce (hk.1.trans hrow.symm)).trans hrow)

theorem reduceAll?_eq (hkept : Fits columns kept) (hrow : row.length = columns + 1) :
    kept.foldlM (fun entries earlier => earlier.reduce? entries) row =
      some (reduceAll kept row) := by
  induction kept generalizing row with
  | nil => rfl
  | cons k kept ih =>
    obtain ⟨⟨hlength, hpivot⟩, hkept⟩ := List.forall_mem_cons.1 hkept
    have hsame := hlength.trans hrow.symm
    rw [List.foldlM_cons, KeptRow.reduce?_eq hsame (by omega)]
    exact ih hkept ((KeptRow.length_reduce hsame).trans hrow)

/-- The pivot of a row is one of its coefficients that are not negligible, if it has any. -/
theorem largestColumn?_cases (tolerance : F) (hrow : columns ≤ row.length) :
    ∃ choice, largestColumn? tolerance columns row = some choice ∧
      (∀ j, choice = some j → j < columns ∧ ¬ Scalar.Negligible tolerance (coeff row j)) ∧
      (choice = none → ∀ j < columns, Scalar.Negligible tolerance (coeff row j)) := by
  have hmem (place : F × Nat) : place ∈ (row.take columns).zipIdx ↔
      place.2 < columns ∧ place.1 = coeff row place.2 := by
    rw [List.mem_zipIdx_iff_getElem?, List.getElem?_take]
    constructor
    · intro h
      split at h
      · next hlt =>
        rw [getElem?_eq_coeff (hlt.trans_le hrow), Option.some.injEq] at h
        exact ⟨hlt, h.symm⟩
      · cases h
    · rintro ⟨hlt, heq⟩
      rw [if_pos hlt, getElem?_eq_coeff (hlt.trans_le hrow), heq]
  rw [largestColumn?, if_neg (by omega)]
  refine ⟨_, rfl, ?_, ?_⟩
  · intro j hj
    obtain ⟨place, hplace, rfl⟩ := Option.map_eq_some_iff.1 hj
    obtain ⟨hin, hlarge⟩ := List.mem_filter.1 (mem_of_survivor? hplace)
    obtain ⟨hlt, heq⟩ := (hmem place).1 hin
    rw [heq] at hlarge
    exact ⟨hlt, by simpa using hlarge⟩
  · intro hnone j hj
    have hnil := survivor?_eq_none_iff.1 (Option.map_eq_none_iff.1 hnone)
    have hin := (hmem (coeff row j, j)).2 ⟨hj, rfl⟩
    simpa using List.filter_eq_nil_iff.1 hnil _ hin

/-- The selection never fails, and the rows it keeps fit. -/
theorem exists_keepFrom? {rest : List (List F × Nat)} (hkept : Fits columns kept)
    (hrest : ∀ place ∈ rest, place.1.length = columns + 1) :
    ∃ result, keepFrom? tolerance columns rest kept = some result := by
  induction rest generalizing kept with
  | nil => exact ⟨_, rfl⟩
  | cons place rest ih =>
    obtain ⟨row, position⟩ := place
    obtain ⟨hrow, hrest⟩ := List.forall_mem_cons.1 hrest
    have hlength : (reduceAll kept row).length = columns + 1 := length_reduceAll hkept hrow
    obtain ⟨choice, hchoice, hsome, -⟩ := largestColumn?_cases tolerance
      (show columns ≤ (reduceAll kept row).length by omega)
    have hvalue : (reduceAll kept row)[columns]? = some (coeff (reduceAll kept row) columns) :=
      getElem?_eq_coeff (by omega)
    simp only [keepFrom?, reduceAll?_eq hkept hrow, Option.bind_eq_bind, Option.bind_some, hchoice]
    cases choice with
    | some pivot =>
      refine ih (fun k hk => ?_) hrest
      rcases List.mem_append.1 hk with hk | hk
      · exact hkept k hk
      · obtain rfl := List.mem_singleton.1 hk
        exact ⟨hlength, (hsome pivot rfl).1⟩
    | none =>
      simp only [hvalue, Option.bind_some]
      split
      · exact ih hkept hrest
      · exact ⟨_, rfl⟩

/-- The rows that are kept stand where given rows stand. The induction is on the rows that are
left. -/
theorem position_of_keepFrom? {P : Nat → Prop} {rest : List (List F × Nat)}
    {result : List (KeptRow F)} (hkept : ∀ k ∈ kept, P k.position)
    (hrest : ∀ place ∈ rest, P place.2)
    (h : keepFrom? tolerance columns rest kept = some (some result)) :
    ∀ k ∈ result, P k.position := by
  induction rest generalizing kept with
  | nil =>
    cases Option.some.inj (Option.some.inj h)
    exact hkept
  | cons place rest ih =>
    obtain ⟨hplace, hrest⟩ := List.forall_mem_cons.1 hrest
    rw [keepFrom?] at h
    obtain ⟨entries, -, h⟩ := Option.bind_eq_some_iff.1 h
    obtain ⟨choice, -, h⟩ := Option.bind_eq_some_iff.1 h
    cases choice with
    | some pivot =>
      refine ih (fun k hk => ?_) hrest h
      rcases List.mem_append.1 hk with hk | hk
      · exact hkept k hk
      · rwa [List.mem_singleton.1 hk]
    | none =>
      obtain ⟨value, -, h⟩ := Option.bind_eq_some_iff.1 h
      split at h
      · exact ih hkept hrest h
      · cases Option.some.inj h

/-- The rows of a system are all considered, and the selection gives the positions of those that are
kept. -/
theorem Rectangular.exists_keepFrom? {m : RowMatrix F} (h : m.Rectangular) (rhs : List F)
    (tolerance : F) :
    ∃ result, keepFrom? tolerance m.columns (m.augmented rhs).zipIdx [] = some result ∧
      m.independentRows? rhs tolerance =
        some (result.map fun rows => rows.map KeptRow.position) := by
  have hnone : Fits m.columns ([] : List (KeptRow F)) := nofun
  have hlength : ∀ place ∈ (m.augmented rhs).zipIdx, place.1.length = m.columns + 1 :=
    fun place hplace => h.length_of_mem_augmented (List.fst_mem_of_mem_zipIdx hplace)
  obtain ⟨result, hresult⟩ : ∃ result,
      keepFrom? tolerance m.columns (m.augmented rhs).zipIdx [] = some result :=
    RowMatrix.exists_keepFrom? hnone hlength
  refine ⟨result, hresult, ?_⟩
  rw [augmented] at hresult
  rw [independentRows?, hresult]
  rfl

/-- The selection of independent rows never fails, and it selects rows of the matrix. -/
theorem exists_independentRows? (tolerance : F) {m : RowMatrix F} {rhs : List F}
    (h : m.Rectangular) (hrhs : rhs.length = m.rowCount) :
    ∃ result, m.independentRows? rhs tolerance = some result ∧
      ∀ positions, result = some positions → ∀ i ∈ positions, i < m.rowCount := by
  obtain ⟨result, hresult, hrows⟩ := h.exists_keepFrom? rhs tolerance
  refine ⟨_, hrows, fun positions heq i hi => ?_⟩
  obtain ⟨kept, rfl, rfl⟩ := Option.map_eq_some_iff.1 heq
  obtain ⟨k, hk, rfl⟩ := List.mem_map.1 hi
  refine position_of_keepFrom? (P := (· < m.rowCount)) (List.forall_mem_nil _)
    (fun place hplace => ?_) hresult k hk
  exact (List.snd_lt_of_mem_zipIdx hplace).trans_eq (length_augmented hrhs)

end Reduction

/-! ## Exact reduction -/

section Exact

variable {n : Nat} {row : List ℚ} {kept : List (KeptRow ℚ)}

/-- The kept rows, in the order in which they were kept, vanish at the pivots of those before
them, but not at their own. -/
structure Echelon (n : Nat) (kept : List (KeptRow ℚ)) : Prop where
  fits : Fits n kept
  pivot_ne_zero : ∀ k ∈ kept, coeff k.entries k.pivot ≠ 0
  cleared : kept.Pairwise fun earlier later => coeff later.entries earlier.pivot = 0

theorem KeptRow.coeff_reduce {k : KeptRow ℚ} (h : k.entries.length = row.length) :
    coeff (k.reduce row) =
      coeff row - (coeff row k.pivot / coeff k.entries k.pivot) • coeff k.entries := by
  funext j
  rw [Pi.sub_apply, Pi.smul_apply, smul_eq_mul]
  unfold reduce
  dsimp only
  split
  · next hzero =>
    rw [beq_iff_eq] at hzero
    rw [hzero]
    ring
  · rw [coeff_zipWith (by ring) h.symm]

/-- Reduction takes a combination of the kept rows off a row. -/
theorem reduceAll_sub_mem (hkept : Fits n kept) (hrow : row.length = n + 1) :
    coeff (reduceAll kept row) - coeff row ∈ rowSpan (kept.map KeptRow.entries) := by
  induction kept generalizing row with
  | nil => simp [reduceAll]
  | cons k kept ih =>
    obtain ⟨⟨hlength, hpivot⟩, hkept⟩ := List.forall_mem_cons.1 hkept
    have hsame := hlength.trans hrow.symm
    have hmono : rowSpan (kept.map KeptRow.entries) ≤
        rowSpan ((k :: kept).map KeptRow.entries) :=
      rowSpan_mono fun r hr => List.mem_cons_of_mem _ hr
    have hrest := hmono (ih hkept ((KeptRow.length_reduce hsame).trans hrow))
    have hfirst : coeff k.entries ∈ rowSpan ((k :: kept).map KeptRow.entries) :=
      coeff_mem_rowSpan List.mem_cons_self
    -- The first kept row takes a multiple of itself off, the others what the induction says.
    have hsum := Submodule.sub_mem _ hrest
      (Submodule.smul_mem _ (coeff row k.pivot / coeff k.entries k.pivot) hfirst)
    rw [KeptRow.coeff_reduce hsame] at hsum
    show coeff (reduceAll kept (k.reduce row)) - coeff row ∈ _
    convert hsum using 1
    abel

theorem Echelon.tail {k : KeptRow ℚ} (h : Echelon n (k :: kept)) : Echelon n kept :=
  ⟨(List.forall_mem_cons.1 h.fits).2, (List.forall_mem_cons.1 h.pivot_ne_zero).2,
    (List.pairwise_cons.1 h.cleared).2⟩

/-- The combinations of the later rows have nothing in the column that the first one cleared. -/
theorem Echelon.apply_pivot_eq_zero {k : KeptRow ℚ} (h : Echelon n (k :: kept)) {v : ℕ → ℚ}
    (hv : v ∈ rowSpan (kept.map KeptRow.entries)) : v k.pivot = 0 :=
  (forall_mem_rowSpan_iff (LinearMap.proj k.pivot)).2
    (List.forall_mem_map.2 (List.pairwise_cons.1 h.cleared).1) v hv

/-- A reduced row vanishes at all pivots. The row that clears a pivot column comes first, and the
later ones have nothing in that column. -/
theorem coeff_reduceAll_pivot (h : Echelon n kept) (hrow : row.length = n + 1) :
    ∀ k ∈ kept, coeff (reduceAll kept row) k.pivot = 0 := by
  induction kept generalizing row with
  | nil => nofun
  | cons k kept ih =>
    obtain ⟨⟨hlength, hpivot⟩, hfits⟩ := List.forall_mem_cons.1 h.fits
    have hne := h.pivot_ne_zero k List.mem_cons_self
    have hsame := hlength.trans hrow.symm
    have hrow' := (KeptRow.length_reduce hsame).trans hrow
    rw [List.forall_mem_cons]
    refine ⟨?_, ih h.tail hrow'⟩
    have hfirst : coeff (k.reduce row) k.pivot = 0 := by
      rw [KeptRow.coeff_reduce hsame, Pi.sub_apply, Pi.smul_apply, smul_eq_mul,
        div_mul_cancel₀ _ hne, sub_self]
    have hzero := h.apply_pivot_eq_zero (reduceAll_sub_mem hfits hrow')
    rw [Pi.sub_apply, hfirst, sub_zero] at hzero
    exact hzero

/-- A reduced row with a coefficient left extends the kept rows. -/
theorem Echelon.concat (h : Echelon n kept) (hrow : row.length = n + 1) {position pivot : Nat}
    (hpivot : pivot < n) (hne : coeff (reduceAll kept row) pivot ≠ 0) :
    Echelon n (kept ++ [{ position, pivot, entries := reduceAll kept row }]) where
  fits := by
    intro k hk
    rcases List.mem_append.1 hk with hk | hk
    · exact h.fits k hk
    · obtain rfl := List.mem_singleton.1 hk
      exact ⟨length_reduceAll h.fits hrow, hpivot⟩
  pivot_ne_zero := by
    intro k hk
    rcases List.mem_append.1 hk with hk | hk
    · exact h.pivot_ne_zero k hk
    · obtain rfl := List.mem_singleton.1 hk
      exact hne
  cleared := by
    refine List.pairwise_append.2 ⟨h.cleared, List.pairwise_singleton _ _, fun k hk later hl => ?_⟩
    obtain rfl := List.mem_singleton.1 hl
    exact coeff_reduceAll_pivot h hrow k hk

/-- The first `n` entries of a vector. -/
def restrict (n : Nat) : (ℕ → ℚ) →ₗ[ℚ] (Fin n → ℚ) := LinearMap.funLeft ℚ ℚ Fin.val

/-- The coefficients of the kept rows are independent: in a combination that vanishes, the factors
vanish one after the other, since at the pivot of a row only earlier rows contribute besides it. -/
theorem Echelon.linearIndependent (h : Echelon n kept) :
    LinearIndependent ℚ fun i : Fin kept.length => restrict n (coeff kept[i].entries) := by
  rw [Fintype.linearIndependent_iff]
  intro factors hsum i
  induction i using WellFoundedLT.induction with
  | ind i ih =>
    obtain ⟨hlength, hpivot⟩ := h.fits kept[i] (List.getElem_mem _)
    have hcolumn := congrFun hsum ⟨kept[i].pivot, hpivot⟩
    rw [Finset.sum_apply, Finset.sum_eq_single_of_mem i (Finset.mem_univ i)] at hcolumn
    · exact (mul_eq_zero.1 hcolumn).resolve_right (h.pivot_ne_zero _ (List.getElem_mem _))
    · intro k _ hne
      -- Earlier rows have the factor zero, and later ones vanish at this pivot.
      rcases lt_or_gt_of_ne hne with hlt | hgt
      · rw [ih k hlt, zero_smul]
        rfl
      · have hcleared := List.pairwise_iff_getElem.1 h.cleared i k i.2 k.2 hgt
        exact mul_eq_zero_of_right _ hcleared

/-! ## The selection -/

/-- The rows kept among those seen, which are the first ones of all rows. -/
structure Selects (n : Nat) (all seen : List (List ℚ)) (kept : List (KeptRow ℚ)) : Prop where
  echelon : Echelon n kept
  span_eq : rowSpan (kept.map KeptRow.entries) = rowSpan seen
  positions_sorted : (kept.map KeptRow.position).Pairwise (· < ·)
  position_lt : ∀ k ∈ kept, k.position < seen.length
  span_positions_eq : rowSpan (kept.map fun k => all.getD k.position []) = rowSpan seen

theorem rowSpan_concat_le {rows others : List (List ℚ)} {row other : List ℚ}
    (h : rowSpan rows ≤ rowSpan others) (hrow : coeff row - coeff other ∈ rowSpan others) :
    rowSpan (rows ++ [row]) ≤ rowSpan (others ++ [other]) := by
  have hmono : rowSpan others ≤ rowSpan (others ++ [other]) :=
    rowSpan_mono fun r hr => List.mem_append_left _ hr
  apply rowSpan_le_iff.2
  intro r hr
  rcases List.mem_append.1 hr with hr | hr
  · exact hmono (h (coeff_mem_rowSpan hr))
  · obtain rfl := List.mem_singleton.1 hr
    have hother : coeff other ∈ rowSpan (others ++ [other]) :=
      coeff_mem_rowSpan (List.mem_append_right _ List.mem_cons_self)
    have hsum := Submodule.add_mem _ (hmono hrow) hother
    rwa [sub_add_cancel] at hsum

/-- Two lists of rows with the same span have the same span after rows that differ by an element of
it. -/
theorem rowSpan_concat_eq {rows others : List (List ℚ)} {row other : List ℚ}
    (h : rowSpan rows = rowSpan others) (hrow : coeff row - coeff other ∈ rowSpan others) :
    rowSpan (rows ++ [row]) = rowSpan (others ++ [other]) := by
  refine le_antisymm (rowSpan_concat_le h.le hrow) (rowSpan_concat_le h.ge ?_)
  rw [h, ← neg_sub]
  exact Submodule.neg_mem _ hrow

theorem rowSpan_concat_of_mem {rows : List (List ℚ)} (hrow : coeff row ∈ rowSpan rows) :
    rowSpan (rows ++ [row]) = rowSpan rows := by
  refine le_antisymm (rowSpan_le_iff.2 fun r hr => ?_)
    (rowSpan_mono fun r hr => List.mem_append_left _ hr)
  rcases List.mem_append.1 hr with hr | hr
  · exact coeff_mem_rowSpan hr
  · obtain rfl := List.mem_singleton.1 hr
    exact hrow

namespace Selects

variable {all seen : List (List ℚ)}

theorem nil : Selects n all [] [] where
  echelon := ⟨nofun, nofun, List.Pairwise.nil⟩
  span_eq := rfl
  positions_sorted := List.Pairwise.nil
  position_lt := nofun
  span_positions_eq := rfl

/-- The difference between a row and its reduction is a combination of the rows seen. -/
theorem reduceAll_sub_mem (h : Selects n all seen kept) (hrow : row.length = n + 1) :
    coeff (reduceAll kept row) - coeff row ∈ rowSpan seen :=
  h.span_eq ▸ RowMatrix.reduceAll_sub_mem h.echelon.fits hrow

/-- A row with a coefficient left after reduction is kept. -/
theorem keep (h : Selects n all seen kept) (hall : all[seen.length]? = some row)
    (hrow : row.length = n + 1) {pivot : Nat} (hpivot : pivot < n)
    (hne : coeff (reduceAll kept row) pivot ≠ 0) :
    Selects n all (seen ++ [row])
      (kept ++ [{ position := seen.length, pivot, entries := reduceAll kept row }]) where
  echelon := h.echelon.concat hrow hpivot hne
  span_eq := by
    rw [List.map_append]
    exact rowSpan_concat_eq h.span_eq (h.reduceAll_sub_mem hrow)
  positions_sorted := by
    rw [List.map_append]
    refine List.pairwise_append.2 ⟨h.positions_sorted, List.pairwise_singleton _ _, ?_⟩
    intro i hi j hj
    obtain ⟨k, hk, rfl⟩ := List.mem_map.1 hi
    obtain rfl := List.mem_singleton.1 hj
    exact h.position_lt k hk
  position_lt := by
    intro k hk
    rw [List.length_append, List.length_singleton]
    rcases List.mem_append.1 hk with hk | hk
    · exact (h.position_lt k hk).trans (Nat.lt_succ_self _)
    · obtain rfl := List.mem_singleton.1 hk
      exact Nat.lt_succ_self _
  span_positions_eq := by
    have hlast : all.getD seen.length [] = row := by
      rw [List.getD_eq_getElem?_getD, hall, Option.getD_some]
    rw [List.map_append, List.map_singleton]
    apply rowSpan_concat_eq h.span_positions_eq
    rw [hlast, sub_self]
    exact Submodule.zero_mem _

/-- A row with nothing left after reduction is passed over. -/
theorem pass (h : Selects n all seen kept) (hrow : row.length = n + 1)
    (hzero : coeff (reduceAll kept row) = 0) : Selects n all (seen ++ [row]) kept := by
  have hmem := Submodule.neg_mem _ (h.reduceAll_sub_mem hrow)
  rw [hzero, zero_sub, neg_neg] at hmem
  refine ⟨h.echelon, ?_, h.positions_sorted, fun k hk => ?_, ?_⟩
  · rw [rowSpan_concat_of_mem hmem, h.span_eq]
  · rw [List.length_append]
    exact (h.position_lt k hk).trans_le (Nat.le_add_right _ _)
  · rw [rowSpan_concat_of_mem hmem, h.span_positions_eq]

end Selects

/-- What the selection does with the next row: the row is kept when a coefficient is left of it, it
is passed over when nothing is left, and it ends the selection when only the right-hand side is. -/
theorem keepFrom?_cons_cases (hkept : Fits n kept) (hrow : row.length = n + 1) (position : Nat)
    (rest : List (List ℚ × Nat)) :
    (∃ pivot < n, coeff (reduceAll kept row) pivot ≠ 0 ∧
      keepFrom? 0 n ((row, position) :: rest) kept =
        keepFrom? 0 n rest (kept ++ [{ position, pivot, entries := reduceAll kept row }])) ∨
      (coeff (reduceAll kept row) = 0 ∧
        keepFrom? 0 n ((row, position) :: rest) kept = keepFrom? 0 n rest kept) ∨
      ((∀ j < n, coeff (reduceAll kept row) j = 0) ∧ coeff (reduceAll kept row) n ≠ 0 ∧
        keepFrom? 0 n ((row, position) :: rest) kept = some none) := by
  have hreduced := length_reduceAll hkept hrow
  obtain ⟨choice, hchoice, hsome, hnone⟩ := largestColumn?_cases (0 : ℚ)
    (show n ≤ (reduceAll kept row).length by omega)
  have hvalue : (reduceAll kept row)[n]? = some (coeff (reduceAll kept row) n) :=
    getElem?_eq_coeff (by omega)
  simp only [Scalar.negligible_zero_iff] at hsome hnone
  simp only [keepFrom?, reduceAll?_eq hkept hrow, Option.bind_eq_bind, Option.bind_some, hchoice]
  cases choice with
  | some pivot =>
    obtain ⟨hpivot, hne⟩ := hsome pivot rfl
    exact Or.inl ⟨pivot, hpivot, hne, rfl⟩
  | none =>
    have hzero := hnone rfl
    simp only [hvalue, Option.bind_some, Scalar.negligible_zero_iff]
    split
    · next hlast =>
      refine Or.inr (Or.inl ⟨funext fun j => ?_, rfl⟩)
      rcases lt_trichotomy j n with hj | rfl | hj
      · exact hzero j hj
      · exact hlast
      · exact coeff_of_length_le (by omega)
    · next hlast => exact Or.inr (Or.inr ⟨hzero, hlast, rfl⟩)

/-- The equation `0 = c` with a nonzero `c` follows from the rows. -/
def Inconsistent (n : Nat) (rows : List (List ℚ)) : Prop :=
  ∃ v ∈ rowSpan rows, (∀ j < n, v j = 0) ∧ v n ≠ 0

/-- What the selection makes of the rows that are left. The induction is on these rows. -/
theorem selects_of_keepFrom? {all seen rest : List (List ℚ)} (hall : all = seen ++ rest)
    (hlength : ∀ r ∈ all, r.length = n + 1) (h : Selects n all seen kept)
    {result : Option (List (KeptRow ℚ))}
    (hresult : keepFrom? 0 n (rest.zipIdx seen.length) kept = some result) :
    (∀ kept', result = some kept' → Selects n all all kept') ∧
      (result = none → Inconsistent n all) := by
  induction rest generalizing seen kept with
  | nil =>
    rw [List.append_nil] at hall
    subst hall
    cases hresult
    exact ⟨fun kept' heq => Option.some.inj heq ▸ h, fun heq => by cases heq⟩
  | cons row rest ih =>
    have hrow : row.length = n + 1 :=
      hlength row (hall ▸ List.mem_append_right _ List.mem_cons_self)
    have hget : all[seen.length]? = some row := by
      rw [hall, List.getElem?_append_right le_rfl, Nat.sub_self, List.getElem?_cons_zero]
    have hall' : all = (seen ++ [row]) ++ rest := by
      rw [hall, List.append_assoc, List.singleton_append]
    have hnext : seen.length + 1 = (seen ++ [row]).length := by
      rw [List.length_append, List.length_singleton]
    rw [List.zipIdx_cons, hnext] at hresult
    obtain ⟨pivot, hpivot, hne, hstep⟩ | ⟨hzero, hstep⟩ | ⟨hzero, hlast, hstep⟩ :=
      keepFrom?_cons_cases h.echelon.fits hrow seen.length (rest.zipIdx (seen ++ [row]).length)
    · -- A coefficient is left, so the row says something new.
      exact ih hall' (h.keep hget hrow hpivot hne) (hstep ▸ hresult)
    · -- Nothing is left, so the row follows from those before it.
      exact ih hall' (h.pass hrow hzero) (hstep ▸ hresult)
    · rw [hstep] at hresult
      cases hresult
      -- Only the right-hand side is left, so the row contradicts those before it.
      refine ⟨fun kept' heq => (by cases heq), fun _ =>
        ⟨coeff (reduceAll kept row), ?_, hzero, hlast⟩⟩
      have hseen : rowSpan seen ≤ rowSpan all :=
        rowSpan_mono fun r hr => hall ▸ List.mem_append_left _ hr
      have hin : coeff row ∈ rowSpan all :=
        coeff_mem_rowSpan (hall ▸ List.mem_append_right _ List.mem_cons_self)
      have hsum := Submodule.add_mem _ (hseen (h.reduceAll_sub_mem hrow)) hin
      rwa [sub_add_cancel] at hsum

end Exact

/-! ## Ranks -/

section Rank

variable {m : RowMatrix ℚ} {rhs x : List ℚ}

/-- No vector satisfies equations from which `0 = c` follows for a nonzero `c`. -/
theorem Inconsistent.mulVector_ne (hinconsistent : Inconsistent m.columns (m.augmented rhs))
    (h : m.Rectangular) (hrhs : rhs.length = m.rowCount) (hx : x.length = m.columns) :
    m.mulVector x ≠ rhs := by
  intro hsolves
  obtain ⟨v, hv, hzero, hne⟩ := hinconsistent
  have hgap := (h.gap_eq_zero_iff hrhs hx).2 hsolves v hv
  have hleft : leftSide m.columns (coeff x) v = 0 := by
    rw [leftSide_apply]
    apply Finset.sum_eq_zero
    intro j hj
    rw [hzero j (Finset.mem_range.1 hj), zero_mul]
  rw [gap_apply, hleft, zero_sub, neg_eq_zero] at hgap
  exact hne hgap

/-- The matrix with its numbers of rows and of columns in its type. -/
def toMatrix (m : RowMatrix ℚ) : Matrix (Fin m.rowCount) (Fin m.columns) ℚ :=
  Matrix.of fun i j => m.entry i j

/-- The rank of a matrix is the dimension of what the equations of a system with this matrix say
about the variables. -/
theorem Rectangular.rank_toMatrix (h : m.Rectangular) (hrhs : rhs.length = m.rowCount) :
    m.toMatrix.rank =
      Module.finrank ℚ ((rowSpan (m.augmented rhs)).map (restrict m.columns)) := by
  have hspan : (rowSpan (m.augmented rhs)).map (restrict m.columns) =
      Submodule.span ℚ (Set.range m.toMatrix.row) := by
    -- Without its right-hand side, an equation is a row of the matrix.
    have hrow (i : Nat) (hi : i < m.rowCount) (value : ℚ) :
        restrict m.columns (coeff (m.rows.getD i [] ++ [value])) = m.toMatrix.row ⟨i, hi⟩ := by
      have hlen := h.length_getD hi
      funext j
      exact coeff_append_left _ (j.2.trans_eq hlen.symm)
    apply le_antisymm
    · rw [Submodule.map_le_iff_le_comap]
      refine rowSpan_le_iff.2 (forall_mem_augmented.2 fun i row value hget _ => ?_)
      obtain ⟨hi, rfl⟩ := List.getElem?_eq_some_iff.1 hget
      have hsame := hrow i hi value
      rw [List.getD_eq_getElem?_getD, hget, Option.getD_some] at hsame
      rw [Submodule.mem_comap, hsame]
      exact Submodule.subset_span ⟨⟨i, hi⟩, rfl⟩
    · apply Submodule.span_le.2
      rintro _ ⟨i, rfl⟩
      rw [← hrow i i.2 (coeff rhs i)]
      exact Submodule.mem_map_of_mem
        (coeff_mem_rowSpan (List.mem_of_getElem? (augmented_getElem? hrhs i.2)))
  rw [Matrix.rank_eq_finrank_span_row, hspan]

/-- As many rows are kept as the rank of the matrix says. -/
theorem Selects.length_eq_rank {kept : List (KeptRow ℚ)} (h : m.Rectangular)
    (hrhs : rhs.length = m.rowCount)
    (hkept : Selects m.columns (m.augmented rhs) (m.augmented rhs) kept) :
    kept.length = m.toMatrix.rank := by
  have hspan : (rowSpan (m.augmented rhs)).map (restrict m.columns) = Submodule.span ℚ
      (Set.range fun i : Fin kept.length => restrict m.columns (coeff kept[i].entries)) := by
    rw [← hkept.span_eq, rowSpan, Submodule.map_span]
    congr 1
    ext v
    constructor
    · rintro ⟨_, ⟨row, hrow, rfl⟩, rfl⟩
      obtain ⟨k, hk, rfl⟩ := List.mem_map.1 hrow
      obtain ⟨i, hi, rfl⟩ := List.getElem_of_mem hk
      exact ⟨⟨i, hi⟩, rfl⟩
    · rintro ⟨i, rfl⟩
      exact ⟨_, ⟨_, List.mem_map_of_mem (List.getElem_mem i.2), rfl⟩, rfl⟩
  rw [h.rank_toMatrix hrhs, hspan, finrank_span_eq_card hkept.echelon.linearIndependent,
    Fintype.card_fin]

/-- The selection of independent rows says that the system is inconsistent, or gives the positions
of rows that imply all others. -/
theorem independentRows?_cases (h : m.Rectangular) (hrhs : rhs.length = m.rowCount) :
    (m.independentRows? rhs 0 = some none ∧ Inconsistent m.columns (m.augmented rhs)) ∨
      ∃ positions, m.independentRows? rhs 0 = some (some positions) ∧
        positions.Pairwise (· < ·) ∧ (∀ i ∈ positions, i < m.rowCount) ∧
        positions.length = m.toMatrix.rank ∧
        rowSpan (positions.map fun i => (m.augmented rhs).getD i []) =
          rowSpan (m.augmented rhs) := by
  have hlength : ∀ row ∈ m.augmented rhs, row.length = m.columns + 1 :=
    fun row hrow => h.length_of_mem_augmented hrow
  obtain ⟨result, hresult, hrows⟩ := h.exists_keepFrom? rhs 0
  obtain ⟨hsome, hnone⟩ := selects_of_keepFrom? (List.nil_append _).symm hlength Selects.nil hresult
  cases result with
  | none => exact Or.inl ⟨hrows, hnone rfl⟩
  | some kept =>
    have hkept := hsome kept rfl
    refine Or.inr ⟨_, hrows, hkept.positions_sorted, fun i hi => ?_, ?_, ?_⟩
    · obtain ⟨k, hk, rfl⟩ := List.mem_map.1 hi
      exact length_augmented hrhs ▸ hkept.position_lt k hk
    · rw [List.length_map, hkept.length_eq_rank h hrhs]
    · rw [List.map_map]
      exact hkept.span_positions_eq

end Rank

end RowMatrix

end SimplexMethod
