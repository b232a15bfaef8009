import Mathlib.Tactic
import SimplexMethod.Proofs.Enumeration.Systems
import SimplexMethod.Proofs.RowMatrix.Columns
import SimplexMethod.Proofs.RowMatrix.Elimination
import SimplexMethod.Proofs.Selection.Combinations

/-!
# The list of vertices

A solution of a system is extreme when the columns in which it does not vanish are independent. With
tolerance zero, the vertices that are listed for a regular system are feasible and vanish outside as
many columns as there are rows, and every extreme solution is one of them (`Regular.exists_lists`
with `Lists`).

A choice of columns gives a vertex exactly when the only solution of the system in these columns is
nonnegative (`Chooses.vertex?_cases`). An extreme solution is found at a choice of columns to
which those where it does not vanish are extended.
-/

set_option autoImplicit false

namespace SimplexMethod

/-- The positions where a list does not vanish. -/
def support (x : List ℚ) : Set ℕ := {j | coeff x j ≠ 0}

theorem lt_length_of_mem_support {x : List ℚ} {j : ℕ} (hj : j ∈ support x) : j < x.length := by
  by_contra hge
  exact hj (coeff_of_length_le (not_lt.1 hge))

namespace RowMatrix

/-- Entries can be written in columns that exist. -/
theorem spread?_eq {F : Type} [Scalar F] {width : ℕ} {columns : List ℕ}
    (hlt : ∀ j ∈ columns, j < width) (entries : List F) :
    spread? width columns entries =
      some (place width columns (entries.map (Scalar.larger · 0))) := by
  rw [spread?, place, List.zip_map_right, List.foldl_map]
  refine foldlM_eq_some_foldl (·.length = width) List.length_replicate ?_
  rintro values hvalues ⟨j, entry⟩ hmem
  have hj : j < values.length := hvalues ▸ hlt j (List.of_mem_zip hmem).1
  exact ⟨write?_eq hj _, List.length_set.trans hvalues⟩

/-- Raising to zero changes nothing in a list without negative entries. -/
theorem map_larger_zero {entries : List ℚ} (h : ∀ entry ∈ entries, 0 ≤ entry) :
    entries.map (Scalar.larger · 0) = entries := by
  conv_rhs => rw [← List.map_id' entries]
  refine List.map_congr_left fun entry hentry => ?_
  rw [Scalar.larger_eq_max, max_eq_left (h entry hentry)]

/-- Where a vector vanishes outside the chosen columns, they say what the matrix makes of it. -/
theorem Rectangular.mulVector_selected {m : RowMatrix ℚ} (h : m.Rectangular) {columns : List ℕ}
    (hnodup : columns.Nodup) (hlt : ∀ j ∈ columns, j < m.columns) {x : List ℚ}
    (hzero : ∀ j ∉ columns, coeff x j = 0) :
    (m.selected columns).mulVector (pick columns x) = m.mulVector x := by
  rw [mulVector, mulVector, selected, List.map_map]
  exact List.map_congr_left fun row hrow => dot_pick hnodup hlt (h row hrow) hzero

end RowMatrix

namespace System

variable {s : System ℚ} {x : List ℚ} {columns : List ℕ}

/-! ## One choice of columns -/

/-- As many different columns of the matrix as it has rows. -/
structure Chooses {F : Type} (s : System F) (columns : List ℕ) : Prop where
  nodup : columns.Nodup
  lt_columns : ∀ j ∈ columns, j < s.matrix.columns
  length_eq : columns.length = s.matrix.rowCount

/-- A solution with the given entries in the chosen columns. -/
def placed (s : System ℚ) (columns : List ℕ) (entries : List ℚ) : List ℚ :=
  place s.matrix.columns columns entries

theorem coeff_placed_eq_zero {entries : List ℚ} {j : ℕ} (hj : j ∉ columns) :
    coeff (s.placed columns entries) j = 0 := by
  rcases lt_or_ge j s.matrix.columns with hlt | hge
  · exact coeff_place_of_notMem hj hlt
  · exact coeff_of_length_le (length_place.trans_le hge)

namespace Chooses

theorem square {F : Type} [Scalar F] {s : System F} (hc : s.Chooses columns) :
    (s.matrix.selected columns).columns = (s.matrix.selected columns).rowCount :=
  hc.length_eq.trans RowMatrix.selected_rowCount.symm

theorem pick_placed (hc : s.Chooses columns) {entries : List ℚ}
    (hlen : entries.length = columns.length) : pick columns (s.placed columns entries) = entries :=
  pick_place hc.nodup hc.lt_columns hlen

theorem placed_pick (hc : s.Chooses columns) (hlen : x.length = s.matrix.columns)
    (hzero : ∀ j ∉ columns, coeff x j = 0) : s.placed columns (pick columns x) = x := by
  rw [placed, ← hlen]
  exact place_pick hc.nodup hzero

/-- Where there is no solution in the chosen columns, they depend on each other. -/
theorem not_independentColumns (hc : s.Chooses columns) (h : s.WellFormed)
    (hsolve : (s.matrix.selected columns).solve? s.rhs 0 = some none) :
    ¬ s.matrix.IndependentColumns {j | j ∈ columns} := by
  intro hindep
  obtain ⟨z, hz, ⟨j, hj⟩, hkernel⟩ := RowMatrix.exists_kernel_of_solve?
    RowMatrix.rectangular_selected hc.square (h.rhs_length.trans RowMatrix.selected_rowCount.symm)
    hsolve
  -- The dependency among the chosen columns, read in all columns, has to vanish.
  have hzero : ∀ k, coeff (s.placed columns z) k = 0 := by
    apply hindep (s.placed columns z) length_place (fun k hk => coeff_placed_eq_zero hk)
    intro row hrow
    rw [← dot_pick hc.nodup hc.lt_columns (h.rectangular row hrow) fun k hk =>
      coeff_placed_eq_zero hk, hc.pick_placed hz]
    exact hkernel _ (List.mem_map_of_mem hrow)
  apply hj
  rw [← hc.pick_placed hz]
  rcases lt_or_ge j columns.length with hlt | hge
  · apply coeff_of_getElem?
    rw [pick, List.getElem?_map, List.getElem?_eq_getElem hlt, Option.map_some, hzero]
  · exact coeff_of_length_le ((length_pick _ _).trans_le hge)

/-- Among the vectors that vanish outside the chosen columns, the one with the entries that
elimination gives is the only one that satisfies the equations. -/
theorem mulVector_eq_iff (hc : s.Chooses columns) (h : s.WellFormed) {entries : List ℚ}
    (hsolve : (s.matrix.selected columns).solve? s.rhs 0 = some (some entries)) :
    entries.length = columns.length ∧ ∀ x, (∀ j ∉ columns, coeff x j = 0) →
      (s.matrix.mulVector x = s.rhs ↔ pick columns x = entries) := by
  obtain ⟨hlen, hunique⟩ := RowMatrix.mulVector_eq_iff_of_solve? le_rfl
    RowMatrix.rectangular_selected hc.square (h.rhs_length.trans RowMatrix.selected_rowCount.symm)
    hsolve
  refine ⟨hlen, fun x hzero => ?_⟩
  rw [← hunique _ (length_pick columns x),
    h.rectangular.mulVector_selected hc.nodup hc.lt_columns hzero]

/-- A choice of columns gives a feasible vertex or none. When the columns are independent, it gives
the feasible solution that vanishes outside of them, if there is one. -/
theorem vertex?_cases (hc : s.Chooses columns) (h : s.WellFormed) :
    ∃ result, s.matrix.vertex? s.rhs 0 columns = some result ∧
      (∀ v, result = some v → v.basis = columns ∧ s.Feasible v.values ∧
        ∀ j ∉ columns, coeff v.values j = 0) ∧
      (s.matrix.IndependentColumns {j | j ∈ columns} → ∀ x, s.Feasible x →
        (∀ j ∉ columns, coeff x j = 0) → result = some ⟨columns, x⟩) := by
  obtain ⟨solution, hsolve, -⟩ := RowMatrix.exists_solve? (0 : ℚ) RowMatrix.rectangular_selected
    hc.square (h.rhs_length.trans RowMatrix.selected_rowCount.symm)
  rw [RowMatrix.vertex?, h.rectangular.selectColumns?_eq hc.lt_columns]
  simp only [Option.bind_eq_bind, Option.bind_some, hsolve, RowMatrix.spread?_eq hc.lt_columns]
  cases solution with
  | none =>
    have hdependent := hc.not_independentColumns h hsolve
    exact ⟨none, rfl, nofun, fun hindep => absurd hindep hdependent⟩
  | some entries =>
    obtain ⟨hlen, hunique⟩ := hc.mulVector_eq_iff h hsolve
    -- The entries decide: they are those of any solution that vanishes in the other columns.
    by_cases hnegative : ∃ entry ∈ entries, entry < 0
    · refine ⟨none, by simpa using hnegative, nofun, fun _ x hx hzero => ?_⟩
      obtain ⟨entry, hentry, hlow⟩ := hnegative
      rw [← (hunique x hzero).1 hx.mulVector_eq] at hentry
      obtain ⟨j, -, rfl⟩ := List.mem_map.1 hentry
      exact absurd (hx.nonneg j) hlow.not_ge
    · have hnonneg : ∀ entry ∈ entries, 0 ≤ entry :=
        fun entry hentry => not_lt.1 fun hlow => hnegative ⟨entry, hentry, hlow⟩
      refine ⟨some ⟨columns, s.placed columns entries⟩, ?_, ?_, fun _ x hx hzero => ?_⟩
      · simpa [RowMatrix.map_larger_zero hnonneg, placed] using hnonneg
      · intro v hv
        obtain rfl := Option.some.inj hv
        refine ⟨rfl, ⟨length_place, fun j => ?_, ?_⟩, fun j hj => coeff_placed_eq_zero hj⟩
        · by_cases hj : j ∈ columns
          · have hmem : coeff (s.placed columns entries) j ∈
                pick columns (s.placed columns entries) := List.mem_map_of_mem hj
            rw [hc.pick_placed hlen] at hmem
            exact hnonneg _ hmem
          · exact (coeff_placed_eq_zero hj).ge
        · exact (hunique _ fun j hj => coeff_placed_eq_zero hj).2 (hc.pick_placed hlen)
      · rw [← (hunique x hzero).1 hx.mulVector_eq, hc.placed_pick hx.length_eq hzero]

end Chooses

/-! ## All choices -/

/-- Every vertex in the list is feasible and vanishes outside of as many columns as there are rows,
and all extreme solutions are in the list. -/
structure Lists (s : System ℚ) (vertices : List (Vertex ℚ)) : Prop where
  feasible : ∀ v ∈ vertices, s.Feasible v.values
  length_basis : ∀ v ∈ vertices, v.basis.length = s.matrix.rowCount
  coeff_eq_zero : ∀ v ∈ vertices, ∀ j ∉ v.basis, coeff v.values j = 0
  complete : ∀ x, s.Feasible x → s.matrix.IndependentColumns (support x) →
    ∃ v ∈ vertices, v.values = x

theorem chooses_of_mem_combinations {F : Type} {s : System F}
    (hmem : columns ∈ combinations s.matrix.rowCount (List.range s.matrix.columns)) :
    s.Chooses columns := by
  obtain ⟨hsub, hlen⟩ := mem_combinations_iff.1 hmem
  exact ⟨hsub.nodup List.nodup_range, fun j hj => List.mem_range.1 (hsub.subset hj), hlen⟩

/-- Listing the vertices of a regular system never fails, and misses no extreme solution. -/
theorem Regular.exists_lists (h : s.Regular) :
    ∃ vertices, s.matrix.vertices? s.rhs 0 = some vertices ∧ s.Lists vertices := by
  have hvertex {columns : List ℕ}
      (hmem : columns ∈ combinations s.matrix.rowCount (List.range s.matrix.columns)) :=
    (chooses_of_mem_combinations hmem).vertex?_cases h.toWellFormed
  obtain ⟨results, hresults⟩ : ∃ results,
      (combinations s.matrix.rowCount (List.range s.matrix.columns)).mapM
        (s.matrix.vertex? s.rhs 0) = some results := by
    apply exists_mapM
    intro columns hmem
    obtain ⟨result, hresult, -⟩ := hvertex hmem
    exact ⟨result, hresult⟩
  have hsound {v : Vertex ℚ} (hv : v ∈ results.filterMap id) :
      s.Feasible v.values ∧ v.basis.length = s.matrix.rowCount ∧
        ∀ j ∉ v.basis, coeff v.values j = 0 := by
    obtain ⟨result, hresult, hv⟩ := List.mem_filterMap.1 hv
    obtain ⟨columns, hmem, heq⟩ := (mem_iff_of_mapM hresults).1 hresult
    obtain ⟨result', hresult', hgives, -⟩ := hvertex hmem
    obtain rfl : result' = result := Option.some.inj (hresult'.symm.trans heq)
    obtain ⟨rfl, hfeasible, hzero⟩ := hgives v hv
    exact ⟨hfeasible, (chooses_of_mem_combinations hmem).length_eq, hzero⟩
  refine ⟨results.filterMap id, ?_, fun v hv => (hsound hv).1, fun v hv => (hsound hv).2.1,
    fun v hv => (hsound hv).2.2, fun x hx hextreme => ?_⟩
  · rw [RowMatrix.vertices?, hresults]
    rfl
  · -- The columns in use are extended to a choice, which gives the solution itself.
    obtain ⟨columns, hsub, hlen, hsupport, hindep⟩ := hextreme.exists_choice h.rectangular
      fun j hj => (lt_length_of_mem_support hj).trans_eq hx.length_eq
    have hmem := mem_combinations_iff.2 ⟨hsub, hlen.trans h.rank_eq⟩
    have hzero : ∀ j ∉ columns, coeff x j = 0 := by
      intro j hj
      by_contra hne
      exact hj (hsupport j hne)
    obtain ⟨result, hresult, -, hfinds⟩ := hvertex hmem
    rw [hfinds hindep x hx hzero] at hresult
    have hin := (mem_iff_of_mapM hresults).2 ⟨columns, hmem, hresult⟩
    exact ⟨⟨columns, x⟩, List.mem_filterMap.2 ⟨_, hin, rfl⟩, rfl⟩

end System

end SimplexMethod
