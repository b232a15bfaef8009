import Mathlib.Tactic
import SimplexMethod.Proofs.Selection.Removal
import SimplexMethod.Proofs.TwoPhase.Feasibility
import SimplexMethod.Tableau.Costs

/-!
# The tableau of the program

The tableau of the program is made from the rows of the artificial problem in which structural
variables are basic. Reading it off never fails, whatever the scalars are (`withCosts?_eq`): rows
and places stay aligned, and only the costs of structural variables are read. Over the rationals it
states what the rows that are left do (`PresentsArtificial.presents_restated`). Where the rows that
are left out are null, the others span all constraints, so that it states the program, and with
respect to a feasible basis (`Reduced.canonical_restated`).
-/

set_option autoImplicit false

namespace SimplexMethod

variable {F : Type}

namespace Tableau

section Kept

variable {t : Tableau F} {redundant : List Nat} {i : Nat}

/-- The rows that are not redundant. -/
def keptRows (t : Tableau F) (redundant : List Nat) : List Nat :=
  (List.range t.rowCount).filter (· ∉ redundant)

theorem mem_keptRows_iff : i ∈ t.keptRows redundant ↔ i < t.rowCount ∧ i ∉ redundant := by
  rw [keptRows, List.mem_filter, List.mem_range, decide_eq_true_eq]

theorem nodup_keptRows : (t.keptRows redundant).Nodup := List.nodup_range.filter _

theorem basis_eq_map_basic : t.basis = (List.range t.rowCount).map t.basic := by
  apply ext_of_lt rfl ((List.length_map _).trans List.length_range)
  intro i hi
  rw [basis_getElem?_eq hi, List.getElem?_map, List.getElem?_range hi, Option.map_some]

theorem WellFormed.rows_eq (h : t.WellFormed) :
    t.matrix.rows = t.matrix.rows.getD 0 [] ::
      (List.range t.rowCount).map fun i => t.matrix.rows.getD (i + 1) [] := by
  have hlen : t.matrix.rows.length = t.rowCount + 1 := h.rowCount_eq
  apply List.ext_getElem (by simp [hlen])
  intro i hi hi'
  cases i with
  | zero => simp [List.getD_eq_getElem?_getD, List.getElem?_eq_getElem hi]
  | succ i => simp [List.getD_eq_getElem?_getD, List.getElem?_eq_getElem hi]

end Kept

/-! ## Reading off -/

section Restated

variable [Scalar F] {t : Tableau F} {p : Problem F} {redundant : List Nat} {i j k : Nat}

/-- What has been read off: below a new row of costs, the structural columns and the last one of
the rows that are left, with what is left of the basis. -/
theorem exists_selected_of_withCosts? {start : Tableau F}
    (h : t.withCosts? redundant p = some start) :
    ∃ selected costs,
      t.matrix.selectColumns? (List.range t.structuralCount ++ [t.columnCount]) = some selected ∧
      start = ofBasis
        { rows := costs :: (selected.removeRows (redundant.map (· + 1))).rows.tail
          columns := selected.columns }
        (removePositions redundant t.basis) 0 := by
  rw [withCosts?, restate?] at h
  obtain ⟨selected, hselected, h⟩ := Option.bind_eq_some_iff.1 h
  obtain ⟨own, -, h⟩ := Option.bind_eq_some_iff.1 h
  obtain ⟨basic, -, h⟩ := Option.bind_eq_some_iff.1 h
  obtain ⟨rest, hrest, h⟩ := Option.bind_eq_some_iff.1 h
  cases Option.some.inj h
  refine ⟨selected, reduceCosts (own ++ [0]) basic, hselected, ?_⟩
  rw [List.tail_eq_tail?, hrest]
  rfl

/-- Rows that are left out of the tableau are left out of the basis. -/
theorem basis_of_withCosts? {start : Tableau F} (h : t.withCosts? redundant p = some start) :
    start.basis = removePositions redundant t.basis := by
  obtain ⟨selected, costs, -, rfl⟩ := exists_selected_of_withCosts? h
  rfl

/-- A matrix row in the structural columns and the last one. -/
def programRow (t : Tableau F) (i : Nat) : List F :=
  pick (List.range t.structuralCount ++ [t.columnCount]) (t.matrix.rows.getD i [])

/-- The tableau of the program with respect to the basis in the rows that are not redundant; the
value of `withCosts?`. -/
def restated (t : Tableau F) (redundant : List Nat) (p : Problem F) : Tableau F :=
  let kept := t.keptRows redundant
  let basic := kept.map fun i => (coeff p.minimizationCost (t.basic i), t.programRow (i + 1))
  ofBasis
    { rows := reduceCosts (p.minimizationCost ++ [0]) basic ::
        kept.map fun i => t.programRow (i + 1)
      columns := t.structuralCount + 1 }
    (kept.map t.basic) 0

theorem length_programRow : (t.programRow i).length = t.structuralCount + 1 := by
  rw [programRow, length_pick, List.length_append, List.length_range, List.length_singleton]

theorem WellFormed.selectColumns?_eq (h : t.WellFormed) :
    t.matrix.selectColumns? (List.range t.structuralCount ++ [t.columnCount]) = some
      { rows := t.programRow 0 :: (List.range t.rowCount).map fun i => t.programRow (i + 1)
        columns := t.structuralCount + 1 } := by
  have hlt : ∀ j ∈ List.range t.structuralCount ++ [t.columnCount], j < t.matrix.columns := by
    intro j hj
    have hle := structuralCount_le (t := t)
    rw [h.columns_eq]
    rcases List.mem_append.1 hj with hj | hj
    · have hlt := List.mem_range.1 hj
      omega
    · have heq := List.mem_singleton.1 hj
      omega
  rw [h.rectangular.selectColumns?_eq hlt, RowMatrix.selected]
  conv_lhs => rw [h.rows_eq]
  rw [List.map_cons, List.map_map, List.length_append, List.length_range, List.length_singleton]
  rfl

/-- Reading off the tableau of the program never fails when only structural variables are left. -/
theorem WellFormed.withCosts?_eq (h : t.WellFormed) (hsize : t.structuralCount = p.variableCount)
    (hsorted : redundant.Pairwise (· < ·))
    (hstructural : ∀ i < t.rowCount, i ∉ redundant → t.basic i < t.structuralCount) :
    t.withCosts? redundant p = some (t.restated redundant p) := by
  have hcost : p.minimizationCost.length = t.structuralCount := p.cost_length.trans hsize.symm
  have hown : ((List.range t.structuralCount).mapM fun j => p.minimizationCost[j]?) =
      some p.minimizationCost := by
    rw [mapM_eq_some_iff]
    apply List.ext_getElem (by simp [hcost])
    intro j hj hj'
    simp only [List.getElem_map, List.getElem_range]
    exact List.getElem?_eq_getElem _
  -- Only structural variables are basic in the rows that are left, so their costs can be read.
  have hbasic : ((((t.keptRows redundant).map t.basic).zipIdx).mapM fun place => do
        return (← p.minimizationCost[place.1]?,
          ← (t.programRow 0 ::
            (t.keptRows redundant).map fun i => t.programRow (i + 1))[place.2 + 1]?)) =
      some ((t.keptRows redundant).map fun i =>
        (coeff p.minimizationCost (t.basic i), t.programRow (i + 1))) := by
    rw [mapM_eq_some_iff]
    apply List.ext_getElem (by simp)
    intro k hk hk'
    have hlt : k < (t.keptRows redundant).length := by simpa using hk'
    obtain ⟨hi, hnot⟩ := mem_keptRows_iff.1 (List.getElem_mem hlt)
    have hread : p.minimizationCost[t.basic (t.keptRows redundant)[k]]? =
        some (coeff p.minimizationCost (t.basic (t.keptRows redundant)[k])) :=
      getElem?_eq_coeff (hcost ▸ hstructural _ hi hnot)
    simp [hread, hlt]
  rw [withCosts?, restate?, h.selectColumns?_eq]
  simp only [Option.bind_eq_bind, Option.bind_some, RowMatrix.removeRows]
  rw [removePositions_map_succ hsorted, removePositions_map_range hsorted, basis_eq_map_basic,
    removePositions_map_range hsorted, hown, Option.bind_some]
  refine Option.bind_eq_some_iff.2 ⟨_, hbasic, ?_⟩
  rfl

theorem restated_columnCount : (t.restated redundant p).columnCount = t.structuralCount :=
  Nat.add_sub_cancel _ _

theorem restated_rowCount : (t.restated redundant p).rowCount = (t.keptRows redundant).length :=
  List.length_map _

theorem restated_basis : (t.restated redundant p).basis = (t.keptRows redundant).map t.basic := rfl

theorem restated_basic (hk : k < (t.keptRows redundant).length) :
    (t.restated redundant p).basic k = t.basic (t.keptRows redundant)[k] := by
  rw [basic, restated_basis, List.getD_eq_getElem?_getD, List.getElem?_map,
    List.getElem?_eq_getElem hk, Option.map_some, Option.getD_some]

theorem length_reduceCosts {costs : List F} {basic : List (F × List F)}
    (h : ∀ term ∈ basic, term.2.length = costs.length) :
    (reduceCosts costs basic).length = costs.length := by
  rw [reduceCosts]
  induction basic generalizing costs with
  | nil => rfl
  | cons term basic ih =>
    have hlen : (List.zipWith (fun cost entry => cost - term.1 * entry) costs term.2).length =
        costs.length := by
      rw [List.length_zipWith, h term List.mem_cons_self, Nat.min_self]
    rw [List.foldl_cons,
      ih fun later hlater => (h later (List.mem_cons_of_mem _ hlater)).trans hlen.symm, hlen]

theorem length_of_mem_terms {term : F × List F} (hsize : t.structuralCount = p.variableCount)
    (hterm : term ∈ (t.keptRows redundant).map fun i =>
      (coeff p.minimizationCost (t.basic i), t.programRow (i + 1))) :
    term.2.length = (p.minimizationCost ++ [0]).length := by
  obtain ⟨i, -, rfl⟩ := List.mem_map.1 hterm
  rw [length_programRow, List.length_append, p.cost_length, List.length_singleton, hsize]
  rfl

theorem WellFormed.restated (h : t.WellFormed) (hsize : t.structuralCount = p.variableCount)
    (hstructural : ∀ i < t.rowCount, i ∉ redundant → t.basic i < t.structuralCount) :
    (t.restated redundant p).WellFormed := by
  refine wellFormed_ofBasis ?_ ?_ (Nat.succ_pos _) (Nat.zero_le _) ?_ ?_
  · simp [RowMatrix.rowCount]
  · intro row hrow
    rcases List.mem_cons.1 hrow with rfl | hrow
    · rw [length_reduceCosts fun term hterm => length_of_mem_terms hsize hterm,
        List.length_append, p.cost_length, List.length_singleton, hsize]
      rfl
    · obtain ⟨i, -, rfl⟩ := List.mem_map.1 hrow
      exact length_programRow
  · apply nodup_keptRows.map_on
    intro i hi k hk heq
    exact (h.basic_inj (mem_keptRows_iff.1 hi).1 (mem_keptRows_iff.1 hk).1).1 heq
  · intro j hj
    obtain ⟨i, hi, rfl⟩ := List.mem_map.1 hj
    obtain ⟨hlt, hnot⟩ := mem_keptRows_iff.1 hi
    exact hstructural i hlt hnot

theorem restated_tail : (t.restated redundant p).matrix.rows.tail =
    (t.keptRows redundant).map fun i => t.programRow (i + 1) := rfl

theorem restated_entry_eq (hk : k < (t.keptRows redundant).length) :
    (t.restated redundant p).entry k j =
      coeff (t.programRow ((t.keptRows redundant)[k] + 1)) j := by
  apply RowMatrix.entry_eq_of_getElem?
  rw [← List.getElem?_tail, restated_tail, List.getElem?_map, List.getElem?_eq_getElem hk,
    Option.map_some]

end Restated

/-! ## Exact entries -/

section Exact

variable {t : Tableau ℚ} {p : Problem ℚ} {redundant : List Nat} {i j k : Nat}

theorem coeff_programRow :
    coeff (t.programRow (i + 1)) = narrow t.structuralCount t.columnCount (t.entry i) := by
  refine (narrow_eq (fun j hj => ?_) ?_ fun j hj => ?_).symm
  · refine (coeff_of_getElem? ?_).symm
    rw [programRow, pick, List.getElem?_map, List.getElem?_append_left (by simpa using hj),
      List.getElem?_range hj]
    rfl
  · refine (coeff_of_getElem? ?_).symm
    rw [programRow, pick, List.getElem?_map, List.getElem?_append_right (by simp)]
    simp [entry, RowMatrix.entry]
  · exact coeff_of_length_le (length_programRow.trans_le hj)

theorem restated_entry (hk : k < (t.keptRows redundant).length) :
    (t.restated redundant p).entry k =
      narrow t.structuralCount t.columnCount (t.entry (t.keptRows redundant)[k]) := by
  funext j
  rw [restated_entry_eq hk, coeff_programRow]

theorem restated_value (hk : k < (t.keptRows redundant).length) :
    (t.restated redundant p).value k = t.value (t.keptRows redundant)[k] := by
  rw [value, restated_entry hk, restated_columnCount, narrow_self, value]

/-- Reduced costs differ from the costs by a combination of the rows that were taken off. -/
theorem reduceCosts_sub_mem {costs : List ℚ} {basic : List (ℚ × List ℚ)}
    (h : ∀ term ∈ basic, term.2.length = costs.length) :
    coeff (reduceCosts costs basic) - coeff costs ∈ rowSpan (basic.map Prod.snd) := by
  rw [reduceCosts]
  induction basic generalizing costs with
  | nil => simp
  | cons term basic ih =>
    have hterm := h term List.mem_cons_self
    have hlen : (List.zipWith (fun cost entry => cost - term.1 * entry) costs term.2).length =
        costs.length := by
      rw [List.length_zipWith, hterm, Nat.min_self]
    have hfirst : coeff (List.zipWith (fun cost entry => cost - term.1 * entry) costs term.2) =
        coeff costs - term.1 • coeff term.2 := by
      funext j
      rw [coeff_zipWith (by ring) hterm.symm, Pi.sub_apply, Pi.smul_apply, smul_eq_mul]
    have hrest := ih fun later hlater => (h later (List.mem_cons_of_mem _ hlater)).trans hlen.symm
    have hmono : rowSpan (basic.map Prod.snd) ≤ rowSpan ((term :: basic).map Prod.snd) :=
      rowSpan_mono fun row hrow => List.mem_cons_of_mem _ hrow
    have hmem : term.1 • coeff term.2 ∈ rowSpan ((term :: basic).map Prod.snd) :=
      Submodule.smul_mem _ _ (coeff_mem_rowSpan List.mem_cons_self)
    -- What this row takes off and what the later rows take off are both combinations.
    have hsum := Submodule.sub_mem _ (hmono hrest) hmem
    rw [hfirst] at hsum
    rw [List.foldl_cons]
    convert hsum using 1
    abel

theorem coeff_reduceCosts {costs : List ℚ} {basic : List (ℚ × List ℚ)}
    (h : ∀ term ∈ basic, term.2.length = costs.length) :
    coeff (reduceCosts costs basic) j =
      coeff costs j - (basic.map fun term => term.1 * coeff term.2 j).sum := by
  rw [reduceCosts]
  induction basic generalizing costs with
  | nil => simp
  | cons term basic ih =>
    have hterm := h term List.mem_cons_self
    have hlen : (List.zipWith (fun cost entry => cost - term.1 * entry) costs term.2).length =
        costs.length := by
      rw [List.length_zipWith, hterm, Nat.min_self]
    rw [List.foldl_cons,
      ih fun later hlater => (h later (List.mem_cons_of_mem _ hlater)).trans hlen.symm,
      coeff_zipWith (by ring) hterm.symm, List.map_cons, List.sum_cons]
    ring

theorem restated_relativeCost_eq : (t.restated redundant p).relativeCost =
    coeff (reduceCosts (p.minimizationCost ++ [0]) ((t.keptRows redundant).map fun i =>
      (coeff p.minimizationCost (t.basic i), t.programRow (i + 1)))) := rfl

theorem coeff_minimizationCost_append :
    coeff (p.minimizationCost ++ [0]) = coeff p.minimizationCost := by
  funext j
  rcases lt_trichotomy j p.minimizationCost.length with hj | rfl | hj
  · exact coeff_append_left _ hj
  · rw [coeff_concat_length, coeff_of_length_le le_rfl]
  · rw [coeff_of_length_le (by simpa using hj), coeff_of_length_le hj.le]

end Exact

end Tableau

/-! ## What the tableau of the program states -/

namespace Tableau

variable {t : Tableau ℚ} {redundant : List Nat} {v : ℕ → ℚ} {i : Nat}

/-- What the rows that are not redundant state without the artificial columns. -/
def keptEquations (t : Tableau ℚ) (redundant : List Nat) : Submodule ℚ (ℕ → ℚ) :=
  rowSpan ((t.keptRows redundant).map fun i => t.programRow (i + 1))

theorem narrow_mem_keptEquations (hi : i < t.rowCount) (hnot : i ∉ redundant) :
    narrow t.structuralCount t.columnCount (t.entry i) ∈ t.keptEquations redundant := by
  rw [← coeff_programRow]
  exact coeff_mem_rowSpan (List.mem_map_of_mem (mem_keptRows_iff.2 ⟨hi, hnot⟩))

theorem keptEquations_le_iff {W : Submodule ℚ (ℕ → ℚ)} :
    t.keptEquations redundant ≤ W ↔ ∀ i < t.rowCount, i ∉ redundant →
      narrow t.structuralCount t.columnCount (t.entry i) ∈ W := by
  constructor
  · exact fun h i hi hnot => h (narrow_mem_keptEquations hi hnot)
  · intro h
    apply rowSpan_le_iff.2
    intro row hrow
    obtain ⟨i, hi, rfl⟩ := List.mem_map.1 hrow
    rw [coeff_programRow]
    exact h i (mem_keptRows_iff.1 hi).1 (mem_keptRows_iff.1 hi).2

end Tableau

namespace Problem.PresentsArtificial

open Tableau

variable {p : Problem ℚ} {t : Tableau ℚ} {redundant : List Nat} {i k : Nat}

theorem wellFormed_restated (h : p.PresentsArtificial t)
    (hstructural : ∀ i < t.rowCount, i ∉ redundant → t.basic i < t.structuralCount) :
    (t.restated redundant p).WellFormed :=
  h.wellFormed.restated (structuralCount_eq h) hstructural

theorem restated_entry_basic (h : p.PresentsArtificial t)
    (hstructural : ∀ i < t.rowCount, i ∉ redundant → t.basic i < t.structuralCount)
    (hi : i < (t.keptRows redundant).length) (hk : k < t.rowCount) :
    narrow t.structuralCount t.columnCount (t.entry k)
      ((t.restated redundant p).basic i) = if k = (t.keptRows redundant)[i] then 1 else 0 := by
  obtain ⟨hlt, hnot⟩ := mem_keptRows_iff.1 (List.getElem_mem hi)
  rw [restated_basic hi, narrow_of_lt (hstructural _ hlt hnot), h.states.unit _ hlt _ hk]

theorem restated_relativeCost_basic (h : p.PresentsArtificial t)
    (hstructural : ∀ i < t.rowCount, i ∉ redundant → t.basic i < t.structuralCount)
    (hi : i < (t.keptRows redundant).length) :
    (t.restated redundant p).relativeCost ((t.restated redundant p).basic i) = 0 := by
  rw [restated_relativeCost_eq,
    coeff_reduceCosts fun term hterm => length_of_mem_terms (structuralCount_eq h) hterm,
    coeff_minimizationCost_append, List.map_map, ← List.sum_toFinset _ nodup_keptRows,
    Finset.sum_eq_single_of_mem (t.keptRows redundant)[i]
      (List.mem_toFinset.2 (List.getElem_mem hi))]
  · have hlt := (mem_keptRows_iff.1 (List.getElem_mem hi)).1
    simp only [Function.comp_apply, coeff_programRow]
    rw [h.restated_entry_basic hstructural hi hlt, if_pos rfl, mul_one, restated_basic hi, sub_self]
  · intro k hk hne
    have hlt := (mem_keptRows_iff.1 (List.mem_toFinset.1 hk)).1
    simp only [Function.comp_apply, coeff_programRow]
    rw [h.restated_entry_basic hstructural hi hlt, if_neg hne, mul_zero]

/-- Phase two starts with a tableau that states what the rows which are not redundant do, feasible
or not. -/
theorem presents_restated (h : p.PresentsArtificial t)
    (hstructural : ∀ i < t.rowCount, i ∉ redundant → t.basic i < t.structuralCount) :
    (t.restated redundant p).Presents (t.keptEquations redundant) (coeff p.minimizationCost)
      p.variableCount 0
    where
  states := {
    wellFormed := h.wellFormed_restated hstructural
    equations_eq := rfl
    cost_mem := by
      have hmem := reduceCosts_sub_mem fun term
        (hterm : term ∈ (t.keptRows redundant).map _) =>
          length_of_mem_terms (structuralCount_eq h) hterm
      rw [coeff_minimizationCost_append, List.map_map] at hmem
      exact hmem
    unit := by
      intro i hi k hk
      rw [restated_rowCount] at hi hk
      have hlt := (mem_keptRows_iff.1 (List.getElem_mem hk)).1
      rw [restated_entry hk, h.restated_entry_basic hstructural hi hlt]
      simp only [nodup_keptRows.getElem_inj_iff]
    unit_cost := by
      intro i hi
      have hlt := (h.wellFormed_restated hstructural).basic_lt hi
      rw [restated_rowCount] at hi
      have hnot : ¬ (t.restated redundant p).IsArtificial ((t.restated redundant p).basic i) :=
        not_isArtificial_iff.2 hlt
      rw [h.restated_relativeCost_basic hstructural hi, if_neg hnot] }
  columnCount_eq := restated_columnCount.trans (structuralCount_eq h)
  artificials_eq := rfl

end Problem.PresentsArtificial

namespace Problem.Reduced

open Tableau

variable {p : Problem ℚ} {t : Tableau ℚ} {redundant : List Nat}

theorem structuralCount_eq (h : p.Reduced t redundant) : t.structuralCount = p.variableCount :=
  h.canonical.structuralCount_eq

theorem withCosts?_eq (h : p.Reduced t redundant) :
    t.withCosts? redundant p = some (t.restated redundant p) :=
  h.canonical.states.wellFormed.withCosts?_eq h.structuralCount_eq h.sorted h.structural

/-- The rows that are left span all constraints. -/
theorem keptEquations_eq (h : p.Reduced t redundant) : t.keptEquations redundant = p.equations := by
  have hwell := h.canonical.states.wellFormed
  have hmap : t.equations.map (narrow t.structuralCount t.columnCount) = p.equations := by
    rw [h.canonical.states.equations_eq, h.structuralCount_eq, h.canonical.columnCount_eq,
      map_narrow_artificialEquations]
  apply le_antisymm
  · apply keptEquations_le_iff.2
    intro i hi _
    rw [← hmap]
    exact Submodule.mem_map_of_mem (hwell.entry_mem_equations hi)
  · rw [← hmap, Submodule.map_le_iff_le_comap]
    apply hwell.equations_le_iff.2
    intro i hi
    rw [Submodule.mem_comap]
    by_cases hredundant : i ∈ redundant
    · -- A redundant row is null, so it adds nothing.
      rw [(h.nullRow i hredundant).narrow_eq_zero]
      exact Submodule.zero_mem _
    · exact narrow_mem_keptEquations hi hredundant

/-- Phase two starts with a tableau that states the program with respect to a feasible basis. -/
theorem canonical_restated (h : p.Reduced t redundant) :
    (t.restated redundant p).Canonical p.equations (coeff p.minimizationCost) p.variableCount 0
    where
  states := by
    rw [← h.keptEquations_eq]
    exact (PresentsArtificial.presents_restated h.canonical.presents h.structural).states
  nonneg := by
    intro k hk
    rw [restated_rowCount] at hk
    rw [restated_value hk]
    exact h.canonical.nonneg _ (mem_keptRows_iff.1 (List.getElem_mem hk)).1
  columnCount_eq := restated_columnCount.trans h.structuralCount_eq
  artificials_eq := rfl

end Problem.Reduced

end SimplexMethod
