import Mathlib.Tactic
import SimplexMethod.Proofs.Tableau.Artificial

/-!
# Reading the program off the artificial problem

Without the artificial columns, the equations of the artificial problem are those of the program
(`map_narrow_artificialEquations`), since the change of signs only scales them. A tableau that
states the artificial problem has as relative costs minus the sums of the rows in which artificial
variables are basic (`PresentsArtificial.relativeCost_eq`), so its objective is the sum of their
values (`PresentsArtificial.objective_eq`).

Phase one looks for profitable columns among the structural ones only. When there is none and the
objective is positive, the cost row without its artificial columns, whatever these hold, is a
combination of the constraints that refutes them (`CanonicalArtificial.exists_refutes`).
-/

set_option autoImplicit false

namespace SimplexMethod

/-- A row without the columns between the first `n` and the right-hand side, which moves from place
`last` to place `n`. -/
def narrow (n last : ℕ) : (ℕ → ℚ) →ₗ[ℚ] (ℕ → ℚ) where
  toFun v j := if j < n then v j else if j = n then v last else 0
  map_add' v w := by
    funext j
    simp only [Pi.add_apply]
    split_ifs <;> simp
  map_smul' a v := by
    funext j
    simp only [Pi.smul_apply, RingHom.id_apply]
    split_ifs <;> simp

section Narrow

variable {n last j : ℕ} {v : ℕ → ℚ}

theorem narrow_of_lt (hj : j < n) : narrow n last v j = v j := if_pos hj

theorem narrow_self : narrow n last v n = v last := by
  show (if n < n then v n else if n = n then v last else 0) = _
  rw [if_neg (lt_irrefl n), if_pos rfl]

theorem narrow_of_gt (hj : n < j) : narrow n last v j = 0 := by
  show (if j < n then v j else if j = n then v last else 0) = _
  rw [if_neg hj.not_gt, if_neg hj.ne']

/-- Narrow rows are equal when they agree on the first columns and on the right-hand side. -/
theorem narrow_eq {w : ℕ → ℚ} (hlt : ∀ j < n, v j = w j) (hlast : v last = w n)
    (hgt : ∀ j, n < j → w j = 0) : narrow n last v = w := by
  funext j
  rcases lt_trichotomy j n with hj | rfl | hj
  · rw [narrow_of_lt hj, hlt j hj]
  · rw [narrow_self, hlast]
  · rw [narrow_of_gt hj, hgt j hj]

end Narrow

namespace Problem

variable {p : Problem ℚ}

/-- A constraint with its value at the end. -/
def constraint (p : Problem ℚ) (i : Nat) : List ℚ :=
  p.constraints.rows.getD i [] ++ [coeff p.values i]

theorem constraint_mem_equations {i : Nat} (hi : i < p.constraintCount) :
    coeff (p.constraint i) ∈ p.equations :=
  coeff_mem_rowSpan (List.mem_of_getElem? (RowMatrix.augmented_getElem? p.values_length hi))

theorem equations_le_iff {W : Submodule ℚ (ℕ → ℚ)} :
    p.equations ≤ W ↔ ∀ i < p.constraintCount, coeff (p.constraint i) ∈ W := by
  constructor
  · intro hle i hi
    exact hle (constraint_mem_equations hi)
  · intro hall
    refine rowSpan_le_iff.2 (RowMatrix.forall_mem_augmented.2 fun i row value hrow hvalue => ?_)
    have hi : i < p.constraintCount := (List.getElem?_eq_some_iff.1 hrow).1
    have hmem := hall i hi
    rw [constraint, List.getD_eq_getElem?_getD, hrow, Option.getD_some,
      coeff_of_getElem? hvalue] at hmem
    exact hmem

/-- A row of the artificial problem without its artificial columns is the constraint, with another
sign when its value is negative. -/
theorem narrow_artificialTableau_entry {i : Nat} (hi : i < p.constraintCount) :
    narrow p.variableCount (p.variableCount + p.constraintCount) (p.artificialTableau.entry i) =
      signFor (coeff p.values i) • coeff (p.constraint i) := by
  have hlen : (p.constraints.rows.getD i []).length = p.variableCount :=
    p.rectangular.length_getD hi
  refine narrow_eq (fun j hj => ?_) ?_ fun j hj => ?_
  · rw [artificialTableau_entry_structural hi hj, Pi.smul_apply, smul_eq_mul, constraint,
      coeff_append_left _ (hlen.symm ▸ hj)]
    rfl
  · have hvalue := artificialTableau_value hi
    rw [Tableau.value, artificialTableau_columnCount] at hvalue
    rw [hvalue, Pi.smul_apply, smul_eq_mul, constraint, ← hlen, coeff_concat_length]
    rfl
  · have hbeyond : (p.constraint i).length ≤ j := by
      rw [constraint, List.length_append, hlen]
      exact hj
    rw [Pi.smul_apply, coeff_of_length_le hbeyond, smul_zero]

/-- Without artificial columns, the equations of the artificial problem are those of the program. -/
theorem map_narrow_artificialEquations :
    p.artificialEquations.map
      (narrow p.variableCount (p.variableCount + p.constraintCount)) = p.equations := by
  have hwell := wellFormed_artificialTableau (p := p)
  apply le_antisymm
  · rw [Submodule.map_le_iff_le_comap]
    apply hwell.equations_le_iff.2
    intro i hi
    rw [artificialTableau_rowCount] at hi
    rw [Submodule.mem_comap, narrow_artificialTableau_entry hi]
    exact Submodule.smul_mem _ _ (constraint_mem_equations hi)
  · apply equations_le_iff.2
    intro i hi
    have hmem := hwell.entry_mem_equations (i := i) (by rwa [artificialTableau_rowCount])
    refine ⟨_, Submodule.smul_mem _ (signFor (coeff p.values i)) hmem, ?_⟩
    rw [map_smul, narrow_artificialTableau_entry hi, smul_smul, signFor_mul_signFor, one_smul]

/-- The tableau states the artificial problem of a program. -/
abbrev PresentsArtificial (p : Problem ℚ) (t : Tableau ℚ) : Prop :=
  t.Presents p.artificialEquations p.artificialCost (p.variableCount + p.constraintCount)
    p.constraintCount

/-- The tableau states the artificial problem of a program with respect to a feasible basis. -/
abbrev CanonicalArtificial (p : Problem ℚ) (t : Tableau ℚ) : Prop :=
  t.Canonical p.artificialEquations p.artificialCost (p.variableCount + p.constraintCount)
    p.constraintCount

end Problem

/-! ## Tableaus of the artificial problem -/

namespace Problem.PresentsArtificial

open Tableau

variable {p : Problem ℚ} {t : Tableau ℚ} {i j : Nat}

theorem structuralCount_eq (h : p.PresentsArtificial t) : t.structuralCount = p.variableCount := by
  rw [Tableau.Presents.structuralCount_eq h, Nat.add_sub_cancel]

theorem artificialCost_of_lt (hj : j < p.variableCount) : p.artificialCost j = 0 :=
  if_neg (by omega)

theorem artificialCost_last :
    p.artificialCost (p.variableCount + p.constraintCount) = 0 :=
  if_neg (by omega)

theorem artificialCost_basic (h : p.PresentsArtificial t) (hi : i < t.rowCount) :
    p.artificialCost (t.basic i) - t.relativeCost (t.basic i) =
      if t.IsArtificial (t.basic i) then 1 else 0 := by
  have hlt := h.wellFormed.basic_lt hi
  rw [h.columnCount_eq] at hlt
  rw [h.states.unit_cost i hi]
  split
  · next hart =>
    have hle : p.variableCount ≤ t.basic i := by
      rw [← structuralCount_eq h]
      exact hart
    rw [artificialCost, if_pos ⟨hle, hlt⟩]
    norm_num
  · next hart =>
    have hstructural : t.basic i < p.variableCount := by
      rw [← structuralCount_eq h]
      exact not_isArtificial_iff.1 hart
    rw [artificialCost_of_lt hstructural, sub_zero]

/-- The relative costs are the artificial costs less the rows in which artificial variables are
basic. -/
theorem relativeCost_eq (h : p.PresentsArtificial t) (j : Nat) :
    t.relativeCost j = p.artificialCost j -
      ∑ i ∈ Finset.range t.rowCount,
        if t.IsArtificial (t.basic i) then t.entry i j else 0 := by
  rw [h.states.relativeCost_eq j]
  congr 1
  apply Finset.sum_congr rfl
  intro i hi
  rw [artificialCost_basic h (Finset.mem_range.1 hi), ite_mul, one_mul, zero_mul]

/-- The objective is the sum of the values of the artificial variables. -/
theorem objective_eq (h : p.PresentsArtificial t) :
    t.objective = ∑ i ∈ Finset.range t.rowCount,
      if t.IsArtificial (t.basic i) then t.value i else 0 := by
  rw [objective, relativeCost_eq h, h.columnCount_eq, artificialCost_last, zero_sub, neg_neg]
  simp only [value, h.columnCount_eq]

/-- A column without positive entries does not lower the sum of the artificial variables. -/
theorem relativeCost_nonneg (h : p.PresentsArtificial t) (hj : j < t.structuralCount)
    (hentries : ∀ i < t.rowCount, t.entry i j ≤ 0) : 0 ≤ t.relativeCost j := by
  rw [structuralCount_eq h] at hj
  rw [relativeCost_eq h, artificialCost_of_lt hj, zero_sub, neg_nonneg]
  apply Finset.sum_nonpos
  intro i hi
  split
  · exact hentries i (Finset.mem_range.1 hi)
  · exact le_rfl

end Problem.PresentsArtificial

namespace Problem.CanonicalArtificial

open Tableau PresentsArtificial

variable {p : Problem ℚ} {t : Tableau ℚ} {i j : Nat}

theorem structuralCount_eq (h : p.CanonicalArtificial t) : t.structuralCount = p.variableCount :=
  PresentsArtificial.structuralCount_eq h.presents

theorem objective_nonneg (h : p.CanonicalArtificial t) : 0 ≤ t.objective := by
  rw [objective_eq h.presents]
  apply Finset.sum_nonneg
  intro i hi
  split
  · exact h.nonneg i (Finset.mem_range.1 hi)
  · exact le_rfl

/-- When the objective is zero, all artificial variables are. -/
theorem value_eq_zero (h : p.CanonicalArtificial t) (hobjective : t.objective = 0)
    (hi : i < t.rowCount) (hart : t.IsArtificial (t.basic i)) : t.value i = 0 := by
  rw [objective_eq h.presents, Finset.sum_eq_zero_iff_of_nonneg] at hobjective
  · have hzero := hobjective i (Finset.mem_range.2 hi)
    rwa [if_pos hart] at hzero
  · intro k hk
    split
    · exact h.nonneg k (Finset.mem_range.1 hk)
    · exact le_rfl

/-- Without its artificial columns, the cost row is a combination of the constraints. -/
theorem narrow_relativeCost_mem (h : p.CanonicalArtificial t) :
    narrow p.variableCount (p.variableCount + p.constraintCount) t.relativeCost ∈ p.equations := by
  -- The artificial costs are all in columns that are left out.
  have hcost : narrow p.variableCount (p.variableCount + p.constraintCount) p.artificialCost = 0 :=
    narrow_eq (fun j hj => artificialCost_of_lt hj) artificialCost_last fun _ _ => rfl
  have hmem := Submodule.mem_map_of_mem
    (f := narrow p.variableCount (p.variableCount + p.constraintCount)) h.states.cost_mem
  rwa [map_sub, hcost, sub_zero, map_narrow_artificialEquations] at hmem

/-- Where no structural column is profitable and the objective is positive, the constraints are
refuted. -/
theorem exists_refutes (h : p.CanonicalArtificial t)
    (hstay : ∀ j, ¬ t.Profitable 0 j) (hobjective : 0 < t.objective) : ∃ y, p.Refutes y := by
  -- The prices are the factors of the constraints in the cost row, with their signs changed.
  obtain ⟨y, hlen, hcolumn, hvalues⟩ := p.rectangular.exists_factors p.values_length
    (Submodule.neg_mem _ (narrow_relativeCost_mem h))
  have hcost (j : Nat) (hj : j < p.variableCount) : 0 ≤ t.relativeCost j := by
    have hlt : j < t.structuralCount := by rwa [structuralCount_eq h]
    by_cases hmem : j ∈ t.basis
    · obtain ⟨i, hi, rfl⟩ := mem_basis_iff.1 hmem
      rw [h.states.unit_cost i hi, if_neg (not_isArtificial_iff.2 hlt)]
    · refine not_lt.1 fun hneg => hstay j ⟨hlt, hmem, ?_⟩
      rwa [neg_zero]
  refine ⟨y, hlen, fun j hj => ?_, ?_⟩
  · rw [← hcolumn j hj, Pi.neg_apply, narrow_of_lt hj]
    exact neg_nonpos.2 (hcost j hj)
  · rw [← hvalues, Pi.neg_apply]
    show 0 < -narrow p.variableCount _ t.relativeCost p.variableCount
    rw [narrow_self, ← h.columnCount_eq]
    exact hobjective

end Problem.CanonicalArtificial

end SimplexMethod
