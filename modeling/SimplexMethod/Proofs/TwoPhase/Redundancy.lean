import Mathlib.LinearAlgebra.Dimension.OrzechProperty
import Mathlib.Tactic
import SimplexMethod.Proofs.Outcome.Agreement
import SimplexMethod.Proofs.RowMatrix.Columns
import SimplexMethod.Proofs.Tableau.Inverse
import SimplexMethod.Proofs.TwoPhase.Bases

/-!
# Redundant constraints

The rows that phase one finds redundant without tolerance are found on tableaus in which the
constraints have been combined and divided many times. Still they are right for the constraints as
they were given (`Problem.phaseOne?_redundant`): the constraints that are left are independent and
as many as the rank says, and each redundant one is a combination of them, right-hand side included.

A redundant row is null at the end of phase one, and the artificial variable that is basic in it is
its own. The artificial columns of the row hold the factors with which the constraints add up to it.
The factor of its own constraint is one, and the other redundant constraints have the factor zero,
so that its constraint is the combination of those that are left (`Reached.constraint_eq_sum`). Hence
the constraints that are left span all of them, and as there are only as many as the rank says, they
are independent.
-/

set_option autoImplicit false

namespace SimplexMethod

open Tableau

/-! ## Rows that are left -/

/-- Every row is redundant or left. -/
theorem Tableau.length_add_length_keptRows {F : Type} {t : Tableau F} {redundant : List Nat}
    (hsorted : redundant.Pairwise (· < ·)) (hlt : ∀ i ∈ redundant, i < t.rowCount) :
    redundant.length + (t.keptRows redundant).length = t.rowCount :=
  (remains_removePositions hsorted t.basis).length_add_length hsorted hlt

namespace Problem

variable {p : Problem ℚ} {t : Tableau ℚ} {options : Options ℚ} {rule : PivotRule}
  {redundant : List Nat} {i : Nat}

/-! ## Phase one -/

/-- The tableaus of phase one are reached from that of the artificial problem, also while artificial
variables are expelled. -/
theorem reached_of_phaseOne? (htolerance : 0 ≤ options.tolerance) {stage : Stage ℚ Feasibility}
    (h : phaseOne? options rule p.artificialTableau = some stage) :
    stage.walk.All p.Reached := by
  obtain ⟨w, ending, hdescend, hconcludes⟩ := concludes_of_phaseOne? h
  have hall : w.All p.Reached :=
    descend?_all (fun ht hmove hbring => ht.move htolerance hmove hbring)
      (Walk.all_startingAt .start) hdescend
  have hexpel {w' : Walk ℚ} {result : Option (List Nat)}
      (hresult : expel? options (List.range w.tableau.rowCount) w = some (w', result)) :
      w'.All p.Reached := by
    refine expel?_keeps (fun hv => hv.tableau.shaped.wellFormed) ?_ hall
      (fun row hrow => List.mem_range.1 hrow) hresult
    rintro v row entering hv hrow - hchoice -
    obtain ⟨hentering, hnew, hlarge⟩ := hv.tableau.shaped.wellFormed.replacement_bounds hchoice
    have hne : v.tableau.entry row entering ≠ 0 := by
      intro hzero
      rw [hzero, Scalar.negligible_iff, abs_zero] at hlarge
      exact hlarge htolerance
    exact hv.step (hv.tableau.bringIn hentering hnew hrow hne)
  cases hconcludes with
  | limited => exact hall
  | unbounded => exact hall
  | infeasible => exact hall
  | structural => exact hall
  | cutShort _ _ hresult => exact hexpel hresult
  | expelled _ _ hresult => exact hexpel hresult

/-! ## Combinations -/

/-- The factor with which a constraint contributes to one whose row is null. -/
def factor (p : Problem ℚ) (t : Tableau ℚ) (i k : Nat) : ℚ :=
  -(signFor (coeff p.values i) * (t.entry i (p.variableCount + k) * signFor (coeff p.values k)))

namespace Reached

/-- In a null row the constraints add up to zero. -/
theorem sum_constraint_eq_zero (h : p.Reached t) (hnull : t.NullRow i) :
    ∑ k ∈ Finset.range p.constraintCount,
      (t.entry i (p.variableCount + k) * signFor (coeff p.values k)) • coeff (p.constraint k) =
        0 := by
  have hentry : t.entry i = ∑ k ∈ Finset.range p.constraintCount,
      t.entry i (p.variableCount + k) • p.artificialTableau.entry k := by
    funext j
    have hmem := h.presents.states.entry_mem hnull.row_lt
    rw [eq_sum_of_mem_artificialEquations hmem j, Finset.sum_apply, Finset.sum_range]
    rfl
  have hzero := hnull.narrow_eq_zero
  rw [PresentsArtificial.structuralCount_eq h.presents, h.presents.columnCount_eq, hentry,
    map_sum] at hzero
  rw [← hzero]
  refine Finset.sum_congr rfl fun k hk => ?_
  rw [map_smul, narrow_artificialTableau_entry (Finset.mem_range.1 hk), smul_smul]

/-- The constraint of a null row is a combination of those of the rows that are not redundant, when
the variables that are basic in the redundant rows are their own artificial variables. -/
theorem constraint_eq_sum (h : p.Reached t)
    (hbasic : ∀ k ∈ redundant, k < p.constraintCount ∧ t.basic k = p.variableCount + k)
    (hi : i ∈ redundant) (hnull : t.NullRow i) :
    coeff (p.constraint i) = ∑ k ∈ (Finset.range p.constraintCount).filter (· ∉ redundant),
      p.factor t i k • coeff (p.constraint k) := by
  obtain ⟨hlt, hown⟩ := hbasic i hi
  have hsum := h.sum_constraint_eq_zero hnull
  rw [← Finset.sum_filter_add_sum_filter_not _ (· ∈ redundant)] at hsum
  -- Among the redundant constraints, only that of the row itself is in the sum.
  have hself : ∑ k ∈ (Finset.range p.constraintCount).filter (· ∈ redundant),
      (t.entry i (p.variableCount + k) * signFor (coeff p.values k)) • coeff (p.constraint k) =
        signFor (coeff p.values i) • coeff (p.constraint i) := by
    rw [Finset.sum_eq_single_of_mem i (Finset.mem_filter.2 ⟨Finset.mem_range.2 hlt, hi⟩)]
    · rw [← hown, h.presents.states.unit_self hnull.row_lt, one_mul]
    · intro k hk hne
      obtain ⟨hkm, hkown⟩ := hbasic k (Finset.mem_filter.1 hk).2
      rw [← hkown, h.presents.states.unit_of_ne (h.row_lt ⟨k, hkm⟩) hnull.row_lt hne.symm,
        zero_mul, zero_smul]
  rw [hself] at hsum
  calc coeff (p.constraint i)
      = signFor (coeff p.values i) • signFor (coeff p.values i) • coeff (p.constraint i) := by
        rw [smul_smul, signFor_mul_signFor, one_smul]
    _ = _ := by
        rw [eq_neg_of_add_eq_zero_left hsum, smul_neg, Finset.smul_sum, ← Finset.sum_neg_distrib]
        refine Finset.sum_congr rfl fun k _ => ?_
        rw [smul_smul, ← neg_smul, factor]

end Reached

/-! ## Ranks -/

/-- The constraint is a linear combination of those that are not redundant, right-hand side
included. -/
def DependsOnKept (p : Problem ℚ) (redundant : List Nat) (i : Nat) : Prop :=
  ∃ factors : ℕ → ℚ, coeff (p.constraint i) =
    ∑ k ∈ (Finset.range p.constraintCount).filter (· ∉ redundant),
      factors k • coeff (p.constraint k)

/-- The constraints that are not redundant. -/
def keptConstraints (p : Problem ℚ) (redundant : List Nat) : Set (Fin p.constraints.rowCount) :=
  {k | (k : ℕ) ∉ redundant}

/-- The coefficients of a constraint are a row of the matrix. -/
theorem restrict_constraint (k : Fin p.constraints.rowCount) :
    RowMatrix.restrict p.variableCount (coeff (p.constraint k)) = p.constraints.toMatrix.row k := by
  have hlen := p.rectangular.length_getD k.2
  funext j
  exact coeff_append_left _ (j.2.trans_eq hlen.symm)

/-- When the redundant constraints depend on the others, these span all rows of the matrix. -/
theorem span_keptConstraints (h : ∀ i ∈ redundant, p.DependsOnKept redundant i) :
    Submodule.span ℚ
        (Set.range fun k : p.keptConstraints redundant => p.constraints.toMatrix.row k) =
      Submodule.span ℚ (Set.range p.constraints.toMatrix.row) := by
  apply le_antisymm
  · exact Submodule.span_mono (Set.range_comp_subset_range Subtype.val p.constraints.toMatrix.row)
  · apply Submodule.span_le.2
    rintro _ ⟨i, rfl⟩
    by_cases hi : (i : ℕ) ∈ redundant
    · obtain ⟨factors, hfactors⟩ := h i hi
      rw [← restrict_constraint, hfactors, map_sum]
      refine Submodule.sum_mem _ fun k hk => ?_
      obtain ⟨hlt, hnot⟩ := Finset.mem_filter.1 hk
      rw [map_smul, restrict_constraint ⟨k, Finset.mem_range.1 hlt⟩]
      exact Submodule.smul_mem _ _ (Submodule.subset_span ⟨⟨_, hnot⟩, rfl⟩)
    · exact Submodule.subset_span ⟨⟨i, hi⟩, rfl⟩

namespace Reached

theorem card_keptConstraints (h : p.Reached t) [Fintype (p.keptConstraints redundant)] :
    Fintype.card (p.keptConstraints redundant) = (t.keptRows redundant).length := by
  rw [← length_listed, keptRows, h.shaped.rowCount_eq, listed]
  congr 1
  refine List.filter_congr fun k hk => decide_eq_decide.2 ?_
  exact exists_prop_of_true (List.mem_range.1 hk)

end Reached

/-- As many rows are left as the rank of the constraints says. -/
theorem Reduced.length_keptRows (h : p.Reduced t redundant) :
    (t.keptRows redundant).length = p.constraints.toMatrix.rank := by
  rw [← restated_rowCount (p := p)]
  exact CanonicalProgram.rowCount_eq_rank h.canonical_restated

/-- Without tolerance, phase one lists exactly the redundant constraints. The constraints that are
left are independent and as many as the rank of all constraints says, and each of those that are
listed, with its right-hand side, is a combination of them. -/
theorem phaseOne?_redundant (htolerance : options.tolerance = 0) {one : Walk ℚ}
    (h : phaseOne? options rule p.artificialTableau = some ⟨one, .ok (.feasible redundant)⟩) :
    redundant.Pairwise (· < ·) ∧ (∀ i ∈ redundant, i < p.constraintCount) ∧
      redundant.length + p.constraints.toMatrix.rank = p.constraintCount ∧
      LinearIndepOn ℚ p.constraints.toMatrix.row (p.keptConstraints redundant) ∧
      ∀ i ∈ redundant, p.DependsOnKept redundant i := by
  have hreduced := reduced_of_phaseOne? htolerance h rfl
  have hreached := (reached_of_phaseOne? htolerance.ge h).tableau
  have hbasic (k : Nat) (hk : k ∈ redundant) := basic_of_mem_redundant h hk
  have hdepends : ∀ i ∈ redundant, p.DependsOnKept redundant i := fun i hi =>
    ⟨_, hreached.constraint_eq_sum hbasic hi (hreduced.nullRow i hi)⟩
  have hlength := length_add_length_keptRows hreduced.sorted fun i hi =>
    (hreduced.nullRow i hi).row_lt
  rw [hreduced.length_keptRows, hreached.shaped.rowCount_eq] at hlength
  refine ⟨hreduced.sorted, fun i hi => (hbasic i hi).1, hlength, ?_, hdepends⟩
  -- The rows that are left span all rows, and they are only as many as the rank says.
  have := Fintype.ofFinite (p.keptConstraints redundant)
  apply linearIndependent_iff_card_eq_finrank_span.2
  rw [hreached.card_keptConstraints, hreduced.length_keptRows, Set.finrank,
    span_keptConstraints hdepends, Matrix.rank_eq_finrank_span_row]

/-- A program whose second constraint is the first one taken twice, and whose third one, with a
negative value, fixes a variable at a vertex where two constraints meet. -/
def overstated : Problem ℚ where
  constraints := ⟨[[1, 1, 0, 0], [2, 2, 0, 0], [-1, 0, 0, 0], [0, 0, 1, 1]], 4⟩
  values := [2, 4, -2, 1]
  minimizationCost := [1, 1, 2, 1]
  direction := .minimize
  rows_ne_nil := List.cons_ne_nil _ _
  columns_pos := by decide
  rectangular := by simp [RowMatrix.Rectangular]
  values_length := rfl
  cost_length := rfl

/-- The second row is listed before the third one is pivoted in, and it stays null. -/
theorem phaseOne?_redundant_overstated :
    ∃ one, phaseOne? ⟨10, 0⟩ .first overstated.artificialTableau =
        some ⟨one, .ok (.feasible [1])⟩ ∧
      overstated.constraints.toMatrix.rank = 3 ∧
      LinearIndepOn ℚ overstated.constraints.toMatrix.row (overstated.keptConstraints [1]) ∧
      overstated.DependsOnKept [1] 1 := by
  have houtcome : ((phaseOne? ⟨10, 0⟩ .first overstated.artificialTableau).map Stage.outcome) =
      some (.ok (.feasible [1])) := by decide +kernel
  obtain ⟨⟨one, outcome⟩, hone, rfl⟩ := Option.map_eq_some_iff.1 houtcome
  obtain ⟨-, -, hcount, hindependent, hdepends⟩ := phaseOne?_redundant rfl hone
  refine ⟨one, hone, ?_, hindependent, hdepends 1 List.mem_cons_self⟩
  exact Nat.add_left_cancel hcount

end Problem

end SimplexMethod
