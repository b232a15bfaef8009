import Mathlib.Tactic
import SimplexMethod.Proofs.Tableau.Costs
import SimplexMethod.Proofs.Tableau.Solutions
import SimplexMethod.TwoPhase.Optimum

/-!
# Phase two

At every tableau of the program that phase two passes, the basic solution is feasible and its cost
is the objective of the tableau (`CanonicalProgram.feasible_basicSolution`,
`CanonicalProgram.dot_basicSolution`). At a tableau without profitable columns the cost row, less
the cost, gives prices for the constraints that no feasible point can beat
(`CanonicalProgram.exists_boundedBy`); where nothing limits a profitable column, the basic solution
moves along a direction in which the feasible region does not end (`CanonicalProgram.recedes`).
-/

set_option autoImplicit false

namespace SimplexMethod

/-- What is found at a tableau: it is read off when no column is profitable, or when nothing limits
a profitable column. -/
def Tableau.Finds (t : Tableau ℚ) : Optimum ℚ → Prop
  | .attained minimum values basis =>
    (∀ j, ¬ t.Profitable 0 j) ∧ minimum = t.objective ∧ values = t.basicSolution ∧ basis = t.basis
  | .unbounded ray => ∃ entering column, t.Profitable 0 entering ∧
      t.column? entering = some column ∧ (∀ i < t.rowCount, t.entry i entering ≤ 0) ∧
      ray = ⟨t.basicSolution, t.directionOf entering column⟩

/-- The basic solution satisfies what the tableau states, feasible or not. -/
theorem Tableau.Presents.gap_basicSolution {t : Tableau ℚ} {W : Submodule ℚ (ℕ → ℚ)}
    {cost : ℕ → ℚ} {columns : Nat} (h : t.Presents W cost columns 0) :
    ∀ v ∈ W, gap columns (coeff t.basicSolution) v = 0 := by
  have hpoint := h.states.gap_point
  rw [h.columnCount_eq] at hpoint
  rw [gap_congr fun j hj => coeff_basicSolution h.wellFormed (h.structuralCount_eq.symm ▸ hj)]
  exact hpoint

namespace Problem

open Tableau

variable {p : Problem ℚ} {t : Tableau ℚ} {entering : Nat}

/-- The tableau states the program with respect to a feasible basis. -/
abbrev CanonicalProgram (p : Problem ℚ) (t : Tableau ℚ) : Prop :=
  t.Canonical p.equations (coeff p.minimizationCost) p.variableCount 0

namespace CanonicalProgram

theorem wellFormed (h : p.CanonicalProgram t) : t.WellFormed := h.states.wellFormed

theorem structuralCount_eq (h : p.CanonicalProgram t) : t.structuralCount = p.variableCount :=
  Canonical.structuralCount_eq h

theorem relativeCost_basic (h : p.CanonicalProgram t) {i : Nat} (hi : i < t.rowCount) :
    t.relativeCost (t.basic i) = 0 := by
  have hlt := h.wellFormed.basic_lt hi
  rw [h.columnCount_eq, ← h.structuralCount_eq] at hlt
  rw [h.states.unit_cost i hi, if_neg (not_isArtificial_iff.2 hlt)]

/-! ## The basic solution -/

theorem length_basicSolution (h : p.CanonicalProgram t) :
    t.basicSolution.length = p.variableCount :=
  Tableau.length_basicSolution.trans h.structuralCount_eq

theorem coeff_basicSolution (h : p.CanonicalProgram t) {j : Nat} (hj : j < p.variableCount) :
    coeff t.basicSolution j = t.point j :=
  Tableau.coeff_basicSolution h.wellFormed (h.structuralCount_eq ▸ hj)

theorem coeff_basicSolution_eq_zero (h : p.CanonicalProgram t) {j : Nat} (hj : j ∉ t.basis) :
    coeff t.basicSolution j = 0 := by
  rcases lt_or_ge j p.variableCount with hlt | hle
  · rw [h.coeff_basicSolution hlt, point, scatter_of_notMem _ hj]
  · exact coeff_of_length_le (h.length_basicSolution.trans_le hle)

theorem gap_basicSolution (h : p.CanonicalProgram t) :
    ∀ v ∈ p.equations, gap p.variableCount (coeff t.basicSolution) v = 0 :=
  h.presents.gap_basicSolution

/-- The basic solution is feasible. -/
theorem feasible_basicSolution (h : p.CanonicalProgram t) : p.Feasible t.basicSolution := by
  refine (feasible_iff h.length_basicSolution).2 ⟨fun j hj => ?_, h.gap_basicSolution⟩
  rw [h.coeff_basicSolution hj]
  exact h.wellFormed.point_nonneg h.nonneg j

/-- The cost of the basic solution is the objective of the tableau. -/
theorem dot_basicSolution (h : p.CanonicalProgram t) :
    Scalar.dot p.minimizationCost t.basicSolution = t.objective := by
  have hzero : leftSide p.variableCount (coeff t.basicSolution) t.relativeCost = 0 := by
    rw [leftSide_apply]
    apply Finset.sum_eq_zero
    intro j _
    -- In every place either the relative cost or the basic solution vanishes.
    by_cases hmem : j ∈ t.basis
    · obtain ⟨i, hi, rfl⟩ := mem_basis_iff.1 hmem
      rw [h.relativeCost_basic hi, zero_mul]
    · rw [h.coeff_basicSolution_eq_zero hmem, mul_zero]
  have hgap := h.states.gap_relativeCost h.gap_basicSolution
  rw [gap_apply, gap_apply, hzero, coeff_minimizationCost_variableCount, zero_sub, sub_zero]
    at hgap
  rw [dot_minimizationCost h.length_basicSolution, ← hgap, objective, h.columnCount_eq]

/-! ## Optimality -/

/-- Where no column is profitable, prices of the constraints show that the basic solution is
optimal. -/
theorem exists_boundedBy (h : p.CanonicalProgram t) (hstay : ∀ j, ¬ t.Profitable 0 j) :
    ∃ y, p.BoundedBy y t.objective := by
  -- The prices are the factors of the constraints in what the cost row lost.
  obtain ⟨y, hlen, hcolumn, hvalues⟩ := p.rectangular.exists_factors p.values_length
    (Submodule.neg_mem _ h.states.cost_mem)
  have hcost (j : Nat) (hj : j < p.variableCount) : 0 ≤ t.relativeCost j := by
    by_cases hmem : j ∈ t.basis
    · obtain ⟨i, hi, rfl⟩ := mem_basis_iff.1 hmem
      exact (h.relativeCost_basic hi).ge
    · refine not_lt.1 fun hneg => hstay j ⟨?_, hmem, ?_⟩
      · rwa [h.structuralCount_eq]
      · rwa [neg_zero]
  refine ⟨y, hlen, fun j hj => ?_, ?_⟩
  · rw [← hcolumn j hj, Pi.neg_apply, Pi.sub_apply, neg_sub]
    exact sub_le_self _ (hcost j hj)
  · rw [← hvalues, Pi.neg_apply, Pi.sub_apply, neg_sub, objective, h.columnCount_eq]
    show coeff p.minimizationCost p.variableCount - t.relativeCost p.variableCount = _
    rw [coeff_minimizationCost_variableCount, zero_sub]

/-! ## Directions -/

section Direction

variable {column : List ℚ}

theorem length_directionOf (h : p.CanonicalProgram t) :
    (t.directionOf entering column).length = p.variableCount :=
  Tableau.length_directionOf.trans h.structuralCount_eq

theorem coeff_directionOf (h : p.CanonicalProgram t) (hprofitable : t.Profitable 0 entering)
    (hcolumn : t.column? entering = some column) {j : Nat} (hj : j < p.variableCount) :
    coeff (t.directionOf entering column) j = t.ray entering j :=
  Tableau.coeff_directionOf h.wellFormed hprofitable.structural hprofitable.notMem hcolumn
    (h.structuralCount_eq ▸ hj)

theorem entering_lt (h : p.CanonicalProgram t) (hprofitable : t.Profitable 0 entering) :
    entering < p.variableCount :=
  h.structuralCount_eq ▸ hprofitable.structural

theorem leftSide_directionOf (h : p.CanonicalProgram t) (hprofitable : t.Profitable 0 entering)
    (hcolumn : t.column? entering = some column) :
    ∀ v ∈ p.equations,
      leftSide p.variableCount (coeff (t.directionOf entering column)) v = 0 := by
  have hlt := h.entering_lt hprofitable
  rw [← h.columnCount_eq] at hlt
  have hray := h.states.leftSide_ray_eq_zero hlt
  rw [h.columnCount_eq] at hray
  rw [leftSide_congr fun j hj => h.coeff_directionOf hprofitable hcolumn hj]
  exact hray

/-- Along the direction of a column that nothing limits, the feasible region does not end. -/
theorem recedes (h : p.CanonicalProgram t) (hprofitable : t.Profitable 0 entering)
    (hcolumn : t.column? entering = some column)
    (hfall : ∀ i < t.rowCount, t.entry i entering ≤ 0) :
    p.Recedes (t.directionOf entering column) := by
  refine (recedes_iff h.length_directionOf).2
    ⟨fun j hj => ?_, h.leftSide_directionOf hprofitable hcolumn⟩
  rw [h.coeff_directionOf hprofitable hcolumn hj]
  exact h.wellFormed.ray_nonneg hprofitable.notMem hfall j

/-- The cost changes along the direction of a column by its relative cost. -/
theorem dot_directionOf (h : p.CanonicalProgram t) (hprofitable : t.Profitable 0 entering)
    (hcolumn : t.column? entering = some column) :
    Scalar.dot p.minimizationCost (t.directionOf entering column) = t.relativeCost entering := by
  have hlt := h.entering_lt hprofitable
  rw [← h.columnCount_eq] at hlt
  have hray := h.wellFormed.leftSide_ray hlt t.relativeCost
  have hbasic : ∑ i ∈ Finset.range t.rowCount,
      t.relativeCost (t.basic i) * t.entry i entering = 0 := by
    apply Finset.sum_eq_zero
    intro i hi
    rw [h.relativeCost_basic (Finset.mem_range.1 hi), zero_mul]
  rw [hbasic, sub_zero, h.columnCount_eq,
    ← leftSide_congr fun j hj => h.coeff_directionOf hprofitable hcolumn hj] at hray
  rw [dot_minimizationCost h.length_directionOf, ← hray]
  exact (h.states.leftSide_relativeCost (h.leftSide_directionOf hprofitable hcolumn)).symm

end Direction

end CanonicalProgram

/-! ## The end of phase two -/

section PhaseTwo

variable {options : Options ℚ} {rule : PivotRule} {start : Tableau ℚ} {stage : Stage ℚ (Optimum ℚ)}

/-- The descent of phase two keeps to tableaus of the program. -/
theorem canonicalProgram_of_descend? {allowed : Nat} {w : Walk ℚ} {ending : Descent ℚ}
    (hstart : p.CanonicalProgram start)
    (h : descend? rule 0 allowed (.startingAt start) = some (w, ending)) :
    w.All p.CanonicalProgram :=
  descend?_all (fun ht hmove hbring => ht.move hmove hbring) (Walk.all_startingAt hstart) h

theorem canonicalProgram_of_phaseTwo? (htolerance : options.tolerance = 0)
    (hstart : p.CanonicalProgram start) (h : phaseTwo? options rule start = some stage) :
    stage.walk.All p.CanonicalProgram := by
  obtain ⟨w, ending, hdescend, hconcludes⟩ := concludes_of_phaseTwo? h
  rw [htolerance] at hdescend
  have hall := canonicalProgram_of_descend? hstart hdescend
  cases hconcludes <;> exact hall

/-- Phase two reads what it finds off its last tableau. -/
theorem phaseTwo?_cases (htolerance : options.tolerance = 0) (hstart : p.CanonicalProgram start)
    {optimum : Optimum ℚ} (h : phaseTwo? options rule start = some stage)
    (hfound : stage.outcome = .ok optimum) :
    p.CanonicalProgram stage.walk.tableau ∧ stage.walk.tableau.Finds optimum := by
  obtain ⟨w, ending, hdescend, hconcludes⟩ := concludes_of_phaseTwo? h
  rw [htolerance] at hdescend
  have hcanonical := (canonicalProgram_of_descend? hstart hdescend).tableau
  obtain ⟨move, hmove, hending⟩ := move?_of_descend? hdescend
  have hwell := hcanonical.wellFormed
  cases hconcludes with
  | limited => cases hfound
  | @unbounded entering column direction point hdirection hpoint =>
    cases hfound
    obtain rfl : move = .fall entering column := hending
    obtain ⟨hprofitable, hcolumn, hfall⟩ := hwell.explains_of_move? hmove
    rw [direction?_eq hprofitable.structural, Option.some.injEq] at hdirection
    rw [hwell.basicSolution?_eq, Option.some.injEq] at hpoint
    subst hdirection hpoint
    exact ⟨hcanonical, entering, column, hprofitable, hcolumn, hfall, rfl⟩
  | attained hminimum hvalues =>
    cases hfound
    obtain rfl : move = .stay := hending
    rw [hwell.objective?_eq, Option.some.injEq] at hminimum
    rw [hwell.basicSolution?_eq, Option.some.injEq] at hvalues
    exact ⟨hcanonical, hwell.explains_of_move? hmove, hminimum.symm, hvalues.symm, rfl⟩

end PhaseTwo

end Problem

end SimplexMethod
