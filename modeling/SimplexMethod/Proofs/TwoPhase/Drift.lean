import Mathlib.Tactic
import SimplexMethod.Proofs.TwoPhase.Redundancy
import SimplexMethod.Proofs.TwoPhase.Tolerance
import SimplexMethod.Tableau.BasicFeasible

/-!
# Solutions under a tolerance

With a tolerance, small entries are passed over in the choice of the leaving row, and so the values
of the rows can fall below zero; and rows that are left out as redundant may be independent of the
others. Neither is bounded by the tolerance, because an entry is small or large only relative to the
values of the program: under the standard options there are solutions that are far from feasible
(`Engine.standard_ne_feasible`).

What a tolerance leaves right is that pivots are made at entries other than zero. So the tableaus of
phase one go on to state the artificial problem, those of phase two what the rows do that were not
left out, and a solution satisfies the constraints of these rows exactly (`Engine.solve?_satisfies`).
The constraint of such a row follows from the rows that are not left out
(`Problem.constraint_mem_keptEquations`), since the artificial variables that stay basic are those
of the other rows. On a program of integers whose square minors are small compared with the inverse
of the tolerance, solutions are feasible.
-/

set_option autoImplicit false

namespace SimplexMethod

open Tableau

namespace Problem

variable {p : Problem ℚ} {options : Options ℚ} {rule : PivotRule}

/-! ## Violations -/

/-- A point that satisfies the constraints does not violate them. -/
theorem violationAt_eq_zero {x : List ℚ} (h : p.constraints.mulVector x = p.values) :
    p.violationAt x = 0 := by
  rw [violationAt, h]
  induction p.values with
  | nil => rfl
  | cons value values ih =>
    rw [List.zipWith_cons_cons, List.foldl_cons, sub_self]
    exact ih

/-! ## Phase one -/

/-- Phase one keeps to tableaus of the artificial problem, feasible or not. -/
theorem presentsArtificial_of_phaseOne? (htolerance : 0 ≤ options.tolerance)
    {stage : Stage ℚ Feasibility}
    (h : phaseOne? options rule p.artificialTableau = some stage) :
    stage.walk.All p.PresentsArtificial :=
  (reached_of_phaseOne? htolerance h).imp Reached.presents

/-- A constraint whose row is not left out follows from the rows that are not left out. -/
theorem constraint_mem_keptEquations {t : Tableau ℚ} {redundant : List Nat}
    (h : p.PresentsArtificial t)
    (hredundant : ∀ i ∈ redundant, i < p.constraintCount ∧ t.basic i = p.variableCount + i) {k : Nat}
    (hk : k < p.constraintCount) (hnot : k ∉ redundant) :
    coeff (p.constraint k) ∈ t.keptEquations redundant := by
  -- The row of the artificial problem is a combination of the rows of the tableau, in which every
  -- row has as its factor the entry in its basic column.
  have hmem : p.artificialTableau.entry k ∈ p.artificialEquations :=
    wellFormed_artificialTableau.entry_mem_equations (by rwa [artificialTableau_rowCount])
  have hsum : p.artificialTableau.entry k = ∑ i ∈ Finset.range t.rowCount,
      p.artificialTableau.entry k (t.basic i) • t.entry i := by
    funext j
    rw [h.states.eq_sum_of_mem hmem j, Finset.sum_apply]
    rfl
  have hnarrow := narrow_artificialTableau_entry hk
  rw [← h.columnCount_eq, ← PresentsArtificial.structuralCount_eq h] at hnarrow
  have hkept : narrow t.structuralCount t.columnCount (p.artificialTableau.entry k) ∈
      t.keptEquations redundant := by
    rw [hsum, map_sum]
    refine Submodule.sum_mem _ fun i hi => ?_
    rw [map_smul]
    by_cases hleft : i ∈ redundant
    · -- The artificial variable that is left in another row is not in the constraint.
      obtain ⟨hlt, hbasic⟩ := hredundant i hleft
      have hne : p.variableCount + i ≠ p.variableCount + k := by
        intro heq
        exact hnot (Nat.add_left_cancel heq ▸ hleft)
      rw [hbasic, artificialTableau_entry_artificial hk hlt, if_neg (by omega), zero_smul]
      exact Submodule.zero_mem _
    · exact Submodule.smul_mem _ _ (narrow_mem_keptEquations (Finset.mem_range.1 hi) hleft)
  have hsigned := Submodule.smul_mem _ (signFor (coeff p.values k)) hkept
  rwa [hnarrow, smul_smul, signFor_mul_signFor, one_smul] at hsigned

/-! ## Phase two -/

/-- Phase two keeps to tableaus that state the same, feasible or not. -/
theorem presents_of_phaseTwo? (htolerance : 0 ≤ options.tolerance) {start : Tableau ℚ}
    {W : Submodule ℚ (ℕ → ℚ)} {cost : ℕ → ℚ} {columns : Nat}
    (hstart : start.Presents W cost columns 0) {stage : Stage ℚ (Optimum ℚ)}
    (h : phaseTwo? options rule start = some stage) : stage.walk.All (·.Presents W cost columns 0) := by
  obtain ⟨w, ending, hdescend, hconcludes⟩ := concludes_of_phaseTwo? h
  have hall : w.All (·.Presents W cost columns 0) :=
    descend?_all (fun ht hmove hbring => ht.move htolerance hmove hbring)
      (Walk.all_startingAt hstart) hdescend
  cases hconcludes <;> exact hall

/-- The values of a solution are the basic solution at the end of phase two. -/
theorem values_of_phaseTwo? {start : Tableau ℚ} (hstart : start.WellFormed)
    {stage : Stage ℚ (Optimum ℚ)} (h : phaseTwo? options rule start = some stage) {minimum : ℚ}
    {values : List ℚ} {basis : List Nat}
    (hfound : stage.outcome = .ok (.attained minimum values basis)) :
    values = stage.walk.tableau.basicSolution := by
  obtain ⟨w, ending, hdescend, hconcludes⟩ := concludes_of_phaseTwo? h
  obtain ⟨-, -, -, hwell⟩ := legal_of_descend?_startingAt hstart hdescend
  cases hconcludes with
  | limited => cases hfound
  | unbounded => cases hfound
  | attained _ hvalues =>
    cases hfound
    rw [hwell.basicSolution?_eq] at hvalues
    exact (Option.some.inj hvalues).symm

/-! ## Runs -/

/-- A solution satisfies the constraints that were not left out. -/
theorem satisfies_of_run? (htolerance : 0 ≤ options.tolerance) {run : Run ℚ} {s : Solution ℚ}
    (h : p.run? options rule = some run) (hresult : run.result p = .ok (.optimal s)) :
    ∃ one redundant two, run = .entered one redundant two ∧
      ∀ i < p.constraintCount, i ∉ redundant →
        coeff (p.constraints.mulVector s.values) i = coeff p.values i := by
  cases proceeds_of_run? h with
  | abandoned => cases hresult
  | infeasible => cases hresult
  | @entered one redundant start two hone hstart htwo =>
    have hartificial := (presentsArtificial_of_phaseOne? htolerance hone).tableau
    have hseparates := separates_of_phaseOne? hone
    have hsize := PresentsArtificial.structuralCount_eq hartificial
    rw [hartificial.wellFormed.withCosts?_eq hsize hseparates.sorted hseparates.structural,
      Option.some.injEq] at hstart
    subst hstart
    have hstart := PresentsArtificial.presents_restated hartificial hseparates.structural
    obtain ⟨two, error | ⟨minimum, values, basis⟩ | ray⟩ := two
    · cases hresult
    · cases hresult
      have hpresents := (presents_of_phaseTwo? htolerance hstart htwo).tableau
      have hvalues := values_of_phaseTwo? hstart.wellFormed htwo rfl
      have hlength : values.length = p.variableCount := by
        rw [hvalues, length_basicSolution, hpresents.structuralCount_eq, Nat.sub_zero]
      refine ⟨one, redundant, _, rfl, fun i hi hnot => ?_⟩
      -- The basic solution satisfies what follows from the rows that were not left out.
      have hgap := hpresents.gap_basicSolution _
        (constraint_mem_keptEquations hartificial (fun i => basic_of_mem_redundant hone) hi hnot)
      have hrow : (p.constraints.rows.getD i []).length = p.variableCount :=
        p.rectangular.length_getD hi
      rw [← hvalues, constraint, RowMatrix.gap_concat hrow hlength, sub_eq_zero] at hgap
      rw [← hgap]
      refine coeff_of_getElem? ?_
      rw [RowMatrix.mulVector, List.getElem?_map, RowMatrix.rows_getElem?_eq hi, Option.map_some]
    · cases hresult

/-- On a program of integers with small square minors, a solution is feasible. -/
theorem feasible_of_run? (hp : p.Resolves options.tolerance) {run : Run ℚ} {s : Solution ℚ}
    (h : p.run? options rule = some run) (hresult : run.result p = .ok (.optimal s)) :
    p.Feasible s.values := by
  rw [p.run?_withoutTolerance rule hp] at h
  obtain ⟨houtcome, -⟩ | ⟨t, optimum, pivots, hcanonical, hfinds, houtcome⟩ :=
    run?_cases options.tolerance_withoutTolerance h hresult
  · cases houtcome
  cases optimum with
  | unbounded ray => cases houtcome
  | attained minimum values basis =>
    cases houtcome
    obtain ⟨-, -, rfl, -⟩ := hfinds
    exact hcanonical.feasible_basicSolution

end Problem

namespace Engine

/-- Whatever the tolerance is, an optimal solution satisfies the constraints of the rows that were
not left out, so that it violates none if all rows are kept. On a program of integers it is
feasible, if the tolerance is small compared with all square minors of the constraints. -/
theorem solve?_satisfies {σ : Type} {engine engine' : Engine ℚ σ} {p : Problem ℚ}
    {answer : Answer ℚ} (htolerance : 0 ≤ engine.options.tolerance)
    (hsolve : engine.solve? p = some (answer, engine')) {s : Solution ℚ}
    (hresult : answer.result = .ok (.optimal s)) :
    (∃ one redundant two, p.run? engine.options engine.rule = some (.entered one redundant two) ∧
      (∀ i < p.constraintCount, i ∉ redundant →
        coeff (p.constraints.mulVector s.values) i = coeff p.values i) ∧
      (redundant = [] → p.violationAt s.values = 0)) ∧
    (p.Integral → (∀ d, p.constraints.IsMinor d → engine.options.tolerance * |d| < 1) →
      p.Feasible s.values ∧ p.violationAt s.values = 0) := by
  rw [solve?] at hsolve
  obtain ⟨run, hrun, h⟩ := Option.bind_eq_some_iff.1 hsolve
  obtain ⟨rfl, -⟩ := Prod.ext_iff.1 (Option.some.inj h)
  constructor
  · obtain ⟨one, redundant, two, rfl, hsatisfied⟩ :=
      Problem.satisfies_of_run? htolerance hrun hresult
    refine ⟨one, redundant, two, hrun, hsatisfied, ?_⟩
    rintro rfl
    refine Problem.violationAt_eq_zero (ext_coeff ?_ fun i hi => ?_)
    · rw [RowMatrix.mulVector, List.length_map, p.values_length]
      rfl
    · refine hsatisfied i ?_ List.not_mem_nil
      rwa [RowMatrix.mulVector, List.length_map] at hi
  · intro hintegral hminors
    have hfeasible := Problem.feasible_of_run? ⟨htolerance, hintegral, hminors⟩ hrun hresult
    exact ⟨hfeasible, Problem.violationAt_eq_zero hfeasible.mulVector_eq⟩

/-- A program with one feasible point. Phase two brings in the third column at the large value of the
first row and passes over the second row, in which its entry is `2 ^ (-34)`. -/
def slight : Problem ℚ where
  constraints := ⟨[[131072, 0, 1, 0], [1, -131072, 0, -1]], 4⟩
  values := [17179869184, 131072]
  minimizationCost := [0, 0, -2, -1]
  direction := .minimize
  rows_ne_nil := List.cons_ne_nil _ _
  columns_pos := Nat.succ_pos _
  rectangular := by simp [RowMatrix.Rectangular]
  values_length := rfl
  cost_length := rfl

theorem solve?_satisfies_slight : ∃ answer engine', standard.solve? slight = some (answer, engine') ∧
    answer.result =
      .ok (.optimal ⟨-34359607296, [0, 0, 17179869184, -131072], [2, 3], ⟨2, 2⟩⟩) ∧
    slight.violationAt [0, 0, 17179869184, -131072] = 0 := by
  have hrun : (standard.solve? slight).map (·.1.result) =
      some (.ok (.optimal ⟨-34359607296, [0, 0, 17179869184, -131072], [2, 3], ⟨2, 2⟩⟩)) := by
    decide +kernel
  have hkept : ((slight.run? default .first).map fun run => match run with
      | .entered _ redundant _ => redundant
      | _ => [0]) = some [] := by decide +kernel
  obtain ⟨⟨answer, engine'⟩, hsolve, hresult⟩ := Option.map_eq_some_iff.1 hrun
  obtain ⟨⟨one, redundant, two, hentered, -, hviolation⟩, -⟩ :=
    solve?_satisfies (show (0 : ℚ) ≤ 1e-10 by decide +kernel) hsolve hresult
  rw [show slight.run? default .first = _ from hentered] at hkept
  exact ⟨answer, engine', hsolve, hresult, hviolation (Option.some.inj hkept)⟩

/-- A program with one feasible point. The second row is left out, since the only structural entry
that is not zero in it is `-2 ^ (-34)`. -/
def faint : Problem ℚ where
  constraints := ⟨[[17179869184, 1], [1, 0]], 2⟩
  values := [17179869184, 1]
  minimizationCost := [0, -1]
  direction := .minimize
  rows_ne_nil := List.cons_ne_nil _ _
  columns_pos := Nat.zero_lt_two
  rectangular := by simp [RowMatrix.Rectangular]
  values_length := rfl
  cost_length := rfl

/-- Under the standard options, whatever the pivot rule is, optimal solutions can be far below zero
or violate constraints, although there are feasible points. The test for a feasible basic solution
fails at the end of the first of these solves. -/
theorem standard_ne_feasible :
    (∀ rule, ((Engine.mk default rule .silent ()).solve? slight).map (·.1.result) =
      some (.ok (.optimal ⟨-34359607296, [0, 0, 17179869184, -131072], [2, 3], ⟨2, 2⟩⟩))) ∧
    ¬ (∀ value ∈ [0, 0, 17179869184, -131072], (-1e-6 : ℚ) ≤ value) ∧
    ((standard.withListener .recorder #[]).solve? slight).bind (fun reply =>
      reply.2.state.back?.bind fun notice => notice.moment.tableau.isBasicFeasible? 1e-10) =
        some false ∧
    slight.Feasible [131072, 0, 0, 0] ∧
    (∀ rule, ((Engine.mk default rule .silent ()).solve? faint).map (·.1.result) =
      some (.ok (.optimal ⟨-17179869184, [0, 17179869184], [1], ⟨1, 1⟩⟩))) ∧
    ¬ faint.violationAt [0, 17179869184] ≤ 1e-6 ∧
    faint.Feasible [1, 0] := by
  refine ⟨fun rule => ?_, by decide +kernel, by decide +kernel,
    ⟨rfl, by decide +kernel, by decide +kernel⟩, fun rule => ?_, by decide +kernel,
    ⟨rfl, by decide +kernel, by decide +kernel⟩⟩
  · cases rule <;> decide +kernel
  · cases rule <;> decide +kernel

end Engine

end SimplexMethod
