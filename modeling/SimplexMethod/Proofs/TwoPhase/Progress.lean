import Mathlib.Tactic
import SimplexMethod.Proofs.Tableau.Costs
import SimplexMethod.Proofs.Tableau.Solutions
import SimplexMethod.Proofs.TwoPhase.Stages

/-!
# Runs never fail

Whatever the scalars are, no position that a run of the two-phase method reads or writes is out of
range: every program has a run (`Problem.exists_run?`). Phase one keeps the tableau well
formed and of its size, and the rows that it finds redundant are those in which an artificial
variable is left (`redundant_eq_of_phaseOne?`), so that the costs of the other basic variables can
be read (`Problem.withCosts?_of_phaseOne?`).
-/

set_option autoImplicit false

namespace SimplexMethod

variable {F : Type}

open Tableau

/-- Structural variables are basic in all rows but the given ones, which are in order. -/
structure Tableau.Separates (t : Tableau F) (redundant : List Nat) : Prop where
  sorted : redundant.Pairwise (· < ·)
  structural : ∀ i < t.rowCount, i ∉ redundant → t.basic i < t.structuralCount

theorem Tableau.separates_artificialPlaces {t : Tableau F} :
    t.Separates (artificialPlaces t.structuralCount t.basis) where
  sorted := sorted_artificialPlaces
  structural := fun _ hi hnot =>
    not_isArtificial_iff.1 fun hart => hnot (mem_artificialPlaces_iff.2 ⟨hi, hart⟩)

section Phases

variable [Scalar F] (options : Options F) (rule : PivotRule) {start : Tableau F}

/-- Phase one never fails. -/
theorem exists_phaseOne? (h : start.WellFormed) :
    ∃ stage, phaseOne? options rule start = some stage := by
  obtain ⟨w, ending, hdescend⟩ := exists_descend? rule options.tolerance options.pivotLimit
    (w := .startingAt start) h
  have hwell := (shaped_of_descend? (Walk.all_startingAt h.shaped) hdescend).tableau.wellFormed
  rw [phaseOne?, hdescend]
  simp only [Option.bind_eq_bind, Option.bind_some]
  cases ending with
  | limit => exact ⟨_, rfl⟩
  | unbounded entering column => exact ⟨_, rfl⟩
  | optimal =>
    simp only [hwell.objective?_eq, Option.bind_some]
    split
    · exact ⟨_, rfl⟩
    · -- The point is feasible; artificial variables that are still basic are expelled.
      split
      · obtain ⟨w', result, hexpel⟩ := exists_expel? options hwell fun row hrow =>
          List.mem_range.1 hrow
        simp only [hexpel, Option.bind_some]
        cases result <;> exact ⟨_, rfl⟩
      · exact ⟨_, rfl⟩

/-- The rows that phase one finds redundant are those in which an artificial variable is left. -/
theorem redundant_eq_of_phaseOne? (hstart : start.WellFormed) {one : Walk F}
    {redundant : List Nat}
    (h : phaseOne? options rule start = some ⟨one, .ok (.feasible redundant)⟩) :
    redundant = artificialPlaces one.tableau.structuralCount one.tableau.basis := by
  obtain ⟨w, ending, hdescend, hconcludes⟩ := concludes_of_phaseOne? h
  cases hconcludes with
  | structural _ _ hbasic =>
    refine (List.eq_nil_iff_forall_not_mem.2 fun i hi => ?_).symm
    obtain ⟨hlt, hart⟩ := mem_artificialPlaces_iff.1 hi
    exact not_isArtificial_iff.2 (structural_of_hasArtificialBasic hbasic hlt) hart
  | expelled _ _ hexpel =>
    obtain ⟨-, -, -, hwell⟩ := legal_of_descend?_startingAt hstart hdescend
    exact (cleared_of_expel? hwell (fun row hrow => List.mem_range.1 hrow) List.nodup_range
      hexpel).redundant_eq

/-- Phase two never fails. -/
theorem exists_phaseTwo? (h : start.WellFormed) :
    ∃ stage, phaseTwo? options rule start = some stage := by
  obtain ⟨w, ending, hdescend⟩ := exists_descend? rule options.tolerance options.pivotLimit
    (w := .startingAt start) h
  have hwell := (shaped_of_descend? (Walk.all_startingAt h.shaped) hdescend).tableau.wellFormed
  obtain ⟨move, hmove, hending⟩ := move?_of_descend? hdescend
  rw [phaseTwo?, hdescend]
  simp only [Option.bind_eq_bind, Option.bind_some]
  cases ending with
  | limit => exact ⟨_, rfl⟩
  | unbounded entering column =>
    -- The column without a limit is one of the tableau, so a ray can be read off it.
    obtain rfl : move = .fall entering column := hending
    rw [hwell.move?_eq, Option.some.injEq] at hmove
    simp only [direction?_eq (hwell.fall_bound hmove), hwell.basicSolution?_eq, Option.bind_some]
    exact ⟨_, rfl⟩
  | optimal =>
    simp only [hwell.objective?_eq, hwell.basicSolution?_eq, Option.bind_some]
    exact ⟨_, rfl⟩

end Phases

namespace Problem

variable [Scalar F] {p : Problem F} {options : Options F} {rule : PivotRule}

theorem shaped_artificialTableau : p.artificialTableau.Shaped p.constraintCount
    (p.variableCount + p.constraintCount) p.constraintCount :=
  ⟨wellFormed_artificialTableau, artificialTableau_rowCount, artificialTableau_columnCount,
    artificialTableau_artificials⟩

/-- Phase one keeps the sizes of the tableau. -/
theorem shaped_of_phaseOne? {stage : Stage F Feasibility}
    (h : phaseOne? options rule p.artificialTableau = some stage) :
    stage.walk.tableau.Shaped p.constraintCount (p.variableCount + p.constraintCount)
      p.constraintCount :=
  ((lawful_of_phaseOne? wellFormed_artificialTableau h).shaped shaped_artificialTableau).tableau

theorem structuralCount_of_phaseOne? {stage : Stage F Feasibility}
    (h : phaseOne? options rule p.artificialTableau = some stage) :
    stage.walk.tableau.structuralCount = p.variableCount := by
  rw [(shaped_of_phaseOne? h).structuralCount_eq, Nat.add_sub_cancel]

/-- When phase one finds a feasible basis, structural variables are basic in the rows that are not
redundant. -/
theorem separates_of_phaseOne? {one : Walk F} {redundant : List Nat}
    (h : phaseOne? options rule p.artificialTableau = some ⟨one, .ok (.feasible redundant)⟩) :
    one.tableau.Separates redundant := by
  rw [redundant_eq_of_phaseOne? options rule wellFormed_artificialTableau h]
  exact separates_artificialPlaces

/-- When phase one finds a feasible basis, the tableau of the program can be made, and it has no
more rows than there are constraints. -/
theorem withCosts?_of_phaseOne? {one : Walk F} {redundant : List Nat}
    (h : phaseOne? options rule p.artificialTableau = some ⟨one, .ok (.feasible redundant)⟩) :
    ∃ start rows, one.tableau.withCosts? redundant p = some start ∧ rows ≤ p.constraintCount ∧
      start.Shaped rows p.variableCount 0 := by
  have hshaped := shaped_of_phaseOne? h
  have hwell := hshaped.wellFormed
  -- The tableau has kept its columns, so the costs of all variables fit it.
  have hsize := structuralCount_of_phaseOne? h
  have hseparates := separates_of_phaseOne? h
  have hrows : (one.tableau.keptRows redundant).length ≤ p.constraintCount := by
    refine (List.length_filter_le _ _).trans_eq ?_
    rw [List.length_range, hshaped.rowCount_eq]
  exact ⟨_, _, hwell.withCosts?_eq hsize hseparates.sorted hseparates.structural, hrows,
    hwell.restated hsize hseparates.structural, restated_rowCount,
    restated_columnCount.trans hsize, rfl⟩

/-- Every program has a run. -/
theorem exists_run? (p : Problem F) (options : Options F) (rule : PivotRule) :
    ∃ run, p.run? options rule = some run := by
  obtain ⟨⟨one, outcome⟩, hone⟩ :=
    exists_phaseOne? options rule (wellFormed_artificialTableau (p := p))
  rw [run?_eq, runFrom?, hone]
  simp only [Option.bind_eq_bind, Option.bind_some]
  rcases outcome with error | ⟨redundant⟩ | _
  · exact ⟨_, rfl⟩
  · obtain ⟨start, rows, hstart, -, hshaped⟩ := withCosts?_of_phaseOne? hone
    obtain ⟨two, htwo⟩ := exists_phaseTwo? options rule hshaped.wellFormed
    simp only [hstart, Option.bind_some, htwo]
    exact ⟨_, rfl⟩
  · exact ⟨_, rfl⟩

end Problem

end SimplexMethod
