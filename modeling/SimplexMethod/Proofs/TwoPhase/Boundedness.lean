import Mathlib.Tactic
import SimplexMethod.Proofs.TwoPhase.Feasibility
import SimplexMethod.Proofs.TwoPhase.Progress
import SimplexMethod.TwoPhase.Engine

/-!
# The artificial objective is bounded

Phase one never finds that the sum of the artificial variables has no lower bound, whatever the
tolerance is (`Engine.solve?_ne_artificialUnbounded`). That the sum is not negative is no argument
for this: when entries below the tolerance are passed over in the choice of the leaving row, the
values of the rows can become negative. But a pivot is made at a positive entry in any case, so the
tableau goes on to state the artificial problem. In the cost row of such a tableau, a structural
column has minus the sum of its entries in the rows with basic artificial variables, and so it is
profitable only when one of them is positive (`PresentsArtificial.not_fall`).
-/

set_option autoImplicit false

namespace SimplexMethod

open Tableau

namespace Problem

variable {p : Problem ℚ} {t : Tableau ℚ} {options : Options ℚ} {rule : PivotRule}
  {tolerance : ℚ} {run : Run ℚ}

theorem presentsArtificial_artificialTableau : p.PresentsArtificial p.artificialTableau :=
  canonical_artificialTableau.presents

/-- In a tableau of the artificial problem, something limits every profitable column. -/
theorem PresentsArtificial.not_fall (h : p.PresentsArtificial t) (htolerance : 0 ≤ tolerance)
    {entering : Nat} {column : List ℚ} :
    t.move? rule tolerance ≠ some (.fall entering column) := by
  intro hmove
  obtain ⟨hprofitable, -, hentries⟩ := h.wellFormed.explains_of_move? hmove
  -- Without a positive entry in the column, its cost is not negative.
  have hcost := h.relativeCost_nonneg hprofitable.structural hentries
  have hlow := hprofitable.cost_lt
  linarith

/-- The descent of phase one keeps to tableaus of the artificial problem, and does not end with an
unlimited column. -/
theorem presentsArtificial_of_descend? (htolerance : 0 ≤ tolerance) {allowed : Nat} {w : Walk ℚ}
    {ending : Descent ℚ}
    (h : descend? rule tolerance allowed (.startingAt p.artificialTableau) = some (w, ending)) :
    w.All p.PresentsArtificial ∧ ∀ entering column, ending ≠ .unbounded entering column := by
  have hall : w.All p.PresentsArtificial :=
    descend?_all (fun ht hmove hbring => ht.move htolerance hmove hbring)
      (Walk.all_startingAt presentsArtificial_artificialTableau) h
  refine ⟨hall, ?_⟩
  rintro entering column rfl
  obtain ⟨move, hmove, rfl⟩ := move?_of_descend? h
  exact hall.tableau.not_fall htolerance hmove

/-- Phase one does not find the artificial objective unbounded. -/
theorem phaseOne?_ne_artificialUnbounded (htolerance : 0 ≤ options.tolerance)
    {stage : Stage ℚ Feasibility}
    (h : phaseOne? options rule p.artificialTableau = some stage) :
    stage.outcome ≠ .error .artificialUnbounded := by
  obtain ⟨w, ending, hdescend, hconcludes⟩ := concludes_of_phaseOne? h
  -- Only the ending of the descent could be the error.
  have hending := (presentsArtificial_of_descend? htolerance hdescend).2
  cases hconcludes with
  | unbounded => exact absurd rfl (hending _ _)
  | limited => nofun
  | infeasible => nofun
  | structural => nofun
  | cutShort => nofun
  | expelled => nofun

/-- Phase two does not deal with the artificial objective. -/
theorem phaseTwo?_ne_artificialUnbounded {start : Tableau ℚ} {stage : Stage ℚ (Optimum ℚ)}
    (h : phaseTwo? options rule start = some stage) :
    stage.outcome ≠ .error .artificialUnbounded := by
  obtain ⟨w, ending, -, hconcludes⟩ := concludes_of_phaseTwo? h
  cases hconcludes <;> nofun

theorem run?_ne_artificialUnbounded (htolerance : 0 ≤ options.tolerance)
    (h : p.run? options rule = some run) : run.result p ≠ .error .artificialUnbounded := by
  cases proceeds_of_run? h with
  | abandoned hone =>
    -- The error of phase one is that of the run.
    rintro ⟨⟩
    exact phaseOne?_ne_artificialUnbounded htolerance hone rfl
  | infeasible => nofun
  | @entered one redundant start two _ _ htwo =>
    obtain ⟨two, error | optimum⟩ := two
    · rintro ⟨⟩
      exact phaseTwo?_ne_artificialUnbounded htwo rfl
    · nofun

end Problem

namespace Engine

/-- Whatever the tolerance is, an engine answers every program, and never that the artificial
objective is unbounded. -/
theorem solve?_ne_artificialUnbounded {σ : Type} (engine : Engine ℚ σ) (p : Problem ℚ)
    (htolerance : 0 ≤ engine.options.tolerance) :
    ∃ answer engine', engine.solve? p = some (answer, engine') ∧
      answer.result ≠ .error .artificialUnbounded := by
  obtain ⟨run, hrun⟩ := p.exists_run? engine.options engine.rule
  have hne := p.run?_ne_artificialUnbounded htolerance hrun
  rw [solve?, hrun]
  exact ⟨_, _, rfl, hne⟩

/-- A row whose entry is so small that a coarse engine passes over it. -/
def skewed : Problem ℚ where
  constraints := ⟨[[1/4, 1], [1, 0]], 2⟩
  values := [1/8, 1]
  minimizationCost := [1, 1]
  direction := .minimize
  rows_ne_nil := List.cons_ne_nil _ _
  columns_pos := Nat.zero_lt_two
  rectangular := by simp [RowMatrix.Rectangular]
  values_length := rfl
  cost_length := rfl

/-- An engine that counts a half as zero and keeps all notices. -/
def coarse : Engine ℚ (Array (Notice ℚ)) := ⟨⟨10, 1/2⟩, .first, .recorder, #[]⟩

/-- On the way to its answer the engine passes a tableau in which the value of a row is negative. -/
theorem solve?_ne_artificialUnbounded_skewed : ∃ answer engine',
    coarse.solve? skewed = some (answer, engine') ∧
      answer.result ≠ .error .artificialUnbounded ∧
      ∃ notice ∈ engine'.state, notice.moment.phase = .one ∧ notice.moment.tableau.value 0 < 0 := by
  obtain ⟨answer, engine', hsolve, hne⟩ := coarse.solve?_ne_artificialUnbounded skewed
    (by decide +kernel)
  have hrun : ((coarse.solve? skewed).map fun reply => reply.2.state.toList.any fun notice =>
      notice.moment.phase = .one ∧ notice.moment.tableau.value 0 < 0) = some true := by
    decide +kernel
  rw [hsolve, Option.map_some, Option.some.injEq, List.any_eq_true] at hrun
  obtain ⟨notice, hmem, hnegative⟩ := hrun
  exact ⟨answer, engine', hsolve, hne, notice, Array.mem_toList_iff.1 hmem,
    by simpa using hnegative⟩

end Engine

end SimplexMethod
