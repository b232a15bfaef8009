import Mathlib.Tactic
import SimplexMethod.Proofs.Tableau.BasicFeasible
import SimplexMethod.Proofs.TwoPhase.Bases
import SimplexMethod.Proofs.TwoPhase.Optimum

/-!
# Feasible bases of an exact run

Without tolerance, all tableaus of a run have a feasible basic solution, and so the test for one
succeeds whenever a pivot is chosen and at the end of each phase (`Problem.run?_basicFeasible`).
Three things happen to a tableau in a run: pivots in the row of least ratio, pivots at entries of
either sign in rows whose value is zero, and the change to the program, which leaves out rows and
makes the costs anew. In all three it goes on to state the artificial problem, or the program, with
respect to a feasible basis (`Problem.canonical_of_run?`).
-/

set_option autoImplicit false

namespace SimplexMethod

open Tableau

namespace Problem

variable {p : Problem ℚ} {options : Options ℚ} {rule : PivotRule} {run : Run ℚ}

/-- The tableau states what the phase works on, with respect to a feasible basis. -/
def CanonicalIn (p : Problem ℚ) : Phase → Tableau ℚ → Prop
  | .one => p.CanonicalArtificial
  | .two => p.CanonicalProgram

theorem CanonicalIn.basicFeasible {phase : Phase} {t : Tableau ℚ} (h : p.CanonicalIn phase t) :
    t.BasicFeasible := by
  cases phase with
  | one => exact Canonical.basicFeasible h
  | two => exact Canonical.basicFeasible h

/-- Without tolerance, the tableaus of a run state what their phase works on, with respect to
feasible bases. -/
theorem canonical_of_run? (htolerance : options.tolerance = 0)
    (h : p.run? options rule = some run) {phase : Phase} {w : Walk ℚ}
    (hw : (phase, w) ∈ run.walks) : w.All (p.CanonicalIn phase) := by
  cases proceeds_of_run? h with
  | abandoned hone =>
    cases List.mem_singleton.1 hw
    exact canonical_of_phaseOne? htolerance hone
  | infeasible hone =>
    cases List.mem_singleton.1 hw
    exact canonical_of_phaseOne? htolerance hone
  | entered hone hstart htwo =>
    rcases List.mem_pair.1 hw with heq | heq <;> cases heq
    · exact canonical_of_phaseOne? htolerance hone
    · have hreduced := reduced_of_phaseOne? htolerance hone rfl
      rw [hreduced.withCosts?_eq, Option.some.injEq] at hstart
      subst hstart
      exact canonicalProgram_of_phaseTwo? htolerance hreduced.canonical_restated htwo

/-- Without tolerance, every tableau at which a run chooses a pivot, makes one or ends a phase has a
feasible basic solution: the basic columns form an identity matrix, only artificial ones have a
relative cost, and no value is negative. The test for this succeeds at all of them. -/
theorem run?_basicFeasible (p : Problem ℚ) (pivotLimit : Nat) (rule : PivotRule) :
    ∃ run, p.run? ⟨pivotLimit, 0⟩ rule = some run ∧
      ∀ phase w, (phase, w) ∈ run.walks →
        w.All fun t => t.BasicFeasible ∧ t.isBasicFeasible? 0 = some true := by
  obtain ⟨run, hrun⟩ := p.exists_run? ⟨pivotLimit, 0⟩ rule
  refine ⟨run, hrun, fun phase w hw => (canonical_of_run? rfl hrun hw).imp fun ht => ?_⟩
  exact ⟨ht.basicFeasible, ht.basicFeasible.isBasicFeasible?_eq⟩

end Problem

end SimplexMethod
