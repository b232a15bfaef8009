import SimplexMethod.TwoPhase.Feasibility

/-!
# Phase two

Phase two walks from a feasible tableau of the program and lowers its objective, until the basic
solution is optimal or a ray shows that there is no optimum.
-/

namespace SimplexMethod

variable {F : Type} [Scalar F]

/-- What phase two finds: the minimum and where it is attained, or a ray along which the objective
falls without end. -/
inductive Optimum (F : Type) where
  | attained (minimum : F) (values : List F) (basis : List Nat)
  | unbounded (ray : Ray F)
  deriving DecidableEq

/-- Phase two from a feasible tableau of the program. -/
def phaseTwo? (options : Options F) (rule : PivotRule) (start : Tableau F) :
    Checked (Stage F (Optimum F)) := do
  let (w, ending) ← descend? rule options.tolerance options.pivotLimit (.startingAt start)
  match ending with
  | .limit => return ⟨w, .error (.pivotLimit .two w.pivotCount)⟩
  | .unbounded entering column =>
    let direction ← w.tableau.direction? entering column
    let point ← w.tableau.basicSolution?
    return ⟨w, .ok (.unbounded ⟨point, direction⟩)⟩
  | .optimal =>
    let minimum ← w.tableau.objective?
    let values ← w.tableau.basicSolution?
    return ⟨w, .ok (.attained minimum values w.tableau.basis)⟩

end SimplexMethod
