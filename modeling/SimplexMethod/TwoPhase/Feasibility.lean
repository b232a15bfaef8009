import SimplexMethod.Outcome
import SimplexMethod.TwoPhase.Descent
import SimplexMethod.TwoPhase.Options

/-!
# Phase one

Phase one walks from the tableau of the artificial problem and lowers the sum of the artificial
variables as far as it goes. If the sum is not negligible then, the program is infeasible. Otherwise
artificial variables that are still basic are expelled: each is replaced by a structural variable
with an entry in its row that is not negligible, of either sign, since the row's value is zero. A
row without such an entry depends on the other rows and is redundant.
-/

namespace SimplexMethod

variable {F : Type} [Scalar F]

/-- A phase as it went: its walk, and what it came to unless it was given up. -/
structure Stage (F α : Type) where
  walk : Walk F
  outcome : Except SolveError α

/-- What phase one finds out. -/
inductive Feasibility where
  /-- There is a feasible basis for the constraints without the rows at the given positions. -/
  | feasible (redundant : List Nat)
  | infeasible
  deriving DecidableEq

/-- The first open column with an entry in a row that is not negligible. -/
def Tableau.replacement? (t : Tableau F) (row : Nat) (tolerance : F) : Checked (Option Nat) := do
  let entries ← t.openColumns.mapM fun j => do return (j, ← t.entry? row j)
  return (entries.find? fun entry => ¬ Scalar.Negligible tolerance entry.2).map Prod.fst

/-- Expels the artificial variables that are basic in the given rows, as long as pivots are allowed,
and collects the rows that are redundant; `none` inside when a pivot was due that is not allowed. -/
def expel? (options : Options F) : List Nat → Walk F → Checked (Walk F × Option (List Nat))
  | [], w => some (w, some [])
  | row :: rows, w => do
    if w.tableau.IsArtificial (← w.tableau.basic? row) then
      match ← w.tableau.replacement? row options.tolerance with
      | some entering =>
        if w.pivotCount < options.pivotLimit then expel? options rows (← w.pivot? entering row)
        else return (w, none)
      | none =>
        let (w, redundant) ← expel? options rows w
        return (w, redundant.map (row :: ·))
    else expel? options rows w

/-- Phase one from a tableau of the artificial problem. -/
def phaseOne? (options : Options F) (rule : PivotRule) (start : Tableau F) :
    Checked (Stage F Feasibility) := do
  let (w, ending) ← descend? rule options.tolerance options.pivotLimit (.startingAt start)
  match ending with
  | .limit => return ⟨w, .error (.pivotLimit .one w.pivotCount)⟩
  | .unbounded _ _ => return ⟨w, .error .artificialUnbounded⟩
  | .optimal =>
    if options.tolerance < Scalar.abs (← w.tableau.objective?) then
      return ⟨w, .ok .infeasible⟩
    else if w.tableau.hasArtificialBasic then
      let (w, redundant) ← expel? options (List.range w.tableau.rowCount) w
      match redundant with
      | none => return ⟨w, .error (.pivotLimit .one w.pivotCount)⟩
      | some redundant => return ⟨w, .ok (.feasible redundant)⟩
    else return ⟨w, .ok (.feasible [])⟩

end SimplexMethod
