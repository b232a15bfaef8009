import SimplexMethod.Scalar.Choice
import SimplexMethod.Tableau.Basic

/-!
# The entering column

A pivot rule chooses the column that enters the basis among the profitable ones: structural columns
that are not basic and whose relative cost is below minus the tolerance. An artificial variable
that has left the basis does not come back.
-/

namespace SimplexMethod

variable {F : Type} [Scalar F]

/-- How the entering column is chosen. -/
inductive PivotRule where
  /-- The first profitable column. -/
  | first
  /-- The first column of least relative cost. -/
  | steepest
  deriving DecidableEq

namespace Tableau

/-- The profitable columns in order, each with its relative cost. -/
def profitable? (t : Tableau F) (tolerance : F) : Checked (List (Nat × F)) := do
  let priced ← t.openColumns.mapM fun j => do return (j, ← t.relativeCost? j)
  return priced.filter fun column => column.2 < -tolerance

end Tableau

/-- The entering column and its relative cost; `none` inside when no column is profitable. -/
def PivotRule.entering? (rule : PivotRule) (t : Tableau F) (tolerance : F) :
    Checked (Option (Nat × F)) := do
  let columns ← t.profitable? tolerance
  return match rule with
    | first => columns.head?
    | steepest => firstLeast? Prod.snd columns

end SimplexMethod
