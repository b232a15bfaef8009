import SimplexMethod.Scalar.Choice
import SimplexMethod.Tableau.Basic

/-!
# The leaving row

When a variable grows, each row with a positive entry in its column limits it to the ratio of the
row's value to that entry. The pivot is made in the first row with the least ratio. Entries that
are positive but not above the tolerance are used only when there are no others.
-/

namespace SimplexMethod

variable {F : Type} [Scalar F]

namespace Tableau

/-- The first row of least ratio among those whose entry is above the threshold. -/
def leastRatioRow? (t : Tableau F) (column : List F) (threshold : F) : Checked (Option Nat) := do
  let limiting := column.zipIdx.filter fun entry => threshold < entry.1
  let ratios ← limiting.mapM fun (entry, i) => do return (i, (← t.value? i) / entry)
  return (firstLeast? Prod.snd ratios).map Prod.fst

/-- The row to pivot in for an entering column; `none` inside when no entry is positive, so that
nothing limits the column. -/
def leavingRow? (t : Tableau F) (column : List F) (tolerance : F) : Checked (Option Nat) := do
  match ← t.leastRatioRow? column tolerance with
  | some row => return some row
  | none => t.leastRatioRow? column 0

end Tableau

end SimplexMethod
