import SimplexMethod.Tableau.Basic

/-!
# Feasible tableaus

The state in which a tableau has to be when a pivot is chosen. The basic columns form an identity
matrix, their relative costs are zero unless they are artificial, and the values of the rows are not
negative. The tests allow for rounding.
-/

namespace SimplexMethod

variable {F : Type} [Scalar F]

namespace Tableau

/-- Whether a column is the unit vector with its one in row `i`, up to the tolerance. -/
def isUnit (tolerance : F) (i : Nat) (column : List F) : Bool :=
  column.zipIdx.all fun (entry, k) =>
    Scalar.Negligible tolerance (entry - if k = i then 1 else 0)

/-- How far below zero the values of the rows may be: a millionth of the largest magnitude among
them, and of one. -/
def lowestValue (values : List F) : F :=
  -1e-6 * values.foldl (fun largest value => Scalar.larger largest (Scalar.abs value)) 1

/-- Whether the tableau has a feasible basic solution. -/
def isBasicFeasible? (t : Tableau F) (tolerance : F) : Checked Bool := do
  if t.marks.count true ≠ t.rowCount then return false
  let columns ← t.basis.mapM t.column?
  let costs ← (t.basis.filter fun j => ¬ t.IsArtificial j).mapM t.relativeCost?
  let values ← (List.range t.rowCount).mapM t.value?
  return columns.zipIdx.all (fun (column, i) => isUnit tolerance i column)
    && costs.all (fun cost => Scalar.Negligible tolerance cost)
    && values.all (fun value => lowestValue values ≤ value)

end Tableau

end SimplexMethod
