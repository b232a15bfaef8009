import SimplexMethod.Problem.Basic
import SimplexMethod.Tableau.Basic

/-!
# From the artificial problem to the program

Once the artificial variables are out of the basis, or basic only in redundant rows, the constraint
rows of the tableau state the program with respect to the basis. Redundant rows and artificial
columns are left out, and the cost row is made anew: from the cost of each column, the costs of the
basic variables times the column's entries are taken, and in the last column the same is taken from
zero.
-/

namespace SimplexMethod

variable {F : Type} [Scalar F]

/-- Takes multiples of rows off a row of costs, one row after the other, entry by entry. -/
def reduceCosts (costs : List F) (basic : List (F × List F)) : List F :=
  basic.foldl (fun costs (factor, row) =>
    List.zipWith (fun cost entry => cost - factor * entry) costs row) costs

namespace Tableau

/-- The tableau of the program from the last tableau of the artificial problem, without the matrix
rows at the positions `matrixRows` and the places of the basis at the positions `places`, both in
increasing order. The cost of each variable that stays basic is read, so none of these may be
artificial, and so is the matrix row one after its place. -/
def restate? (t : Tableau F) (matrixRows places : List Nat) (p : Problem F) :
    Checked (Tableau F) := do
  let structural := List.range t.structuralCount
  let selected ← t.matrix.selectColumns? (structural ++ [t.columnCount])
  let matrix := selected.removeRows matrixRows
  let basis := removePositions places t.basis
  let own ← structural.mapM fun j => p.minimizationCost[j]?
  let basic ← basis.zipIdx.mapM fun (j, i) => do
    return (← p.minimizationCost[j]?, ← matrix.rows[i + 1]?)
  let rest ← matrix.rows.tail?
  return ofBasis { matrix with rows := reduceCosts (own ++ [0]) basic :: rest } basis 0

/-- The tableau of the program without the redundant constraint rows: their matrix rows are one
further down than their places in the basis. -/
def withCosts? (t : Tableau F) (redundant : List Nat) (p : Problem F) : Checked (Tableau F) :=
  t.restate? (redundant.map (· + 1)) redundant p

end Tableau

end SimplexMethod
