import SimplexMethod.Problem.Basic
import SimplexMethod.Tableau.Basic

/-!
# The artificial problem

A feasible basis is found by solving a problem that has an obvious one. Each constraint gets an
artificial variable of its own, and the sum of the artificial variables is minimized. Constraints
with a negative value change their signs first, so that the artificial variables can start at
values that are not negative. With `A` and `b` after the change of signs, the tableau is

```text
[ -(sum of the rows of A) | 1 ... 1 | -(sum of b) ]
[           A             |    I    |      b      ]
```

and the artificial variables are basic. It is written into a matrix of zeros, entry by entry
(`artificialTableau?`): the constraints first, and then the costs, which are read off the written
constraints. `artificialTableau` says what comes out, block by block.
-/

namespace SimplexMethod

variable {F : Type} [Scalar F]

/-- The sums of the entries at each of the first `width` positions, each from the first row down. -/
def columnSums (width : Nat) (rows : List (List F)) : List F :=
  rows.foldl (List.zipWith (· + ·)) (List.replicate width (-0))

/-- A row of the identity matrix of a size. -/
def unitRow (size i : Nat) : List F := (List.range size).map fun k => if k = i then 1 else 0

namespace Problem

variable (p : Problem F)

/-- The sign that makes a constraint value nonnegative. -/
def signFor (value : F) : F := if value < 0 then -1 else 1

/-- The rows of the constraints after the change of signs. -/
def signedRows : List (List F) :=
  List.zipWith (fun row value => row.map (signFor value * ·)) p.constraints.rows p.values

/-- The values of the constraints after the change of signs. -/
def signedValues : List F := p.values.map fun value => signFor value * value

/-! ## Writing the tableau -/

/-- The entries of a constraint row: those of the constraint after the change of signs, a one for
its artificial variable, and its value. -/
def constraintEntries? (i : Nat) (value : F) : Checked (List (Nat × Nat × F)) := do
  let row ← p.constraints.row? i
  return (row.zipIdx.map fun (entry, j) => (i + 1, j, signFor value * entry)) ++
    [(i + 1, p.variableCount + i, 1),
      (i + 1, p.variableCount + p.constraintCount, signFor value * value)]

/-- The cost of a column that is not artificial: minus the sum of its entries in the constraint
rows, from the first one down. -/
def columnCost? (constraints : RowMatrix F) (j : Nat) : Checked F := do
  let column ← (List.range' 1 p.constraintCount).mapM fun i => constraints.entry? i j
  return -Scalar.sum column

/-- The tableau of the artificial problem. -/
def artificialTableau? : Checked (Tableau F) := do
  let size := p.constraintCount
  let columns := p.variableCount + size
  let entries ← p.values.zipIdx.mapM fun (value, i) => p.constraintEntries? i value
  let constraints ← (RowMatrix.zeros (size + 1) (columns + 1)).setEntries? entries.flatten
  let costs ← (List.range p.variableCount ++ [columns]).mapM fun j => do
    return (0, j, ← p.columnCost? constraints j)
  let matrix ← constraints.setEntries?
    (costs ++ (List.range' p.variableCount size).map fun j => (0, j, 1))
  return Tableau.ofBasis matrix (List.range' p.variableCount size) size

/-! ## The blocks of the tableau -/

/-- The tableau of the artificial problem, block by block. -/
def artificialTableau : Tableau F :=
  let size := p.constraintCount
  let costs := (columnSums p.variableCount p.signedRows).map (-·) ++ List.replicate size 1 ++
    [-Scalar.sum p.signedValues]
  let body := (List.zip p.signedRows p.signedValues).zipIdx.map fun ((row, value), i) =>
    row ++ unitRow size i ++ [value]
  Tableau.ofBasis
    { rows := costs :: body, columns := p.variableCount + size + 1 }
    (List.range' p.variableCount size) size

end Problem

end SimplexMethod
