import SimplexMethod.RowMatrix.Pivot

/-!
# Simplex tableaus

A tableau states the constraints of a linear program with respect to a basis. Its matrix has the
relative costs in row 0 and a constraint in each row below; the last column holds the right-hand
sides, and in row 0 minus the objective. In each constraint row one variable is basic: `basis` says
which one, from the row to the variable, and `marks` says which columns are basic, from the variable
to yes or no.

The last columns before the right-hand side may belong to artificial variables, which are not
variables of the program. The other variables are called structural.
-/

namespace SimplexMethod

variable {F : Type}

/-- A linear program with respect to a basis. -/
structure Tableau (F : Type) where
  matrix : RowMatrix F
  basis : List Nat
  marks : List Bool
  artificials : Nat
  deriving DecidableEq

namespace Tableau

/-- The tableau with the given matrix and basis, the basic columns marked. -/
def ofBasis (matrix : RowMatrix F) (basis : List Nat) (artificials : Nat) : Tableau F :=
  { matrix, basis, artificials
    marks := (List.range matrix.columns).map fun j => decide (j ∈ basis) }

variable (t : Tableau F)

/-! ## Sizes -/

/-- The number of constraint rows. -/
def rowCount : Nat := t.basis.length

/-- The number of variables. -/
def columnCount : Nat := t.matrix.columns - 1

/-- The number of variables that are not artificial. -/
def structuralCount : Nat := t.columnCount - t.artificials

/-- Whether a column comes after those of the structural variables. -/
def IsArtificial (j : Nat) : Prop := t.structuralCount ≤ j

instance (j : Nat) : Decidable (t.IsArtificial j) :=
  inferInstanceAs (Decidable (t.structuralCount ≤ j))

/-- Whether a column is marked as basic. -/
def isMarked (j : Nat) : Bool := t.marks.getD j false

/-- The structural columns that are not marked as basic, in order. -/
def openColumns : List Nat := (List.range t.structuralCount).filter fun j => !t.isMarked j

/-- Whether an artificial variable is basic in some row. -/
def hasArtificialBasic : Bool := t.basis.any fun j => decide (t.IsArtificial j)

/-! ## Entries -/

/-- The relative cost of a column. -/
def relativeCost? (j : Nat) : Checked F := t.matrix.entry? 0 j

/-- The entry of a constraint row in a column. -/
def entry? (i j : Nat) : Checked F := t.matrix.entry? (i + 1) j

/-- The right-hand side of a constraint row, which is the value of the variable that is basic in
it. -/
def value? (i : Nat) : Checked F := t.matrix.entry? (i + 1) t.columnCount

/-- The entries of all constraint rows in a column. -/
def column? (j : Nat) : Checked (List F) := t.matrix.rows.tail.mapM fun row => row[j]?

/-- The variable that is basic in a constraint row. -/
def basic? (i : Nat) : Checked Nat := t.basis[i]?

/-- The objective at the basic solution. -/
def objective? [Scalar F] : Checked F := do return -(← t.matrix.entry? 0 t.columnCount)

/-! ## Solutions -/

/-- The basic solution without the artificial variables: a variable that is basic in a row has the
value of the row, and all others are zero. -/
def basicSolution? [Scalar F] : Checked (List F) :=
  t.basis.zipIdx.foldlM (fun values (j, i) =>
      if t.IsArtificial j then some values else do write? values j (← t.value? i))
    (List.replicate t.structuralCount 0)

/-- The direction in which the solution moves when a variable grows: that variable at rate one, and
the basic variables at minus the rates of their rows in the given column. Rows after the end of the
column do not move. -/
def direction? [Scalar F] (entering : Nat) (column : List F) : Checked (List F) := do
  let alone ← write? (List.replicate t.structuralCount 0) entering 1
  (List.zip t.basis column).foldlM (fun rates (j, rate) =>
    if t.IsArtificial j then some rates else write? rates j (-rate)) alone

/-! ## Changing the basis -/

/-- Brings a column into the basis in a row, and says which column left the basis. -/
def bringIn? [Scalar F] (entering row : Nat) : Checked (Nat × Tableau F) := do
  let matrix ← t.matrix.pivot? (row + 1) entering
  let leaving ← t.basis[row]?
  return (leaving,
    { t with
      matrix
      basis := t.basis.set row entering
      marks := (t.marks.set leaving false).set entering true })

end Tableau

end SimplexMethod
