import SimplexMethod.Checked
import SimplexMethod.Scalar.Basic
import SimplexMethod.Selection.Removal

/-!
# Matrices as lists of rows

A matrix is the list of its rows together with the number of its columns, which a matrix without
rows has as well. The operations take any rows; in a rectangular matrix all rows have the length
that the number of columns says, and then a position is out of range exactly when it is not below
the number of rows or of columns.
-/

namespace SimplexMethod

variable {F : Type}

/-- Rows of numbers, and the number of columns. -/
structure RowMatrix (F : Type) where
  rows : List (List F)
  columns : Nat
  deriving DecidableEq

namespace RowMatrix

/-- All rows are as long as the number of columns says. -/
def Rectangular (m : RowMatrix F) : Prop := ∀ row ∈ m.rows, row.length = m.columns

/-- The number of rows. -/
def rowCount (m : RowMatrix F) : Nat := m.rows.length

/-- The matrix with the given rows; the first of them says how many columns there are. -/
def ofRows (rows : List (List F)) : RowMatrix F :=
  { rows, columns := (rows.head?.map List.length).getD 0 }

/-! ## Reading -/

/-- The row at a position. -/
def row? (m : RowMatrix F) (i : Nat) : Checked (List F) := m.rows[i]?

/-- The entry at a row and a column. -/
def entry? (m : RowMatrix F) (i j : Nat) : Checked F := do
  let row ← m.rows[i]?
  row[j]?

/-- The columns at the given positions, in the order given. -/
def selectColumns? (m : RowMatrix F) (positions : List Nat) : Checked (RowMatrix F) := do
  let rows ← m.rows.mapM fun row => positions.mapM fun j => row[j]?
  return { rows, columns := positions.length }

/-- The rows at the given positions, in the order given. -/
def selectRows? (m : RowMatrix F) (positions : List Nat) : Checked (RowMatrix F) := do
  let rows ← positions.mapM fun i => m.rows[i]?
  return { m with rows }

/-! ## Changing -/

/-- The matrix with another entry at a row and a column. -/
def setEntry? (m : RowMatrix F) (i j : Nat) (value : F) : Checked (RowMatrix F) := do
  let row ← m.rows[i]?
  return { m with rows := m.rows.set i (← write? row j value) }

/-- The matrix with the given entries, each at a row and a column, written one after the other. -/
def setEntries? (m : RowMatrix F) (entries : List (Nat × Nat × F)) : Checked (RowMatrix F) :=
  entries.foldlM (fun m (i, j, value) => m.setEntry? i j value) m

/-- The matrix without the rows at the given positions, which are in increasing order. -/
def removeRows (m : RowMatrix F) (positions : List Nat) : RowMatrix F :=
  { m with rows := removePositions positions m.rows }

/-- The matrix with a row after its last one. The first row says how many columns there are. -/
def pushRow (m : RowMatrix F) (row : List F) : RowMatrix F :=
  { rows := m.rows ++ [row], columns := if m.rows.isEmpty then row.length else m.columns }

/-! ## Arithmetic -/

variable [Scalar F]

/-- The most bytes that one list can take: half of what a 64-bit address reaches. -/
def largestList : Nat := Nat.pow 2 63 - 1

/-- The matrix of zeros of a size. -/
def zeros (rows columns : Nat) : RowMatrix F :=
  { rows := List.replicate rows (List.replicate columns 0), columns }

/-- The matrix of zeros of a size, unless a row or the list of the rows is larger than a list can
be. An entry counts for eight bytes of its row, and a row for 24 bytes of the list, whatever its
length; a row that is too long is refused even where there are no rows. -/
def zeros? (rows columns : Nat) : Option (RowMatrix F) :=
  if 8 * columns ≤ largestList ∧ 24 * rows ≤ largestList then some (zeros rows columns) else none

/-- Whether two matrices have the same size and equal entries. -/
def agrees (m n : RowMatrix F) : Bool := m.rows == n.rows && m.columns == n.columns

/-- The products of the rows with a vector. -/
def mulVector (m : RowMatrix F) (x : List F) : List F := m.rows.map (Scalar.dot · x)

/-- The matrix with the row at a position divided by a number. -/
def divideRow? (m : RowMatrix F) (i : Nat) (divisor : F) : Checked (RowMatrix F) := do
  let row ← m.rows[i]?
  return { m with rows := m.rows.set i (row.map (· / divisor)) }

/-- A row plus a multiple of another one, in the first `columns` entries, which both must have. -/
def addMultiple? (columns : Nat) (factor : F) (read write : List F) : Checked (List F) :=
  if read.length < columns ∨ write.length < columns then none
  else some (List.zipWith (fun r w => w + factor * r) (read.take columns) write ++
    write.drop columns)

/-- The matrix with a multiple of the row at `read` added to the row at `write`. Without columns
there is nothing to read. -/
def addRowMultiple? (m : RowMatrix F) (read write : Nat) (factor : F) : Checked (RowMatrix F) :=
  if m.columns = 0 then some m
  else do
    let sum ← addMultiple? m.columns factor (← m.rows[read]?) (← m.rows[write]?)
    return { m with rows := m.rows.set write sum }

end RowMatrix

end SimplexMethod
