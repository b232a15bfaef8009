import SimplexMethod.RowMatrix.Basic

/-!
# Pivoting

A pivot turns a column into a unit vector: its row is divided by the pivot entry, and multiples of
the divided row are taken from all other rows. Rows that already have a zero in the column stay as
they are.
-/

namespace SimplexMethod

variable {F : Type} [Scalar F]

namespace RowMatrix

/-- The matrix after the entry of row `k` in column `j` has been cleared with row `i`, which has a
one there. -/
def clearRow? (i j : Nat) (m : RowMatrix F) (k : Nat) : Checked (RowMatrix F) := do
  let entry ← m.entry? k j
  if entry == 0 then return m else m.addRowMultiple? i k (-entry)

/-- The matrix with a unit vector in column `j`, whose one is in row `i`. -/
def pivot? (m : RowMatrix F) (i j : Nat) : Checked (RowMatrix F) := do
  let divided ← m.divideRow? i (← m.entry? i j)
  ((List.range m.rowCount).filter (· ≠ i)).foldlM (clearRow? i j) divided

end RowMatrix

end SimplexMethod
