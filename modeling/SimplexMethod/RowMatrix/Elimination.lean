import SimplexMethod.RowMatrix.Basic
import SimplexMethod.Scalar.Choice

/-!
# Square systems

A square system is solved by elimination with partial pivoting. At each stage the rows that are
left start with the column to be eliminated: the row whose first entry is largest in magnitude is
exchanged with the first row, and multiples of it are taken from the rows below, which then go on
without their first entry. The rows put aside form a triangle and give the unknowns from the last
to the first.

A stage at which `k` rows are left works on their first `k + 1` entries; entries after them take no
part.
-/

namespace SimplexMethod

variable {F : Type} [Scalar F]

namespace RowMatrix

/-- The row at a position and the others, the first of which takes the place that becomes free. -/
def exchange? : List (List F) → Nat → Checked (List F × List (List F))
  | [], _ => none
  | first :: rest, 0 => some (first, rest)
  | first :: rest, i + 1 => do return (← rest[i]?, rest.set i first)

/-- The entries after the first one of a row below the pivot row, the multiple of the pivot row that
clears its first entry taken off. Nothing is read when the multiple is zero; otherwise both rows
must have `width` entries after the first. -/
def eliminate? (width : Nat) : List F → List F → Checked (List F)
  | pivot :: pivots, first :: entries =>
    let factor := first / pivot
    if factor == 0 then some entries
    else if pivots.length < width ∨ entries.length < width then none
    else some (List.zipWith (fun p entry => entry - factor * p) pivots entries)
  | _, _ => none

/-- The triangle of a system of `count` rows, each of which starts on the diagonal; `none` inside
when all first entries of the rows left at some stage are negligible. -/
def triangle? (tolerance : F) : Nat → List (List F) → Checked (Option (List (List F)))
  | 0, _ => some (some [])
  | count + 1, rows => do
    let firsts ← rows.mapM List.head?
    let (pivot, position) ← lastGreatest? (fun entry => Scalar.abs entry.1) firsts.zipIdx
    if Scalar.Negligible tolerance pivot then return none
    let (row, below) ← exchange? rows position
    let below ← below.mapM (eliminate? (count + 1) row)
    return (← triangle? tolerance count below).map (row :: ·)

/-- The unknowns of a triangular system. A row holds its diagonal entry, the coefficients of the
unknowns after it, and its right-hand side. -/
def backSubstitute? : List (List F) → Checked (List F)
  | [] => some []
  | row :: below => do
    let unknowns ← backSubstitute? below
    let diagonal ← row.head?
    let value ← row[unknowns.length + 1]?
    return (value - Scalar.dot row.tail unknowns) / diagonal :: unknowns

/-- The solution of the system with this matrix and the given right-hand sides; `none` inside when
the matrix counts as singular. -/
def solve? (m : RowMatrix F) (rhs : List F) (tolerance : F) : Checked (Option (List F)) := do
  if rhs.length < m.rowCount then none
  let augmented := List.zipWith (fun row value => row ++ [value]) m.rows rhs
  match ← triangle? tolerance m.rowCount augmented with
  | none => return none
  | some triangle => return some (← backSubstitute? triangle)

end RowMatrix

end SimplexMethod
