import SimplexMethod.RowMatrix.Basic
import SimplexMethod.Scalar.Choice

/-!
# Independent rows of a system

The rows of a system are considered in order. Each row, with its right-hand side at its end, is
reduced by the rows kept so far; it is kept when a coefficient is left that is not negligible. A
row without such a coefficient depends on the rows before it, and the system is inconsistent when
its right-hand side is not negligible.
-/

namespace SimplexMethod

variable {F : Type} [Scalar F]

namespace RowMatrix

/-- A row that was kept: its position in the system, the column by which it clears later rows, and
its reduced entries, the right-hand side last. -/
structure KeptRow (F : Type) where
  position : Nat
  pivot : Nat
  entries : List F
  deriving DecidableEq

/-- A row from which the multiple of the kept row that clears the kept row's column is taken. -/
def KeptRow.reduce? (kept : KeptRow F) (row : List F) : Checked (List F) := do
  let factor := (← row[kept.pivot]?) / (← kept.entries[kept.pivot]?)
  if factor == 0 then return row
  return List.zipWith (fun target source => target - factor * source) row kept.entries ++
    row.drop kept.entries.length

/-- The column of the largest coefficient that is not negligible, among the first `columns`
entries. -/
def largestColumn? (tolerance : F) (columns : Nat) (row : List F) : Checked (Option Nat) :=
  if row.length < columns then none
  else
    let coefficients := (row.take columns).zipIdx.filter fun entry =>
      ¬ Scalar.Negligible tolerance entry.1
    some ((lastGreatest? (fun entry => Scalar.abs entry.1) coefficients).map Prod.snd)

/-- Continues the selection with the rows that are left, each with its position; `none` inside when
the system is inconsistent. -/
def keepFrom? (tolerance : F) (columns : Nat) :
    List (List F × Nat) → List (KeptRow F) → Checked (Option (List (KeptRow F)))
  | [], kept => some (some kept)
  | (row, position) :: rest, kept => do
    let entries ← kept.foldlM (fun entries earlier => earlier.reduce? entries) row
    match ← largestColumn? tolerance columns entries with
    | some pivot => keepFrom? tolerance columns rest (kept ++ [{ position, pivot, entries }])
    | none =>
      if Scalar.Negligible tolerance (← entries[columns]?) then
        keepFrom? tolerance columns rest kept
      else return none

/-- The positions of the rows to keep of the system with this matrix and the given right-hand
sides; `none` inside when the system is inconsistent. -/
def independentRows? (m : RowMatrix F) (rhs : List F) (tolerance : F) :
    Checked (Option (List Nat)) := do
  let augmented := List.zipWith (fun row value => row ++ [value]) m.rows rhs
  let kept ← keepFrom? tolerance m.columns augmented.zipIdx []
  return kept.map fun rows => rows.map KeptRow.position

end RowMatrix

end SimplexMethod
