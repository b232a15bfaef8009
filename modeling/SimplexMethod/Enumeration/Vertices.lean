import SimplexMethod.RowMatrix.Elimination
import SimplexMethod.Selection.Combinations

/-!
# Vertices

The basic solutions of a system with independent rows are found by trying all choices of as many
columns as there are rows. A choice gives a vertex when its columns are independent and the solution
of the system in these columns has no entry below minus the tolerance.
-/

namespace SimplexMethod

variable {F : Type}

/-- A nonnegative basic solution and the columns that were chosen for it. -/
structure Vertex (F : Type) where
  basis : List Nat
  values : List F
  deriving DecidableEq

variable [Scalar F]

namespace RowMatrix

/-- The solution vector with the given entries in the chosen columns, negative ones raised to zero,
and zeros elsewhere. -/
def spread? (width : Nat) (columns : List Nat) (entries : List F) : Checked (List F) :=
  (List.zip columns entries).foldlM (fun values (j, entry) =>
    write? values j (Scalar.larger entry 0)) (List.replicate width 0)

/-- The vertex of a choice of columns, if there is one. -/
def vertex? (m : RowMatrix F) (rhs : List F) (tolerance : F) (columns : List Nat) :
    Checked (Option (Vertex F)) := do
  match ← (← m.selectColumns? columns).solve? rhs tolerance with
  | none => return none
  | some entries =>
    if entries.any fun entry => entry < -tolerance then return none
    else return some ⟨columns, ← spread? m.columns columns entries⟩

/-- All vertices, in lexicographic order of the chosen columns. -/
def vertices? (m : RowMatrix F) (rhs : List F) (tolerance : F) : Checked (List (Vertex F)) := do
  let found ← (combinations m.rowCount (List.range m.columns)).mapM (m.vertex? rhs tolerance)
  return found.filterMap id

end RowMatrix

end SimplexMethod
