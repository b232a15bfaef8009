import SimplexMethod.Text.Quoted

/-!
# Malformed problems

Why some data do not describe a linear program. A program that is infeasible or unbounded is well
formed; that is a result of solving it.
-/

namespace SimplexMethod

/-- Sizes that do not fit together. -/
inductive SizeError where
  /-- There are no constraints or there are no variables. -/
  | empty (rows columns : Nat)
  /-- A row of the constraint matrix is not as long as the first one. -/
  | raggedRow (row length expected : Nat)
  /-- There is not one constraint value for each row. -/
  | constraintValues (length expected : Nat)
  /-- There is not one cost coefficient for each column. -/
  | cost (length expected : Nat)
  deriving DecidableEq

/-- What is wrong with the sizes. -/
def SizeError.message : SizeError → String
  | empty rows columns =>
    s!"a linear program needs at least one constraint and one variable, got {rows} x {columns}"
  | raggedRow row length expected =>
    s!"row {row} of the constraint matrix has length {length}, expected {expected}"
  | constraintValues length expected =>
    s!"b has length {length} but the constraint matrix has {expected} rows"
  | cost length expected =>
    s!"c has length {length} but the constraint matrix has {expected} columns"

/-- Why a problem could not be made. -/
inductive ProblemError where
  /-- The sizes do not fit together. -/
  | sizes (error : SizeError)
  /-- The given text names no direction. -/
  | direction (given : String)
  deriving DecidableEq

/-- What is wrong with the data. -/
def ProblemError.message : ProblemError → String
  | sizes error => error.message
  | direction given =>
    let text := Text.quoted given
    s!"invalid optimization direction {text}, expected one of min, minimize, max or maximize"

end SimplexMethod
