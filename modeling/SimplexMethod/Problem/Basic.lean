import SimplexMethod.Problem.Direction
import SimplexMethod.Problem.Error
import SimplexMethod.RowMatrix.Basic

/-!
# Linear programs

A linear program asks for the vectors `x` with `A x = b` and `x ≥ 0` that make `c x` small or
large. A `Problem` holds the cost of the equivalent minimization, so maximization changes the signs
of the cost once when the problem is made and once more when a value is reported. Its sizes fit
together by construction: `Problem.ofRows` makes a problem from any data or says which of the sizes
is the first that does not fit.
-/

namespace SimplexMethod

variable {F : Type}

/-- A linear program with equality constraints and nonnegative variables, at least one of each. -/
structure Problem (F : Type) where
  constraints : RowMatrix F
  values : List F
  minimizationCost : List F
  direction : Direction
  rows_ne_nil : constraints.rows ≠ []
  columns_pos : 0 < constraints.columns
  rectangular : constraints.Rectangular
  values_length : values.length = constraints.rowCount
  cost_length : minimizationCost.length = constraints.columns

namespace Problem

/-! ## Making problems -/

/-- The position and the length of the first row that does not have the given length. -/
def raggedRow? (width : Nat) (rows : List (List F)) : Option (Nat × Nat) :=
  (rows.zipIdx.find? fun entry => entry.1.length != width).map fun entry =>
    (entry.2, entry.1.length)

theorem length_eq_of_raggedRow? {width : Nat} {rows : List (List F)}
    (none_ragged : raggedRow? width rows = none) : ∀ row ∈ rows, row.length = width := by
  intro row mem
  obtain ⟨i, bound, rfl⟩ := List.getElem_of_mem mem
  have all := List.find?_eq_none.1 (Option.map_eq_none_iff.1 none_ragged) (rows[i], i)
    (List.mem_zipIdx_iff_getElem?.2 (by simp [bound]))
  simpa using all

variable [Scalar F]

/-- The cost of the equivalent minimization, and the cost as given from that of the minimization:
maximization changes all signs. -/
def orient (direction : Direction) (cost : List F) : List F :=
  match direction with
  | .minimize => cost
  | .maximize => cost.map (-·)

theorem length_orient (direction : Direction) (cost : List F) :
    (orient direction cost).length = cost.length := by
  cases direction with
  | minimize => rfl
  | maximize => exact List.length_map _

/-- The problem with the given constraint rows, constraint values and cost. The sizes are tested in
this order: rows and columns exist, rows are equally long, values match rows, costs match columns. -/
def ofRows (rows : List (List F)) (values cost : List F) (direction : Direction) :
    Except SizeError (Problem F) :=
  let constraints := RowMatrix.ofRows rows
  let columns := constraints.columns
  if size : rows = [] ∨ columns = 0 then .error (.empty rows.length columns)
  else
    match ragged : raggedRow? columns rows with
    | some (row, length) => .error (.raggedRow row length columns)
    | none =>
      if values_length : values.length = rows.length then
        if cost_length : cost.length = columns then
          .ok {
            constraints, values, direction
            minimizationCost := orient direction cost
            rows_ne_nil := fun h => size (.inl h)
            columns_pos := Nat.pos_of_ne_zero fun h => size (.inr h)
            rectangular := length_eq_of_raggedRow? ragged
            values_length
            cost_length := (length_orient direction cost).trans cost_length }
        else .error (.cost cost.length columns)
      else .error (.constraintValues values.length rows.length)

/-- The problem with the given data and the direction that a text names. The text is read first. -/
def ofTarget (rows : List (List F)) (values cost : List F) (target : String) :
    Except ProblemError (Problem F) :=
  match Direction.ofText? target with
  | none => .error (.direction target)
  | some direction => (ofRows rows values cost direction).mapError .sizes

/-! ## Reading problems -/

variable (p : Problem F)

/-- The number of constraints. -/
def constraintCount : Nat := p.constraints.rowCount

/-- The number of variables. -/
def variableCount : Nat := p.constraints.columns

/-- The cost as it was given. -/
def cost : List F := orient p.direction p.minimizationCost

/-- A value of the minimization as a value of the objective that was given. -/
def reported (minimized : F) : F :=
  match p.direction with
  | .minimize => minimized
  | .maximize => -minimized

/-- The objective as it was given, at a point. -/
def objectiveAt (x : List F) : F := p.reported (Scalar.dot p.minimizationCost x)

/-- The largest magnitude by which a point misses a constraint value. -/
def violationAt (x : List F) : F :=
  (List.zipWith (fun product value => Scalar.abs (product - value))
    (p.constraints.mulVector x) p.values).foldl Scalar.larger 0

end Problem

end SimplexMethod
