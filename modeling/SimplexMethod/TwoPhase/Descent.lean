import SimplexMethod.Tableau.Entering
import SimplexMethod.Tableau.Leaving
import SimplexMethod.TwoPhase.Walk

/-!
# Descent

Both phases lower the objective of a tableau in the same way: as long as some column is profitable
and some row limits it, a pivot is made. `Tableau.move?` decides what happens at a tableau and
`descend?` repeats it until the tableau is optimal, the objective has no lower bound, or the pivots
that are allowed are used up. No rule against cycling is in force, so the number of allowed pivots
is what ends every descent.
-/

namespace SimplexMethod

variable {F : Type} [Scalar F]

/-- What can be done at a tableau. -/
inductive Move (F : Type) where
  /-- No column is profitable. -/
  | stay
  /-- Nothing limits the entering column; its entries in the constraint rows are given. -/
  | fall (entering : Nat) (column : List F)
  /-- A column enters the basis in a row. -/
  | pivot (entering row : Nat)
  deriving DecidableEq

/-- The move at a tableau. -/
def Tableau.move? (t : Tableau F) (rule : PivotRule) (tolerance : F) : Checked (Move F) := do
  match ← rule.entering? t tolerance with
  | none => return .stay
  | some (entering, _) =>
    let column ← t.column? entering
    match ← t.leavingRow? column tolerance with
    | none => return .fall entering column
    | some row => return .pivot entering row

/-- How a descent ends. -/
inductive Descent (F : Type) where
  /-- No column is profitable any more. -/
  | optimal
  /-- The objective has no lower bound along the column. -/
  | unbounded (entering : Nat) (column : List F)
  /-- A pivot was due, but no more of them are allowed. -/
  | limit
  deriving DecidableEq

/-- Continues a walk by the moves at its tableaus while at most `allowed` more pivots are made. -/
def descend? (rule : PivotRule) (tolerance : F) : Nat → Walk F → Checked (Walk F × Descent F)
  | 0, w => do
    match ← w.tableau.move? rule tolerance with
    | .stay => return (w, .optimal)
    | .fall entering column => return (w, .unbounded entering column)
    | .pivot _ _ => return (w, .limit)
  | allowed + 1, w => do
    match ← w.tableau.move? rule tolerance with
    | .stay => return (w, .optimal)
    | .fall entering column => return (w, .unbounded entering column)
    | .pivot entering row => descend? rule tolerance allowed (← w.pivot? entering row)

end SimplexMethod
