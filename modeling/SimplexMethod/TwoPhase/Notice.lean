import SimplexMethod.Outcome
import SimplexMethod.TwoPhase.Walk

/-!
# Notices

What is told about a solve while it goes on: that a phase has started, that a pivot was made, that a
phase has finished. Each notice shows the tableau at that moment. A phase that is given up does not
finish.
-/

namespace SimplexMethod

variable {F : Type}

/-- A tableau at a moment of a phase, after `step` pivots of that phase. -/
structure Moment (F : Type) where
  phase : Phase
  step : Nat
  tableau : Tableau F
  deriving DecidableEq

namespace Moment

/-- The rows of the tableau, the relative costs first and the right-hand sides last in each. -/
def rows (m : Moment F) : List (List F) := m.tableau.matrix.rows

/-- One of the rows. -/
def row? (m : Moment F) (i : Nat) : Checked (List F) := m.tableau.matrix.row? i

/-- The variable that is basic in each constraint row. -/
def basis (m : Moment F) : List Nat := m.tableau.basis

/-- The number of constraint rows. -/
def rowCount (m : Moment F) : Nat := m.tableau.rowCount

/-- The number of variables. -/
def columnCount (m : Moment F) : Nat := m.tableau.columnCount

/-- The objective that the phase minimizes, at the basic solution. -/
def objective? [Scalar F] (m : Moment F) : Checked F := m.tableau.objective?

end Moment

/-- Something that has happened. -/
inductive Notice (F : Type) where
  | started (moment : Moment F)
  | pivoted (pivot : Pivot) (moment : Moment F)
  | finished (moment : Moment F)
  deriving DecidableEq

/-- The tableau at the moment of a notice. -/
def Notice.moment : Notice F → Moment F
  | started moment => moment
  | pivoted _ moment => moment
  | finished moment => moment

/-- The change of basis that a notice tells of. -/
def Notice.pivot? : Notice F → Option Pivot
  | pivoted pivot _ => some pivot
  | _ => none

end SimplexMethod
