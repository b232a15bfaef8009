import SimplexMethod.Binary.Layout
import SimplexMethod.Checked
import SimplexMethod.Decimal.Positional
import SimplexMethod.Decimal.Shortest
import SimplexMethod.Enumeration.Solve
import SimplexMethod.Enumeration.Vertices
import SimplexMethod.Log.Answer
import SimplexMethod.Log.Entry
import SimplexMethod.Outcome
import SimplexMethod.Problem.Basic
import SimplexMethod.Problem.Direction
import SimplexMethod.Problem.Error
import SimplexMethod.Proofs.Checked
import SimplexMethod.Proofs.Enumeration.Directions
import SimplexMethod.Proofs.Enumeration.Extreme
import SimplexMethod.Proofs.Enumeration.KeptRows
import SimplexMethod.Proofs.Enumeration.Limit
import SimplexMethod.Proofs.Enumeration.NearOptimum
import SimplexMethod.Proofs.Enumeration.Progress
import SimplexMethod.Proofs.Enumeration.Systems
import SimplexMethod.Proofs.Enumeration.Tolerance
import SimplexMethod.Proofs.Enumeration.Verdicts
import SimplexMethod.Proofs.Enumeration.Vertices
import SimplexMethod.Proofs.Outcome.Agreement
import SimplexMethod.Proofs.Outcome.Progress
import SimplexMethod.Proofs.Problem.Construction
import SimplexMethod.Proofs.Problem.Feasible
import SimplexMethod.Proofs.Problem.Integral
import SimplexMethod.Proofs.Problem.Names
import SimplexMethod.Proofs.RowMatrix.Bounded
import SimplexMethod.Proofs.RowMatrix.Columns
import SimplexMethod.Proofs.RowMatrix.Condensation
import SimplexMethod.Proofs.RowMatrix.Elimination
import SimplexMethod.Proofs.RowMatrix.Entries
import SimplexMethod.Proofs.RowMatrix.Greedy
import SimplexMethod.Proofs.RowMatrix.Independence
import SimplexMethod.Proofs.RowMatrix.Minors
import SimplexMethod.Proofs.RowMatrix.Nonsingular
import SimplexMethod.Proofs.RowMatrix.Pivot
import SimplexMethod.Proofs.RowMatrix.Span
import SimplexMethod.Proofs.Scalar.Choice
import SimplexMethod.Proofs.Scalar.Exact
import SimplexMethod.Proofs.Scalar.Resolution
import SimplexMethod.Proofs.Selection.Combinations
import SimplexMethod.Proofs.Selection.Count
import SimplexMethod.Proofs.Selection.Removal
import SimplexMethod.Proofs.Tableau.Artificial
import SimplexMethod.Proofs.Tableau.BasicFeasible
import SimplexMethod.Proofs.Tableau.Choice
import SimplexMethod.Proofs.Tableau.Costs
import SimplexMethod.Proofs.Tableau.Fractions
import SimplexMethod.Proofs.Tableau.Inverse
import SimplexMethod.Proofs.Tableau.Moves
import SimplexMethod.Proofs.Tableau.Narrow
import SimplexMethod.Proofs.Tableau.Prices
import SimplexMethod.Proofs.Tableau.RatioTest
import SimplexMethod.Proofs.Tableau.Removal
import SimplexMethod.Proofs.Tableau.Solutions
import SimplexMethod.Proofs.Tableau.States
import SimplexMethod.Proofs.Tableau.Ties
import SimplexMethod.Proofs.Tableau.Undoing
import SimplexMethod.Proofs.Tableau.Units
import SimplexMethod.Proofs.Tableau.WellFormed
import SimplexMethod.Proofs.Tableau.Writing
import SimplexMethod.Proofs.TwoPhase.Account
import SimplexMethod.Proofs.TwoPhase.Attendance
import SimplexMethod.Proofs.TwoPhase.Bases
import SimplexMethod.Proofs.TwoPhase.Boundedness
import SimplexMethod.Proofs.TwoPhase.Degeneracy
import SimplexMethod.Proofs.TwoPhase.Descent
import SimplexMethod.Proofs.TwoPhase.Drift
import SimplexMethod.Proofs.TwoPhase.Expelling
import SimplexMethod.Proofs.TwoPhase.Feasibility
import SimplexMethod.Proofs.TwoPhase.FeasibleBases
import SimplexMethod.Proofs.TwoPhase.Limits
import SimplexMethod.Proofs.TwoPhase.Lockstep
import SimplexMethod.Proofs.TwoPhase.Optimum
import SimplexMethod.Proofs.TwoPhase.Progress
import SimplexMethod.Proofs.TwoPhase.Redundancy
import SimplexMethod.Proofs.TwoPhase.Restatement
import SimplexMethod.Proofs.TwoPhase.Signs
import SimplexMethod.Proofs.TwoPhase.Stages
import SimplexMethod.Proofs.TwoPhase.Tolerance
import SimplexMethod.Proofs.TwoPhase.Units
import SimplexMethod.Proofs.TwoPhase.Verdicts
import SimplexMethod.Proofs.TwoPhase.Walks
import SimplexMethod.Proofs.TwoPhase.ZeroLevel
import SimplexMethod.RowMatrix.Basic
import SimplexMethod.RowMatrix.Elimination
import SimplexMethod.RowMatrix.Independence
import SimplexMethod.RowMatrix.Pivot
import SimplexMethod.Scalar.Basic
import SimplexMethod.Scalar.Binary
import SimplexMethod.Scalar.Choice
import SimplexMethod.Scalar.Rational
import SimplexMethod.Selection.Combinations
import SimplexMethod.Selection.Count
import SimplexMethod.Selection.Removal
import SimplexMethod.Tableau.Artificial
import SimplexMethod.Tableau.Basic
import SimplexMethod.Tableau.BasicFeasible
import SimplexMethod.Tableau.Costs
import SimplexMethod.Tableau.Entering
import SimplexMethod.Tableau.Leaving
import SimplexMethod.Tableau.WordRow
import SimplexMethod.Text.Blank
import SimplexMethod.Text.Extender
import SimplexMethod.Text.Glyphless
import SimplexMethod.Text.Ignorable
import SimplexMethod.Text.Quoted
import SimplexMethod.Text.Ranges
import SimplexMethod.TwoPhase.Descent
import SimplexMethod.TwoPhase.Engine
import SimplexMethod.TwoPhase.Feasibility
import SimplexMethod.TwoPhase.History
import SimplexMethod.TwoPhase.Listener
import SimplexMethod.TwoPhase.Notice
import SimplexMethod.TwoPhase.Optimum
import SimplexMethod.TwoPhase.Options
import SimplexMethod.TwoPhase.Run
import SimplexMethod.TwoPhase.Walk
