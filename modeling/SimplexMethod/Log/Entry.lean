import SimplexMethod.Problem.Direction
import SimplexMethod.Scalar.Binary
import SimplexMethod.TwoPhase.Notice

/-!
# Log entries

What the methods write to a log, as data, and the wording of each entry. The details of single
pivots are traced; all else is for debugging.
-/

namespace SimplexMethod

variable {F : Type}

/-- How detailed an entry is. -/
inductive Level where
  | debug
  | trace
  deriving DecidableEq

/-- The name of a level. -/
def Level.name : Level → String
  | debug => "DEBUG"
  | trace => "TRACE"

/-- Something written to a log. -/
inductive Entry (F : Type) where
  /-- A solve begins. -/
  | solving (constraints unknowns : Nat) (direction : Direction)
  /-- A pivot was made, the given one of its phase. -/
  | pivoted (phase : Phase) (step : Nat) (pivot : Pivot)
  /-- A pivot was due that is not allowed. -/
  | pivotLimit (phase : Phase) (limit : Nat)
  /-- Phase one ended without a feasible basis. -/
  | infeasible (pivots : Nat)
  /-- Some constraint rows depend on the others. -/
  | redundant (rows : List Nat)
  /-- The solve ended with a result. -/
  | solved (status : Status) (pivots : PivotCounts)
  /-- A notice was heard. -/
  | heard (notice : Notice F)
  /-- The constraints of a program contradict each other. -/
  | inconsistent
  /-- No basis has a feasible solution. -/
  | noVertex
  /-- The objective improves along a ray of the feasible region. -/
  | improvingRay
  deriving DecidableEq

/-- The numbers of a list with commas between them. -/
def commaSeparated (numbers : List Nat) : String := ", ".intercalate (numbers.map toString)

namespace Entry

/-- How detailed the entry is. -/
def level : Entry F → Level
  | pivoted _ _ _ => .trace
  | heard (.pivoted _ _) => .trace
  | _ => .debug

variable [Scalar F] [DecimalText F]

/-- The text about a notice that was heard. -/
def noticeText? (notice : Notice F) : Checked String := do
  let moment := notice.moment
  let phase := moment.phase
  let step := moment.step
  let basis := commaSeparated moment.basis
  let objective := DecimalText.text (← moment.objective?)
  match notice with
  | .started _ =>
    let rows := moment.rowCount
    let columns := moment.columnCount
    return s!"Phase {phase} started with {rows} rows and {columns} columns, basis [{basis}], " ++
      s!"objective {objective}"
  | .pivoted ⟨entering, leaving, row⟩ _ =>
    return s!"Phase {phase} step {step}: column {entering} entered in row {row}, " ++
      s!"column {leaving} left, objective {objective}"
  | .finished _ =>
    return s!"Phase {phase} finished after {step} pivots, basis [{basis}], objective {objective}"

/-- The text of the entry. -/
def text? : Entry F → Checked String
  | solving constraints unknowns direction =>
    let name := direction.name
    some (s!"Solving a problem with {constraints} constraints and {unknowns} variables " ++
      s!"({name})")
  | pivoted phase step ⟨entering, leaving, row⟩ =>
    some (s!"Phase {phase} pivot {step}: column {entering} replaces column {leaving} " ++
      s!"in row {row}")
  | pivotLimit phase limit => some s!"Phase {phase} reached the pivot limit of {limit}"
  | infeasible pivots => some s!"Problem is infeasible, found after {pivots} pivots"
  | redundant rows =>
    let list := commaSeparated rows
    some s!"Removing redundant rows [{list}]"
  | solved status ⟨one, two⟩ => some s!"Problem is {status} after {one} + {two} pivots"
  | heard notice => noticeText? notice
  | inconsistent => some "Constraints are inconsistent"
  | noVertex => some "No basic solution is nonnegative"
  | improvingRay => some "Found an improving ray"

/-- The entry as one line, its level in front. -/
def line? (entry : Entry F) : Checked String := do
  return entry.level.name ++ " " ++ (← entry.text?)

end Entry

end SimplexMethod
