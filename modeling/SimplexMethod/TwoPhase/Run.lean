import SimplexMethod.Log.Entry
import SimplexMethod.Tableau.Artificial
import SimplexMethod.Tableau.Costs
import SimplexMethod.TwoPhase.Optimum

/-!
# Runs of the two-phase method

A run goes through phase one and, when that finds a feasible basis, through phase two. It is kept as
data: `Run.result` says what the program turned out to be, and `Run.record` lists the log entries
and notices of the run in the order in which they come up.
-/

namespace SimplexMethod

variable {F : Type}

/-- A run, by how far it went. -/
inductive Run (F : Type) where
  /-- Phase one was given up. -/
  | abandoned (one : Walk F) (error : SolveError)
  /-- Phase one found the program infeasible. -/
  | infeasible (one : Walk F)
  /-- Phase one found a feasible basis, and phase two was entered without the redundant rows. -/
  | entered (one : Walk F) (redundant : List Nat) (two : Stage F (Optimum F))

/-- The run of the method on a program from a tableau of its artificial problem. -/
def Problem.runFrom? [Scalar F] (p : Problem F) (options : Options F) (rule : PivotRule)
    (start : Tableau F) : Checked (Run F) := do
  let one ← phaseOne? options rule start
  match one.outcome with
  | .error error => return .abandoned one.walk error
  | .ok .infeasible => return .infeasible one.walk
  | .ok (.feasible redundant) =>
    let start ← one.walk.tableau.withCosts? redundant p
    return .entered one.walk redundant (← phaseTwo? options rule start)

/-- The run of the method on a program. -/
def Problem.run? [Scalar F] (p : Problem F) (options : Options F) (rule : PivotRule) :
    Checked (Run F) := do
  p.runFrom? options rule (← p.artificialTableau?)

/-! ## Results -/

/-- What phase two found, in the direction that was asked for. -/
def Optimum.outcome [Scalar F] (optimum : Optimum F) (p : Problem F) (pivots : PivotCounts) :
    Outcome F :=
  match optimum with
  | attained minimum values basis => .optimal ⟨p.reported minimum, values, basis, pivots⟩
  | unbounded ray => .unbounded ray

/-- What the program turned out to be. -/
def Run.result [Scalar F] (run : Run F) (p : Problem F) : Except SolveError (Outcome F) :=
  match run with
  | abandoned _ error => .error error
  | infeasible _ => .ok .infeasible
  | entered one _ two =>
    two.outcome.map fun optimum => optimum.outcome p ⟨one.pivotCount, two.walk.pivotCount⟩

/-! ## Records -/

/-- Something that comes up in a run. -/
inductive Occurrence (F : Type) where
  | logged (entry : Entry F)
  | noticed (notice : Notice F)
  deriving DecidableEq

/-- The notices among the things that come up. -/
def notices (record : List (Occurrence F)) : List (Notice F) :=
  record.filterMap fun
    | .logged _ => none
    | .noticed notice => some notice

/-- The start of a phase and the pivots of its walk. A pivot is logged before it is noticed. -/
def Walk.record (w : Walk F) (phase : Phase) : List (Occurrence F) :=
  .noticed (.started ⟨phase, 0, w.start⟩) ::
    w.steps.reverse.zipIdx.flatMap fun (step, made) =>
      [.logged (.pivoted phase (made + 1) step.pivot),
        .noticed (.pivoted step.pivot ⟨phase, made + 1, step.tableau⟩)]

/-- The end of a phase that was not given up. -/
def Walk.finish (w : Walk F) (phase : Phase) : Occurrence F :=
  .noticed (.finished ⟨phase, w.pivotCount, w.tableau⟩)

/-- What comes up when a phase is given up. -/
def SolveError.record (options : Options F) : SolveError → List (Occurrence F)
  | pivotLimit phase _ => [.logged (.pivotLimit phase options.pivotLimit)]
  | _ => []

/-- Everything that comes up in a run, in order. -/
def Run.record [Scalar F] (run : Run F) (p : Problem F) (options : Options F) :
    List (Occurrence F) :=
  .logged (.solving p.constraintCount p.variableCount p.direction) ::
    match run with
    | abandoned one error => one.record .one ++ error.record options
    | infeasible one =>
      one.record .one ++ [one.finish .one, .logged (.infeasible one.pivotCount)]
    | entered one redundant two =>
      one.record .one ++ [one.finish .one] ++
      (if redundant.isEmpty then [] else [.logged (.redundant redundant)]) ++
      two.walk.record .two ++
      match two.outcome with
      | .error error => error.record options
      | .ok optimum =>
        let pivots := ⟨one.pivotCount, two.walk.pivotCount⟩
        [two.walk.finish .two, .logged (.solved (optimum.outcome p pivots).status pivots)]

end SimplexMethod
