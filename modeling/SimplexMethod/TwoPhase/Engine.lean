import SimplexMethod.Log.Answer
import SimplexMethod.TwoPhase.History

/-!
# Engines

An engine solves one program after the other with the same options, pivot rule and listener. From
one program to the next it keeps nothing but the state of its listener.
-/

namespace SimplexMethod

variable {F σ τ : Type}

/-- The two-phase method with its settings, a listener, and the listener's state. -/
structure Engine (F σ : Type) where
  options : Options F
  rule : PivotRule
  listener : Listener F σ
  state : σ

namespace Engine

/-- The engine with standard options and the first profitable column, to which nobody listens. -/
def standard [Scalar F] : Engine F Unit := ⟨default, .first, .silent, ()⟩

/-- The engine with another listener. -/
def withListener (engine : Engine F σ) (listener : Listener F τ) (state : τ) : Engine F τ :=
  { engine with listener, state }

/-- Solves a program, and gives the engine to go on with. -/
def solve? [Scalar F] (engine : Engine F σ) (p : Problem F) :
    Checked (Answer F × Engine F σ) := do
  let run ← p.run? engine.options engine.rule
  let record := run.record p engine.options
  return (⟨run.result p, engine.listener.log record⟩,
    { engine with state := engine.listener.listen engine.state (notices record) })

/-- Solves programs in turn. -/
def solveAll? [Scalar F] (engine : Engine F σ) :
    List (Problem F) → Checked (List (Answer F) × Engine F σ)
  | [] => some ([], engine)
  | p :: rest => do
    let (answer, engine) ← engine.solve? p
    let (answers, engine) ← engine.solveAll? rest
    return (answer :: answers, engine)

end Engine

/-- Solves a program with the standard engine. -/
def Problem.solve? [Scalar F] (p : Problem F) : Checked (Answer F) := do
  return (← Engine.standard.solve? p).1

end SimplexMethod
