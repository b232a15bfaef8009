import SimplexMethod.TwoPhase.Run

/-!
# Listeners

A listener hears the notices of a run one after the other. It can change a state of its own and
write to the log, and in no way change the run. The listeners here do nothing, write every notice to
the log, or keep the notices; any listener can be made to work on a part of a larger state.
-/

namespace SimplexMethod

variable {F σ τ : Type}

/-- What is done with each notice: the state after it, and the log entries about it. -/
structure Listener (F σ : Type) where
  hear : σ → Notice F → σ
  remarks : Notice F → List (Entry F)

namespace Listener

/-- The state after the notices of a run. -/
def listen (listener : Listener F σ) (state : σ) (notices : List (Notice F)) : σ :=
  notices.foldl listener.hear state

/-- The log of a run: its own entries, with the listener's remarks where notices come up. -/
def log (listener : Listener F σ) (record : List (Occurrence F)) : List (Entry F) :=
  record.flatMap fun
    | .logged entry => [entry]
    | .noticed notice => listener.remarks notice

/-- Does nothing. -/
def silent : Listener F Unit := ⟨fun _ _ => (), fun _ => []⟩

/-- Writes every notice to the log. -/
def logger : Listener F Unit := ⟨fun _ _ => (), fun notice => [.heard notice]⟩

/-- Keeps all notices, the first one first. -/
def recorder : Listener F (Array (Notice F)) := ⟨Array.push, fun _ => []⟩

/-- The listener at work on a part of a larger state. -/
def onPart (listener : Listener F σ) (part : τ → σ) (replace : σ → τ → τ) : Listener F τ :=
  ⟨fun state notice => replace (listener.hear (part state) notice) state, listener.remarks⟩

end Listener

end SimplexMethod
