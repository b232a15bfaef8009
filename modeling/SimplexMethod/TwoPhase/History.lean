import SimplexMethod.TwoPhase.Listener

/-!
# Histories of bases

What two runs have to share for them to have gone the same way: the basis after every notice. A
history is small, since it leaves the tableaus out.
-/

namespace SimplexMethod

variable {F : Type}

/-- A notice without its tableau: the phase, the pivots made in it so far, the change of basis if
there was one, and the basis after it. -/
structure Event where
  phase : Phase
  step : Nat
  pivot : Option Pivot
  basis : List Nat
  deriving DecidableEq

/-- The event that a notice tells of. -/
def Notice.event (notice : Notice F) : Event :=
  ⟨notice.moment.phase, notice.moment.step, notice.pivot?, notice.moment.basis⟩

/-- The events so far, the first one first. -/
structure History where
  events : Array Event
  deriving DecidableEq

namespace History

/-- The history in which nothing has happened. -/
instance : EmptyCollection History := ⟨⟨#[]⟩⟩

/-- The history with one more event. -/
def push (history : History) (event : Event) : History := ⟨history.events.push event⟩

/-- The changes of basis in a phase, in order. -/
def pivots (history : History) (phase : Phase) : List Pivot :=
  (history.events.toList.filter (·.phase = phase)).filterMap Event.pivot

end History

/-- Adds the event of each notice to a history. -/
def Listener.history : Listener F History :=
  ⟨fun history notice => history.push notice.event, fun _ => []⟩

end SimplexMethod
