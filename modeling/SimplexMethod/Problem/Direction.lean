import SimplexMethod.Text.Blank

/-!
# Directions of optimization

A linear program is minimized or maximized. A direction is read from its short or its long name;
the case of ASCII letters and white space around the name do not matter.
-/

namespace SimplexMethod

/-- Whether the objective is to be small or large. -/
inductive Direction where
  | minimize
  | maximize
  deriving DecidableEq

namespace Direction

/-- Programs are minimized unless something else is said. -/
instance : Inhabited Direction := ⟨minimize⟩

/-- The other direction. -/
def opposite : Direction → Direction
  | minimize => maximize
  | maximize => minimize

/-- The short name. -/
def name : Direction → String
  | minimize => "min"
  | maximize => "max"

/-- The names that can be read. -/
def names : Direction → List String
  | minimize => ["min", "minimize"]
  | maximize => ["max", "maximize"]

/-- The direction that a text names. -/
def ofText? (text : String) : Option Direction :=
  let name := String.ofList ((Text.trim text.toList).map Char.toLower)
  if name ∈ names minimize then some minimize
  else if name ∈ names maximize then some maximize
  else none

end Direction

end SimplexMethod
