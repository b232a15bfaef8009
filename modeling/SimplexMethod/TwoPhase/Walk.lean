import SimplexMethod.Tableau.Basic

/-!
# Walks from basis to basis

A phase of the method walks from one basis to the next by pivots. A `Walk` keeps the tableau it
started from and, for each pivot, the tableau after it, so that everything which happened on the way
can be read off it.
-/

namespace SimplexMethod

variable {F : Type}

/-- A change of basis: the column that enters, the column that leaves, and the constraint row in
which one takes the place of the other. -/
structure Pivot where
  entering : Nat
  leaving : Nat
  row : Nat
  deriving DecidableEq

/-- A pivot and the tableau after it. -/
structure Step (F : Type) where
  pivot : Pivot
  tableau : Tableau F
  deriving DecidableEq

/-- A tableau and the steps made from it, the latest first. -/
structure Walk (F : Type) where
  start : Tableau F
  steps : List (Step F)
  deriving DecidableEq

namespace Walk

/-- The walk without steps. -/
def startingAt (t : Tableau F) : Walk F := ⟨t, []⟩

/-- The tableau that the walk has reached. -/
def tableau (w : Walk F) : Tableau F :=
  match w.steps with
  | [] => w.start
  | latest :: _ => latest.tableau

/-- The number of pivots made. -/
def pivotCount (w : Walk F) : Nat := w.steps.length

/-- The walk with one more pivot. -/
def pivot? [Scalar F] (w : Walk F) (entering row : Nat) : Checked (Walk F) := do
  let (leaving, tableau) ← w.tableau.bringIn? entering row
  return { w with steps := ⟨⟨entering, leaving, row⟩, tableau⟩ :: w.steps }

end Walk

end SimplexMethod
