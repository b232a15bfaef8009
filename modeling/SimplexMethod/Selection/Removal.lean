/-!
# Removing positions

Elements of a list are removed by their positions, which are given in strictly increasing order.
One pass goes through the elements and the positions side by side.
-/

namespace SimplexMethod

variable {α : Type}

/-- The removal of positions from a list whose first element stands at position `start`. Elements
before the first position that is left are kept; then one element is dropped for it. -/
def removeFrom (start : Nat) : List Nat → List α → List α
  | _, [] => []
  | [], elements => elements
  | position :: positions, element :: elements =>
    if start < position then element :: removeFrom (start + 1) (position :: positions) elements
    else removeFrom (start + 1) positions elements

/-- A list without the elements at the given positions. -/
def removePositions (positions : List Nat) (elements : List α) : List α :=
  removeFrom 0 positions elements

end SimplexMethod
