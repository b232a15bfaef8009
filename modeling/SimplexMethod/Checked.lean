/-!
# Checked access

An operation on lists that is handed a position may be handed one that does not exist. Such an
operation is `Checked`: it has a value only if every position that it read or wrote was there.
-/

namespace SimplexMethod

/-- A value, or `none` when a position that was read or written is out of range. -/
abbrev Checked (α : Type) : Type := Option α

/-- The list with another element at a position. -/
def write? {α : Type} (xs : List α) (i : Nat) (a : α) : Checked (List α) :=
  if i < xs.length then some (xs.set i a) else none

end SimplexMethod
