import SimplexMethod.Scalar.Basic

/-!
# Choosing from a list

Every choice of the method is made by one pass from the left: an element is kept, and each
newcomer either takes its place or is passed over. `survivor?` is that pass. With a strict
comparison the first of equal elements survives (`firstLeast?`), with its converse the last one
(`lastGreatest?`). The comparison need not be an order: keys that do not compare, such as NaNs,
count as equal.
-/

namespace SimplexMethod

variable {α F : Type}

/-- The element left after a pass in which a newcomer replaces the kept element when it beats it;
`none` for the empty list. The first argument of `beats` is the newcomer. -/
def survivor? (beats : α → α → Prop) [∀ x y, Decidable (beats x y)] : List α → Option α
  | [] => none
  | first :: rest => some (rest.foldl (fun kept next => if beats next kept then next else kept) first)

section Survivor

variable {beats : α → α → Prop} [∀ x y, Decidable (beats x y)]

theorem survivor?_eq_none_iff {xs : List α} : survivor? beats xs = none ↔ xs = [] := by
  cases xs with
  | nil => simp [survivor?]
  | cons first rest => simp [survivor?]

theorem foldl_keep_mem (first : α) (rest : List α) :
    rest.foldl (fun kept next => if beats next kept then next else kept) first ∈ first :: rest := by
  induction rest generalizing first with
  | nil => simp
  | cons next rest ih =>
    rw [List.foldl_cons]
    split
    · exact List.mem_cons_of_mem _ (ih next)
    · rcases List.mem_cons.1 (ih first) with h | h
      · exact List.mem_cons.2 (.inl h)
      · exact List.mem_cons_of_mem _ (List.mem_cons_of_mem _ h)

theorem mem_of_survivor? {x : α} {xs : List α} (survives : survivor? beats xs = some x) :
    x ∈ xs := by
  cases xs with
  | nil => exact absurd survives (by simp [survivor?])
  | cons first rest => exact Option.some.inj survives ▸ foldl_keep_mem first rest

end Survivor

variable [Scalar F]

/-- The first element whose key is least. -/
def firstLeast? (key : α → F) (xs : List α) : Option α :=
  survivor? (fun next kept => key next < key kept) xs

/-- The last element whose key is greatest. -/
def lastGreatest? (key : α → F) (xs : List α) : Option α :=
  survivor? (fun next kept => ¬ key next < key kept) xs

/-- A pass for the least key in which keys that differ by a negligible amount count as equal, so
that the earlier element stays. -/
def tolerantLeast? (tolerance : F) (key : α → F) (xs : List α) : Option α :=
  survivor? (fun next kept =>
    ¬ Scalar.Negligible tolerance (key kept - key next) ∧ key next < key kept) xs

end SimplexMethod
