/-!
# Combinations

All ways to choose a number of elements from a list, each in the order of the list, listed in
lexicographic order of the positions chosen.
-/

namespace SimplexMethod

variable {α : Type}

/-- The choices of `count` elements: those with the first element come before those without it. -/
def combinations : Nat → List α → List (List α)
  | 0, _ => [[]]
  | _ + 1, [] => []
  | count + 1, element :: elements =>
    (combinations count elements).map (element :: ·) ++ combinations (count + 1) elements

theorem length_of_mem_combinations {count : Nat} {elements choice : List α}
    (mem : choice ∈ combinations count elements) : choice.length = count := by
  fun_induction combinations count elements generalizing choice with
  | case1 => simp_all
  | case2 => simp at mem
  | case3 count element elements with_first without_first =>
    rcases List.mem_append.1 mem with h | h
    · obtain ⟨tail, tail_mem, rfl⟩ := List.mem_map.1 h
      exact congrArg Nat.succ (with_first tail_mem)
    · exact without_first h

theorem sublist_of_mem_combinations {count : Nat} {elements choice : List α}
    (mem : choice ∈ combinations count elements) : choice.Sublist elements := by
  fun_induction combinations count elements generalizing choice with
  | case1 => simp_all
  | case2 => simp at mem
  | case3 count element elements with_first without_first =>
    rcases List.mem_append.1 mem with h | h
    · obtain ⟨tail, tail_mem, rfl⟩ := List.mem_map.1 h
      exact (with_first tail_mem).cons_cons element
    · exact (without_first h).cons element

end SimplexMethod
