import Mathlib.Data.Nat.Choose.Basic
import Mathlib.Tactic
import SimplexMethod.Selection.Combinations

/-!
# All combinations

The combinations of a number of elements are all sublists of that length (`mem_combinations_iff`),
and there are as many of them as the binomial coefficient says (`length_combinations`).
-/

set_option autoImplicit false

namespace SimplexMethod

variable {α : Type}

theorem mem_combinations_of_sublist {choice elements : List α} (h : choice.Sublist elements) :
    choice ∈ combinations choice.length elements := by
  induction h with
  | slnil => exact List.mem_singleton_self _
  | @cons choice elements element h ih =>
    cases choice with
    | nil => exact List.mem_singleton_self _
    | cons first rest => exact List.mem_append_right _ ih
  | cons_cons element h ih => exact List.mem_append_left _ (List.mem_map_of_mem ih)

theorem mem_combinations_iff {count : Nat} {choice elements : List α} :
    choice ∈ combinations count elements ↔ choice.Sublist elements ∧ choice.length = count := by
  constructor
  · intro hmem
    exact ⟨sublist_of_mem_combinations hmem, length_of_mem_combinations hmem⟩
  · rintro ⟨hsub, rfl⟩
    exact mem_combinations_of_sublist hsub

theorem length_combinations (count : Nat) (elements : List α) :
    (combinations count elements).length = elements.length.choose count := by
  fun_induction combinations count elements with
  | case1 elements => exact (Nat.choose_zero_right _).symm
  | case2 count => rfl
  | case3 count element elements with_first without_first =>
    rw [List.length_append, List.length_map, with_first, without_first, List.length_cons,
      Nat.choose_succ_succ]

end SimplexMethod
