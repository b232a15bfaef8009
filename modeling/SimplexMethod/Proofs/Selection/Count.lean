import Mathlib.Data.Nat.Choose.Basic
import Mathlib.Tactic
import SimplexMethod.Selection.Count

/-!
# What the count of combinations is

The number of combinations comes from a running product. After `k` factors the count is the binomial
coefficient `n.choose k`, and a word holds the last product exactly when it holds
`n.choose k * k` (`foldlM_chooseOneMore?`), because these numbers grow up to half of `n`. So the
count is exact when a word holds the product of the number of combinations and of the smaller number
of elements, those chosen or those left out, and it is the largest word otherwise
(`waysToChoose_eq`). It is never less than what a word can say of the true number, and below the
largest word it is that number.
-/

set_option autoImplicit false

namespace SimplexMethod

variable {available count chosen : ℕ}

/-- From a binomial coefficient, the next one, unless the product on the way is too large. -/
theorem chooseOneMore?_choose (available chosen : ℕ) :
    chooseOneMore? available (available.choose chosen) chosen =
      if available.choose (chosen + 1) * (chosen + 1) ≤ largestWord then
        some (available.choose (chosen + 1))
      else none := by
  rw [chooseOneMore?, ← Nat.choose_succ_right_eq, Nat.mul_div_cancel _ (Nat.succ_pos chosen)]

/-- The product for one more element is not smaller while at most half of them are chosen. -/
theorem choose_mul_le_succ (h : 2 * chosen ≤ available) :
    available.choose chosen * chosen ≤ available.choose (chosen + 1) * (chosen + 1) := by
  rw [Nat.choose_succ_right_eq]
  exact Nat.mul_le_mul_left _ (by omega)

/-- The running product up to half of the elements. The induction is on the factors: once a product
is too large for a word, so are the later ones. -/
theorem foldlM_chooseOneMore? (h : 2 * count ≤ available) :
    (List.range count).foldlM (chooseOneMore? available) 1 =
      if available.choose count * count ≤ largestWord then some (available.choose count)
      else none := by
  induction count with
  | zero => simp
  | succ count ih =>
    have hhalf : 2 * count ≤ available := by omega
    rw [List.range_succ, List.foldlM_append, ih hhalf]
    split
    · rw [Option.bind_eq_bind, Option.bind_some, List.foldlM_cons, chooseOneMore?_choose]
      split <;> rfl
    · next hlarge =>
      rw [if_neg fun hfits => hlarge ((choose_mul_le_succ hhalf).trans hfits)]
      rfl

/-- The count is the number of combinations when a word holds the last product, and the largest word
otherwise. -/
theorem waysToChoose_eq (available count : ℕ) :
    waysToChoose available count =
      if available.choose count * min count (available - count) ≤ largestWord then
        available.choose count
      else largestWord := by
  rw [waysToChoose]
  split
  · next hfew => rw [Nat.choose_eq_zero_of_lt hfew, Nat.zero_mul, if_pos (Nat.zero_le _)]
  · next henough =>
    rw [foldlM_chooseOneMore? (by omega)]
    -- Leaving out the others comes to the same.
    have hsymm : available.choose (min count (available - count)) = available.choose count := by
      rcases Nat.le_total count (available - count) with hle | hle
      · rw [Nat.min_eq_left hle]
      · rw [Nat.min_eq_right hle, Nat.choose_symm (Nat.le_of_not_lt henough)]
    rw [hsymm]
    split <;> rfl

/-- The count is not less than the number of combinations, as far as a word can say. -/
theorem min_choose_le_waysToChoose (available count : ℕ) :
    min (available.choose count) largestWord ≤ waysToChoose available count := by
  rw [waysToChoose_eq]
  split
  · exact Nat.min_le_left _ _
  · exact Nat.min_le_right _ _

/-- A count below the largest word is the number of combinations. -/
theorem waysToChoose_eq_choose (h : waysToChoose available count < largestWord) :
    waysToChoose available count = available.choose count := by
  rw [waysToChoose_eq] at h ⊢
  split
  · rfl
  · next hlarge => exact absurd h (by rw [if_neg hlarge]; exact lt_irrefl _)

/-- The running product is a binomial coefficient, so that the division for the next one leaves
nothing over. -/
theorem dvd_of_foldlM_chooseOneMore? {ways : ℕ} (h : chosen < min count (available - count))
    (hways : (List.range chosen).foldlM (chooseOneMore? available) 1 = some ways) :
    chosen + 1 ∣ ways * (available - chosen) := by
  rw [foldlM_chooseOneMore? (by omega)] at hways
  split at hways
  · obtain rfl := Option.some.inj hways
    exact Dvd.intro_left _ (Nat.choose_succ_right_eq available chosen)
  · cases hways

end SimplexMethod
