import Mathlib.Tactic
import SimplexMethod.Proofs.RowMatrix.Minors
import SimplexMethod.Proofs.Tableau.Artificial

/-!
# Integer programs

When the data of a program are integers, so are the equations and the costs of the program
(`Integral.coeff_constraint`) and of its artificial problem (`Integral.coeff_artificialRows`). What
is said of the magnitudes of all square minors of the constraints holds of all determinants of
the artificial problem as well (`forall_abs_det_artificial`): an artificial column has a single
one, and the change of signs does not matter.
-/

set_option autoImplicit false

namespace SimplexMethod

open Matrix

namespace Problem

variable {p : Problem ℚ}

/-- All data of the program are integers. -/
structure Integral (p : Problem ℚ) : Prop where
  constraints : ∀ row ∈ p.constraints.rows, ∀ a ∈ row, a ∈ integers
  values : ∀ b ∈ p.values, b ∈ integers
  cost : ∀ c ∈ p.cost, c ∈ integers

theorem signFor_mem_integers (b : ℚ) : signFor b ∈ integers := by
  unfold signFor
  split
  · exact integers.neg_mem integers.one_mem
  · exact integers.one_mem

theorem abs_signFor (b : ℚ) : |signFor b| = 1 := by
  unfold signFor
  split <;> norm_num

namespace Integral

theorem minimizationCost (h : p.Integral) : ∀ c ∈ p.minimizationCost, c ∈ integers := by
  have hcost := h.cost
  unfold Problem.cost orient at hcost
  intro c hc
  split at hcost
  · exact hcost c hc
  · rw [← neg_neg c]
    exact integers.neg_mem (hcost _ (List.mem_map_of_mem hc))

/-- The constraints with their values at the end are integers. -/
theorem coeff_constraint (h : p.Integral) :
    ∀ row ∈ p.constraints.augmented p.values, ∀ j, coeff row j ∈ integers :=
  RowMatrix.coeff_augmented_mem_integers h.constraints h.values

/-- The constraints and a row of ones are integers. -/
theorem directions (h : p.Integral) :
    ∀ row ∈ (p.constraints.pushRow (List.replicate p.variableCount 1)).rows,
      ∀ a ∈ row, a ∈ integers := by
  intro row hrow a ha
  rcases List.mem_append.1 hrow with hrow | hrow
  · exact h.constraints row hrow a ha
  · rw [List.mem_singleton.1 hrow] at ha
    rw [List.eq_of_mem_replicate ha]
    exact integers.one_mem

/-- The rows of the artificial problem are integers. -/
theorem coeff_artificialRows (h : p.Integral) :
    ∀ row ∈ p.artificialRows, ∀ j, coeff row j ∈ integers := by
  intro row hrow
  obtain ⟨i, hi⟩ := List.mem_iff_getElem?.1 hrow
  have hlt : i < p.constraintCount :=
    length_artificialRows (p := p) ▸ (List.getElem?_eq_some_iff.1 hi).1
  rw [artificialRows_getElem? hlt, Option.some.injEq] at hi
  subst hi
  -- A row consists of a constraint, a unit vector and a value.
  refine coeff_mem_integers fun a ha => ?_
  rw [artificialRow] at ha
  rcases List.mem_append.1 ha with ha | ha
  · rcases List.mem_append.1 ha with ha | ha
    · obtain ⟨b, hb, rfl⟩ := List.mem_map.1 ha
      refine integers.mul_mem (signFor_mem_integers _) (h.constraints _ ?_ b hb)
      exact List.mem_of_getElem? (RowMatrix.rows_getElem?_eq hlt)
    · obtain ⟨k, -, rfl⟩ := List.mem_map.1 ha
      split
      · exact integers.one_mem
      · exact integers.zero_mem
  · rw [List.mem_singleton.1 ha]
    exact integers.mul_mem (signFor_mem_integers _) (coeff_mem_integers h.values i)

theorem artificialCost (_ : p.Integral) (j : ℕ) : p.artificialCost j ∈ integers := by
  rw [Problem.artificialCost]
  split
  · exact intCast_mem_integers 2
  · exact integers.zero_mem

end Integral

/-! ## Determinants of the artificial problem -/

section Determinants

variable {k : ℕ}

/-- The entries of the artificial problem in some rows and columns. -/
def artificialBlock (p : Problem ℚ) (f : Fin k → Fin p.constraintCount) (g : Fin k → ℕ) :
    Matrix (Fin k) (Fin k) ℚ :=
  Matrix.of fun i j => p.artificialTableau.entry (f i) (g j)

/-- In structural columns, the determinants are those of the constraints up to their signs. -/
theorem abs_det_artificialBlock_of_structural (f : Fin k → Fin p.constraintCount)
    {g : Fin k → ℕ} (hg : ∀ j, g j < p.variableCount) :
    |(p.artificialBlock f g).det| =
      |(p.constraints.toMatrix.submatrix f fun j => ⟨g j, hg j⟩).det| := by
  have hsigned : p.artificialBlock f g = Matrix.of fun i j => signFor (coeff p.values (f i)) *
      p.constraints.toMatrix.submatrix f (fun j => ⟨g j, hg j⟩) i j := by
    ext i j
    exact artificialTableau_entry_structural (f i).2 (hg j)
  rw [hsigned, det_mul_column, abs_mul, Finset.abs_prod]
  simp only [abs_signFor, Finset.prod_const_one, one_mul]

/-- An artificial column can be left out together with the row in which it has its one. -/
theorem abs_det_artificialBlock_of_artificial {f : Fin (k + 1) → Fin p.constraintCount}
    {g : Fin (k + 1) → ℕ} (hf : Function.Injective f) {i j : Fin (k + 1)}
    (hj : g j = p.variableCount + f i) :
    |(p.artificialBlock f g).det| =
      |(p.artificialBlock (f ∘ i.succAbove) (g ∘ j.succAbove)).det| := by
  have hcolumn (l : Fin (k + 1)) : p.artificialBlock f g l j = if f i = f l then 1 else 0 := by
    rw [artificialBlock, Matrix.of_apply, hj, artificialTableau_entry_artificial (f l).2 (f i).2]
    simp only [Fin.ext_iff]
  rw [det_succ_column _ j, Finset.sum_eq_single_of_mem i (Finset.mem_univ i), hcolumn, if_pos rfl,
    mul_one, abs_mul, abs_pow, abs_neg, abs_one, one_pow, one_mul]
  · rfl
  · intro l _ hne
    rw [hcolumn, if_neg fun heq => hne (hf heq).symm, mul_zero, zero_mul]

/-- What is said of the magnitudes of the minors of the constraints holds of the determinants of the
artificial problem. The induction leaves out one artificial column after the other. -/
theorem forall_abs_det_artificial {P : ℚ → Prop} (hzero : P 0)
    (hminor : ∀ d, p.constraints.IsMinor d → P |d|) (f : Fin k → Fin p.constraintCount)
    {g : Fin k → ℕ} (hg : ∀ j, g j < p.variableCount + p.constraintCount) :
    P |(p.artificialBlock f g).det| := by
  induction k with
  | zero =>
    rw [abs_det_artificialBlock_of_structural f (g := g) fun j => j.elim0]
    exact RowMatrix.forall_abs_det hzero hminor _ _
  | succ k ih =>
    by_cases hstructural : ∀ j, g j < p.variableCount
    · rw [abs_det_artificialBlock_of_structural f hstructural]
      exact RowMatrix.forall_abs_det hzero hminor _ _
    push Not at hstructural
    obtain ⟨j, hj⟩ := hstructural
    -- Some column is artificial; the constraint to which it belongs decides.
    obtain ⟨l, hl⟩ := Nat.exists_eq_add_of_le hj
    have hlt : l < p.constraintCount := by
      have := hg j
      omega
    by_cases hf : Function.Injective f
    · by_cases hone : ∃ i, (f i : ℕ) = l
      · obtain ⟨i, rfl⟩ := hone
        rw [abs_det_artificialBlock_of_artificial hf hl]
        exact ih _ fun b => hg _
      · -- The one of the column is in none of the rows.
        rw [det_eq_zero_of_column_eq_zero j fun i => ?_, abs_zero]
        · exact hzero
        · rw [artificialBlock, Matrix.of_apply, hl, artificialTableau_entry_artificial (f i).2 hlt,
            if_neg fun heq => hone ⟨i, heq.symm⟩]
    · obtain ⟨a, b, heq, hne⟩ := Function.not_injective_iff.1 hf
      have hsame : p.artificialBlock f g a = p.artificialBlock f g b := by
        funext j
        rw [artificialBlock, Matrix.of_apply, Matrix.of_apply, heq]
      rwa [det_zero_of_row_eq hne hsame, abs_zero]

end Determinants

end Problem

end SimplexMethod
