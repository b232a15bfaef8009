import Mathlib.Data.Fin.Tuple.Sort
import Mathlib.LinearAlgebra.Matrix.AbsoluteValue
import Mathlib.LinearAlgebra.Matrix.NonsingularInverse
import Mathlib.Tactic
import SimplexMethod.Proofs.RowMatrix.Independence
import SimplexMethod.Proofs.Scalar.Resolution

/-!
# Minors

What is said of the magnitudes of all square minors of a matrix, in which rows and columns stand in
order, holds of every choice of as many rows as columns, in any order and with repetitions
(`forall_abs_det`). By Cramer's rule, the solution of a square system of integers has the
determinant of its matrix as a denominator (`det_mul_mem_integers`).
-/

set_option autoImplicit false

namespace SimplexMethod

open Matrix

/-! ## Integer systems -/

section Integers

variable {n : ℕ} {A : Matrix (Fin n) (Fin n) ℚ}

theorem det_mem_integers (hA : ∀ i j, A i j ∈ integers) : A.det ∈ integers := by
  rw [det_apply]
  refine integers.sum_mem fun σ _ => ?_
  rw [Units.smul_def]
  exact integers.zsmul_mem (integers.prod_mem fun i _ => hA _ _) _

/-- By Cramer's rule, the determinant is a denominator of the solution. -/
theorem det_mul_mem_integers (hA : ∀ i j, A i j ∈ integers) {x : Fin n → ℚ}
    (hx : ∀ i, (A *ᵥ x) i ∈ integers) (i : Fin n) : A.det * x i ∈ integers := by
  have hcramer : A.det • x = A.adjugate *ᵥ (A *ᵥ x) := by
    rw [mulVec_mulVec, adjugate_mul, smul_mulVec, one_mulVec]
  have hentry := congrFun hcramer i
  rw [Pi.smul_apply, smul_eq_mul] at hentry
  rw [hentry, mulVec, dotProduct]
  refine integers.sum_mem fun j _ => integers.mul_mem ?_ (hx j)
  -- An entry of the adjugate is a determinant with a unit vector as one of its rows.
  rw [adjugate_apply]
  refine det_mem_integers fun k l => ?_
  rw [updateRow_apply]
  split
  · rw [Pi.single_apply]
    split
    · exact integers.one_mem
    · exact integers.zero_mem
  · exact hA k l

/-- Among vectors that span everything there are the rows of a regular matrix. -/
theorem exists_det_ne_zero {s : Set (Fin n → ℚ)} (h : Submodule.span ℚ s = ⊤) :
    ∃ f : Fin n → Fin n → ℚ, (∀ i, f i ∈ s) ∧ (Matrix.of f).det ≠ 0 := by
  obtain ⟨f, hmem, -, hindependent⟩ := Submodule.exists_fun_fin_finrank_span_eq ℚ s
  have hcount : Module.finrank ℚ (Submodule.span ℚ s) = n := by
    rw [h, finrank_top, Module.finrank_fin_fun]
  have hrows : LinearIndependent ℚ fun i => f (Fin.cast hcount.symm i) :=
    hindependent.comp _ (Fin.cast_injective _)
  refine ⟨fun i => f (Fin.cast hcount.symm i), fun i => hmem _, ?_⟩
  have hunit := linearIndependent_rows_iff_isUnit.1
    (show LinearIndependent ℚ (Matrix.of fun i => f (Fin.cast hcount.symm i)).row from hrows)
  exact isUnit_iff_ne_zero.1 ((isUnit_iff_isUnit_det _).1 hunit)

end Integers

/-! ## Choices of rows and columns -/

namespace RowMatrix

variable {m : RowMatrix ℚ} {k : ℕ}

/-- A square minor: the determinant of as many rows as columns, both in order. The minor without
rows is one. -/
def IsMinor (m : RowMatrix ℚ) (d : ℚ) : Prop :=
  ∃ (k : ℕ) (f : Fin k ↪o Fin m.rowCount) (g : Fin k ↪o Fin m.columns),
    d = (m.toMatrix.submatrix f g).det

theorem isMinor_one : m.IsMinor 1 :=
  ⟨0, Fin.castLEOrderEmb (Nat.zero_le _), Fin.castLEOrderEmb (Nat.zero_le _), det_fin_zero.symm⟩

/-- A bound of all entries bounds all minors. -/
theorem IsMinor.abs_le {d b : ℚ} (hd : m.IsMinor d) (hb : 1 ≤ b)
    (h : ∀ row ∈ m.rows, ∀ a ∈ row, |a| ≤ b) :
    |d| ≤ (min m.rowCount m.columns).factorial * b ^ min m.rowCount m.columns := by
  obtain ⟨k, f, g, rfl⟩ := hd
  have hk : k ≤ min m.rowCount m.columns :=
    le_min (by simpa using Fintype.card_le_of_embedding f.toEmbedding)
      (by simpa using Fintype.card_le_of_embedding g.toEmbedding)
  have hentry (i : Fin k) (j : Fin k) : AbsoluteValue.abs (m.toMatrix.submatrix f g i j) ≤ b := by
    show |coeff (m.rows.getD (f i) []) (g j)| ≤ b
    -- Where a row has ended, its coefficients are zero.
    rcases lt_or_ge (g j : ℕ) (m.rows.getD (f i) []).length with hlt | hge
    · exact h _ (List.mem_of_getElem? (rows_getElem?_eq (f i).2)) _ (coeff_mem hlt)
    · rw [coeff_of_length_le hge, abs_zero]
      exact zero_le_one.trans hb
  have hdet := Matrix.det_le hentry
  rw [Fintype.card_fin, nsmul_eq_mul] at hdet
  refine hdet.trans (mul_le_mul ?_ (pow_le_pow_right₀ hb hk) (by positivity) (by positivity))
  exact_mod_cast Nat.factorial_le hk

theorem strictMono_sort {n : ℕ} {f : Fin k → Fin n} (hf : Function.Injective f) :
    StrictMono (f ∘ Tuple.sort f) :=
  (Tuple.monotone_sort f).strictMono_of_injective (hf.comp (Tuple.sort f).injective)

/-- The magnitude of a minor does not depend on the order of its rows and columns, and with
repetitions it is zero. -/
theorem forall_abs_det {P : ℚ → Prop} (hzero : P 0) (hminor : ∀ d, m.IsMinor d → P |d|)
    (f : Fin k → Fin m.rowCount) (g : Fin k → Fin m.columns) :
    P |(m.toMatrix.submatrix f g).det| := by
  by_cases hf : Function.Injective f
  · by_cases hg : Function.Injective g
    · -- Sorting rows and columns changes the sign at most.
      have hsorted := abs_det_submatrix_equiv_equiv (Tuple.sort f) (Tuple.sort g)
        (m.toMatrix.submatrix f g)
      rw [← hsorted]
      exact hminor _ ⟨k, OrderEmbedding.ofStrictMono _ (strictMono_sort hf),
        OrderEmbedding.ofStrictMono _ (strictMono_sort hg), rfl⟩
    · obtain ⟨i, j, heq, hne⟩ := Function.not_injective_iff.1 hg
      rwa [det_zero_of_column_eq hne fun l => by rw [submatrix_apply, submatrix_apply, heq],
        abs_zero]
  · obtain ⟨i, j, heq, hne⟩ := Function.not_injective_iff.1 hf
    rwa [det_zero_of_row_eq hne (funext fun l => by rw [submatrix_apply, submatrix_apply, heq]),
      abs_zero]

/-- A system of integers has integers in all its rows. -/
theorem coeff_augmented_mem_integers {rhs : List ℚ}
    (hrows : ∀ row ∈ m.rows, ∀ a ∈ row, a ∈ integers)
    (hrhs : ∀ b ∈ rhs, b ∈ integers) : ∀ row ∈ m.augmented rhs, ∀ j, coeff row j ∈ integers := by
  refine forall_mem_augmented.2 fun i row value hrow hvalue => coeff_mem_integers ?_
  intro a ha
  rcases List.mem_append.1 ha with ha | ha
  · exact hrows row (List.mem_of_getElem? hrow) a ha
  · rw [List.mem_singleton.1 ha]
    exact hrhs value (List.mem_of_getElem? hvalue)

/-- The row has the coefficients of a row of the matrix, with anything after them. -/
def Extends (m : RowMatrix ℚ) (row : List ℚ) : Prop :=
  ∃ i < m.rowCount, ∀ j < m.columns, coeff row j = m.entry i j

theorem Rectangular.extends_of_mem_augmented (h : m.Rectangular) {rhs row : List ℚ}
    (hrow : row ∈ m.augmented rhs) : m.Extends row := by
  refine forall_mem_augmented.2 (fun i coefficients value hget _ => ?_) row hrow
  obtain ⟨hi, rfl⟩ := List.getElem?_eq_some_iff.1 hget
  refine ⟨i, hi, fun j hj => ?_⟩
  rw [coeff_append_left _ ((h _ (List.getElem_mem hi)).symm ▸ hj), entry_eq_of_getElem? hget]

/-- The matrix of the coefficients of some rows in some columns. -/
def block (f : Fin k → List ℚ) (g : Fin k → ℕ) : Matrix (Fin k) (Fin k) ℚ :=
  Matrix.of fun i j => coeff (f i) (g j)

theorem forall_abs_det_block {P : ℚ → Prop} (hzero : P 0) (hminor : ∀ d, m.IsMinor d → P |d|)
    {f : Fin k → List ℚ} {g : Fin k → ℕ} (hf : ∀ i, m.Extends (f i))
    (hg : ∀ j, g j < m.columns) : P |(block f g).det| := by
  choose rows hrows hcoeff using hf
  have hblock : block f g = m.toMatrix.submatrix (fun i => ⟨rows i, hrows i⟩)
      (fun j => ⟨g j, hg j⟩) := by
    ext i j
    exact hcoeff i (g j) (hg j)
  rw [hblock]
  exact forall_abs_det hzero hminor _ _

end RowMatrix

end SimplexMethod
