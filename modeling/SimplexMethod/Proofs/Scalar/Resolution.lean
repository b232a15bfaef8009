import Mathlib.Algebra.Ring.Subring.Basic
import Mathlib.Tactic
import SimplexMethod.Proofs.Scalar.Exact

/-!
# Numbers that a tolerance resolves

A tolerance resolves a number when it does not take the number for zero by mistake: the number is
zero, or its magnitude is above the tolerance. All comparisons of a resolved number with the
tolerance come out as they do with zero in the place of the tolerance. A fraction is resolved when
the tolerance is small compared with its denominator (`Resolved.of_mul_mem`).
-/

set_option autoImplicit false

namespace SimplexMethod

/-- The rational numbers that are integers. -/
def integers : Subring ℚ := (Int.castRingHom ℚ).range

theorem mem_integers_iff {x : ℚ} : x ∈ integers ↔ x.den = 1 := by
  constructor
  · rintro ⟨k, rfl⟩
    rfl
  · intro hden
    exact ⟨x.num, Rat.coe_int_num_of_den_eq_one hden⟩

instance (x : ℚ) : Decidable (x ∈ integers) := decidable_of_iff _ mem_integers_iff.symm

theorem one_le_abs_of_mem_integers {x : ℚ} (hx : x ∈ integers) (hne : x ≠ 0) : 1 ≤ |x| := by
  obtain ⟨k, rfl⟩ := hx
  have hk : k ≠ 0 := by
    rintro rfl
    exact hne (map_zero _)
  rw [eq_intCast, ← Int.cast_abs]
  exact_mod_cast Int.one_le_abs hk

theorem intCast_mem_integers (k : ℤ) : (k : ℚ) ∈ integers := ⟨k, rfl⟩

theorem coeff_mem_integers {row : List ℚ} (h : ∀ a ∈ row, a ∈ integers) (j : ℕ) :
    coeff row j ∈ integers := by
  rcases lt_or_ge j row.length with hj | hj
  · exact h _ (coeff_mem hj)
  · rw [coeff_of_length_le hj]
    exact integers.zero_mem

namespace Scalar

/-- The number is zero, or its magnitude is above the tolerance. -/
def Resolved (tolerance x : ℚ) : Prop := x = 0 ∨ tolerance < |x|

namespace Resolved

variable {tolerance x : ℚ}

theorem negligible_iff (h : Resolved tolerance x) (htolerance : 0 ≤ tolerance) :
    Negligible tolerance x ↔ Negligible 0 x := by
  rw [negligible_zero_iff, Scalar.negligible_iff]
  constructor
  · intro hle
    exact h.resolve_right hle.not_gt
  · rintro rfl
    rwa [abs_zero]

theorem lt_abs_iff (h : Resolved tolerance x) (htolerance : 0 ≤ tolerance) :
    tolerance < |x| ↔ 0 < |x| := by
  constructor
  · exact htolerance.trans_lt
  · intro hpos
    exact h.resolve_left (abs_pos.1 hpos)

theorem lt_iff (h : Resolved tolerance x) (htolerance : 0 ≤ tolerance) :
    tolerance < x ↔ 0 < x := by
  constructor
  · exact htolerance.trans_lt
  · intro hpos
    rw [← abs_of_pos hpos]
    exact (h.lt_abs_iff htolerance).2 (abs_pos.2 hpos.ne')

theorem lt_neg_iff (h : Resolved tolerance x) (htolerance : 0 ≤ tolerance) :
    x < -tolerance ↔ x < -0 := by
  rw [neg_zero, ← neg_pos, lt_neg]
  refine lt_iff ?_ htolerance
  rwa [Resolved, neg_eq_zero, abs_neg]

/-- A fraction is resolved when the tolerance is less than one by the denominator. -/
theorem of_mul_mem {q : ℚ} (hq : q ≠ 0) (hmem : q * x ∈ integers)
    (hsmall : tolerance * |q| < 1) : Resolved tolerance x := by
  rcases eq_or_ne x 0 with rfl | hx
  · exact Or.inl rfl
  · refine Or.inr (lt_of_mul_lt_mul_right ?_ (abs_nonneg q))
    -- The numerator is an integer other than zero.
    have hone := one_le_abs_of_mem_integers hmem (mul_ne_zero hq hx)
    rw [abs_mul, mul_comm] at hone
    exact hsmall.trans_le hone

end Resolved

/-- The number has a denominator within the bound. -/
def Fraction (D x : ℚ) : Prop := ∃ q ∈ integers, q ≠ 0 ∧ |q| ≤ D ∧ q * x ∈ integers

namespace Fraction

variable {tolerance D x y : ℚ}

theorem resolved (h : Fraction D x) (htolerance : 0 ≤ tolerance) (hsmall : tolerance * D < 1) :
    Resolved tolerance x := by
  obtain ⟨q, -, hq, hle, hmem⟩ := h
  exact Resolved.of_mul_mem hq hmem
    ((mul_le_mul_of_nonneg_left hle htolerance).trans_lt hsmall)

/-- The product of two denominators is a denominator of the difference. -/
theorem sub (hx : Fraction D x) (hy : Fraction D y) : Fraction (D ^ 2) (x - y) := by
  obtain ⟨q, hint, hq, hle, hmem⟩ := hx
  obtain ⟨r, hint', hr, hle', hmem'⟩ := hy
  refine ⟨q * r, integers.mul_mem hint hint', mul_ne_zero hq hr, ?_, ?_⟩
  · rw [abs_mul, pow_two]
    exact mul_le_mul hle hle' (abs_nonneg r) ((abs_nonneg q).trans hle)
  · have hsplit : q * r * (x - y) = r * (q * x) - q * (r * y) := by ring
    rw [hsplit]
    exact integers.sub_mem (integers.mul_mem hint' hmem) (integers.mul_mem hint hmem')

end Fraction

end Scalar

end SimplexMethod
