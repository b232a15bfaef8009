import Mathlib.Algebra.Order.BigOperators.Group.List
import Mathlib.Tactic
import SimplexMethod.Proofs.Enumeration.Extreme

/-!
# Normalized directions

The directions in which the solutions of a system do not end form a cone, which has no vertex but
zero. The directions whose entries add up to one are the solutions of a system of their own
(`feasible_directions_iff`), and when a cost is negative on any direction, it is negative on a
normalized one (`Recedes.exists_normalized`). The solutions of that system do not go on
without end in a direction that lowers the cost (`dot_eq_zero_of_recedes_directions`), so the least
cost of a normalized direction is that of a vertex (`Lists.dot_nonneg_of_recedes`).
-/

set_option autoImplicit false

namespace SimplexMethod

namespace System

variable {s t : System ℚ} {d e : List ℚ} {cost : List ℚ}

/-! ## The system of normalized directions -/

theorem columns_directions {F : Type} [Scalar F] {s : System F} :
    s.directions.matrix.columns = s.matrix.columns := by
  rw [directions, RowMatrix.pushRow]
  split
  · exact List.length_replicate
  · rfl

theorem WellFormed.directions {F : Type} [Scalar F] {s : System F} (h : s.WellFormed) :
    s.directions.WellFormed where
  rectangular := by
    intro row hrow
    rw [columns_directions]
    rcases List.mem_append.1 hrow with hrow | hrow
    · exact h.rectangular row hrow
    · rw [List.mem_singleton.1 hrow, List.length_replicate]
  rhs_length := by
    simp [System.directions, RowMatrix.pushRow, RowMatrix.rowCount]

theorem dot_replicate_one {n : ℕ} (hd : d.length = n) :
    Scalar.dot (List.replicate n 1) d = d.sum := by
  subst hd
  rw [Scalar.dot, Scalar.sum_eq]
  congr 1
  induction d with
  | nil => rfl
  | cons a d ih => rw [List.length_cons, List.replicate_succ, List.zipWith_cons_cons, one_mul, ih]

/-- The solutions of the system of directions are the directions whose entries add up to one. -/
theorem feasible_directions_iff : s.directions.Feasible d ↔ s.Recedes d ∧ d.sum = 1 := by
  have hmul (hd : d.length = s.matrix.columns) :
      s.directions.matrix.mulVector d = s.directions.rhs ↔
        (∀ row ∈ s.matrix.rows, Scalar.dot row d = 0) ∧ d.sum = 1 := by
    have hzeros : s.matrix.rows.map (Scalar.dot · d) = List.replicate s.matrix.rowCount 0 ↔
        ∀ row ∈ s.matrix.rows, Scalar.dot row d = 0 := by
      simp [List.eq_replicate_iff, RowMatrix.rowCount]
    show (s.matrix.rows ++ [List.replicate s.matrix.columns 1]).map (Scalar.dot · d) =
      List.replicate s.matrix.rowCount 0 ++ [1] ↔ _
    rw [List.map_append, List.map_singleton, dot_replicate_one hd, ← hzeros]
    constructor
    · intro heq
      obtain ⟨hfirst, hlast⟩ := List.append_inj' heq rfl
      exact ⟨hfirst, List.singleton_inj.1 hlast⟩
    · rintro ⟨hfirst, hlast⟩
      rw [hfirst, hlast]
  constructor
  · rintro ⟨hlen, hnonneg, heq⟩
    have hlen' := hlen.trans (columns_directions)
    obtain ⟨hrows, hsum⟩ := (hmul hlen').1 heq
    exact ⟨⟨hlen', hnonneg, hrows⟩, hsum⟩
  · rintro ⟨⟨hlen, hnonneg, hrows⟩, hsum⟩
    exact ⟨hlen.trans (columns_directions).symm, hnonneg, (hmul hlen).2 ⟨hrows, hsum⟩⟩

/-! ## Normalizing -/

theorem Recedes.sum_nonneg (hd : s.Recedes d) : 0 ≤ d.sum :=
  List.sum_nonneg (coeff_nonneg_iff.1 hd.nonneg)

/-- A direction whose entries add up to zero costs nothing. -/
theorem Recedes.dot_eq_zero_of_sum (hd : s.Recedes d) (hsum : d.sum = 0) (row : List ℚ) :
    Scalar.dot row d = 0 := by
  rw [dot_eq_sum (n := d.length) (by omega)]
  apply Finset.sum_eq_zero
  intro j hj
  have hzero := List.all_zero_of_le_zero_le_of_sum_eq_zero (coeff_nonneg_iff.1 hd.nonneg) hsum
    (coeff_mem (Finset.mem_range.1 hj))
  rw [hzero, mul_zero]

/-- A direction of negative cost can be scaled to a normalized one of negative cost. -/
theorem Recedes.exists_normalized (hd : s.Recedes d) (hlow : Scalar.dot cost d < 0) :
    ∃ e, s.directions.Feasible e ∧ Scalar.dot cost e < 0 := by
  have hpos : 0 < d.sum := by
    apply lt_of_le_of_ne hd.sum_nonneg
    intro hsum
    exact hlow.ne (hd.dot_eq_zero_of_sum hsum.symm cost)
  have hinv := inv_pos.2 hpos
  have hlen := (length_scaled d.sum⁻¹ d).trans hd.length_eq
  refine ⟨scaled d.sum⁻¹ d,
    feasible_directions_iff.2 ⟨⟨hlen, fun j => ?_, fun row hrow => ?_⟩, ?_⟩, ?_⟩
  · rw [coeff_scaled]
    exact mul_nonneg hinv.le (hd.nonneg j)
  · rw [dot_scaled, hd.dot_eq_zero row hrow, mul_zero]
  · rw [← dot_replicate_one hlen, dot_scaled, dot_replicate_one hd.length_eq,
      inv_mul_cancel₀ hpos.ne']
  · rw [dot_scaled]
    exact mul_neg_of_pos_of_neg hinv hlow

/-- Nothing is gained in a direction in which normalized directions can move. -/
theorem dot_eq_zero_of_recedes_directions (he : s.directions.Recedes e) (row : List ℚ) :
    Scalar.dot row e = 0 := by
  refine he.dot_eq_zero_of_sum ?_ row
  rw [← dot_replicate_one (he.length_eq.trans columns_directions)]
  exact he.dot_eq_zero _ (List.mem_append_right _ List.mem_cons_self)

/-- When no normalized direction at a vertex lowers the cost, no direction does. -/
theorem Lists.dot_nonneg_of_recedes {vertices : List (Vertex ℚ)} (h : t.Lists vertices)
    (hequivalent : s.directions.Equivalent t)
    (hall : ∀ v ∈ vertices, 0 ≤ Scalar.dot cost v.values) (hd : s.Recedes d) :
    0 ≤ Scalar.dot cost d := by
  by_contra hlow
  -- A direction of negative cost would give a vertex of negative cost.
  obtain ⟨e, he, hlow'⟩ := hd.exists_normalized (not_le.1 hlow)
  obtain ⟨v, hv, hle⟩ := h.exists_le (hequivalent.feasible he) fun d' hd' =>
    (dot_eq_zero_of_recedes_directions (hequivalent.symm.recedes hd') cost).ge
  exact (hall v hv).not_gt (hle.trans_lt hlow')

end System

end SimplexMethod
