import Mathlib.Tactic
import SimplexMethod.Proofs.RowMatrix.Span
import SimplexMethod.Proofs.Tableau.WellFormed

/-!
# What an exact tableau states

A tableau states a linear program with respect to a basis: its constraint rows span the equations
of the program, its cost row differs from the cost by a combination of these equations, and its
basic columns form an identity matrix. `States` is this relation, and it is the invariant that
carries both phases of the method: bringing in a structural column at a nonzero entry, whatever
its sign, keeps it (`States.bringIn`).

Since the equations are kept as a span, the relation says nothing of how the basis was reached, and
it holds for redundant rows as for others. Basic artificial variables have a relative cost of one,
all other basic variables of zero.
-/

set_option autoImplicit false

namespace SimplexMethod

namespace Tableau

variable {t : Tableau ℚ} {i j k entering row : Nat}

/-! ## Equations -/

/-- The combinations of the constraint rows. -/
def equations (t : Tableau ℚ) : Submodule ℚ (ℕ → ℚ) := rowSpan t.matrix.rows.tail

namespace WellFormed

theorem entry_mem_equations (h : t.WellFormed) (hi : i < t.rowCount) :
    t.entry i ∈ t.equations :=
  coeff_mem_rowSpan (List.mem_of_getElem? (h.tail_getElem? hi))

theorem equations_le_iff (h : t.WellFormed) {W : Submodule ℚ (ℕ → ℚ)} :
    t.equations ≤ W ↔ ∀ i < t.rowCount, t.entry i ∈ W := by
  rw [equations, rowSpan_le_iff]
  constructor
  · intro hall i hi
    exact hall _ (List.mem_of_getElem? (h.tail_getElem? hi))
  · intro hall row hrow
    obtain ⟨i, hi, rfl⟩ := List.getElem_of_mem hrow
    have hlt : i < t.rowCount := h.length_tail ▸ hi
    have hget := h.tail_getElem? hlt
    rw [List.getElem?_eq_getElem hi, Option.some.injEq] at hget
    rw [hget]
    exact hall i hlt

end WellFormed

/-! ## Entries after a pivot -/

namespace Aligned

theorem entry_bringIn_self (h : t.Aligned) (hrow : row < t.rowCount) :
    (t.bringIn entering row).entry row j = t.entry row j / t.entry row entering :=
  RowMatrix.entry_pivot_self (by have := h.rowCount_eq; omega)

theorem entry_bringIn_of_ne (h : t.Aligned) (hrow : row < t.rowCount) (hi : i ≠ row) :
    (t.bringIn entering row).entry i j =
      t.entry i j - t.entry i entering * (t.entry row j / t.entry row entering) :=
  h.rectangular.entry_pivot_of_ne (by have := h.rowCount_eq; omega) (by omega)

theorem value_bringIn_self (h : t.Aligned) (hrow : row < t.rowCount) :
    (t.bringIn entering row).value row = t.value row / t.entry row entering :=
  h.entry_bringIn_self hrow

theorem value_bringIn_of_ne (h : t.Aligned) (hrow : row < t.rowCount) (hi : i ≠ row) :
    (t.bringIn entering row).value i =
      t.value i - t.entry i entering * (t.value row / t.entry row entering) :=
  h.entry_bringIn_of_ne hrow hi

end Aligned

namespace WellFormed

theorem entry_bringIn_self (h : t.WellFormed) (hrow : row < t.rowCount) :
    (t.bringIn entering row).entry row j = t.entry row j / t.entry row entering :=
  h.aligned.entry_bringIn_self hrow

theorem entry_bringIn_of_ne (h : t.WellFormed) (hrow : row < t.rowCount) (hi : i ≠ row) :
    (t.bringIn entering row).entry i j =
      t.entry i j - t.entry i entering * (t.entry row j / t.entry row entering) :=
  h.aligned.entry_bringIn_of_ne hrow hi

theorem relativeCost_bringIn (h : t.WellFormed) (hrow : row < t.rowCount) :
    (t.bringIn entering row).relativeCost j =
      t.relativeCost j - t.relativeCost entering * (t.entry row j / t.entry row entering) :=
  h.rectangular.entry_pivot_of_ne (by have := h.rowCount_eq; omega) (by omega)

theorem value_bringIn_self (h : t.WellFormed) (hrow : row < t.rowCount) :
    (t.bringIn entering row).value row = t.value row / t.entry row entering :=
  h.aligned.value_bringIn_self hrow

theorem value_bringIn_of_ne (h : t.WellFormed) (hrow : row < t.rowCount) (hi : i ≠ row) :
    (t.bringIn entering row).value i =
      t.value i - t.entry i entering * (t.value row / t.entry row entering) :=
  h.aligned.value_bringIn_of_ne hrow hi

/-- The objective changes by the step of the entering variable times its relative cost. -/
theorem objective_bringIn (h : t.WellFormed) (hrow : row < t.rowCount) :
    (t.bringIn entering row).objective =
      t.objective + t.relativeCost entering * (t.value row / t.entry row entering) := by
  rw [objective, bringIn_columnCount, h.relativeCost_bringIn hrow, objective, value]
  ring

/-- A pivot in a row whose value is zero changes no value. -/
theorem value_bringIn_of_value_eq_zero (h : t.WellFormed) (hrow : row < t.rowCount)
    (hzero : t.value row = 0) (i : Nat) : (t.bringIn entering row).value i = t.value i := by
  rcases eq_or_ne i row with rfl | hi
  · rw [h.value_bringIn_self hrow, hzero, zero_div]
  · rw [h.value_bringIn_of_ne hrow hi, hzero, zero_div, mul_zero, sub_zero]

/-- A pivot at a nonzero entry keeps the span of the constraint rows. -/
theorem equations_bringIn (h : t.WellFormed) (hentering : entering < t.columnCount)
    (hnew : entering ∉ t.basis) (hrow : row < t.rowCount) (hne : t.entry row entering ≠ 0) :
    (t.bringIn entering row).equations = t.equations := by
  have h' := h.bringIn hentering hnew hrow
  have hrow' : row < (t.bringIn entering row).rowCount := by rwa [bringIn_rowCount]
  -- The pivot row becomes a multiple of itself, and the other rows lose multiples of it.
  have hself : (t.bringIn entering row).entry row = (t.entry row entering)⁻¹ • t.entry row := by
    funext j
    rw [h.entry_bringIn_self hrow, Pi.smul_apply, smul_eq_mul, div_eq_inv_mul]
  have hother (i : Nat) (hi : i ≠ row) : (t.bringIn entering row).entry i =
      t.entry i - t.entry i entering • (t.bringIn entering row).entry row := by
    funext j
    rw [h.entry_bringIn_of_ne hrow hi, Pi.sub_apply, Pi.smul_apply, smul_eq_mul,
      h.entry_bringIn_self hrow]
  have hmem : (t.bringIn entering row).entry row ∈ t.equations := by
    rw [hself]
    exact Submodule.smul_mem _ _ (h.entry_mem_equations hrow)
  apply le_antisymm
  · apply h'.equations_le_iff.2
    intro i hi
    rcases eq_or_ne i row with rfl | hir
    · exact hmem
    · rw [hother i hir]
      rw [bringIn_rowCount] at hi
      exact Submodule.sub_mem _ (h.entry_mem_equations hi) (Submodule.smul_mem _ _ hmem)
  · -- The rows from before the pivot are combinations of those after it as well.
    apply h.equations_le_iff.2
    intro i hi
    rcases eq_or_ne i row with rfl | hir
    · have hback : t.entry i = t.entry i entering • (t.bringIn entering i).entry i := by
        rw [hself, smul_smul, mul_inv_cancel₀ hne, one_smul]
      rw [hback]
      exact Submodule.smul_mem _ _ (h'.entry_mem_equations hrow')
    · have hback : t.entry i = (t.bringIn entering row).entry i +
          t.entry i entering • (t.bringIn entering row).entry row := by
        rw [hother i hir, sub_add_cancel]
      rw [hback]
      exact Submodule.add_mem _ (h'.entry_mem_equations (by rwa [bringIn_rowCount]))
        (Submodule.smul_mem _ _ (h'.entry_mem_equations hrow'))

end WellFormed

/-! ## The invariant -/

/-- The tableau states the program with the equations in `W` and the given cost, with respect to
its basis. -/
structure States (t : Tableau ℚ) (W : Submodule ℚ (ℕ → ℚ)) (cost : ℕ → ℚ) : Prop where
  wellFormed : t.WellFormed
  equations_eq : t.equations = W
  cost_mem : t.relativeCost - cost ∈ W
  unit : ∀ i < t.rowCount, ∀ k < t.rowCount, t.entry k (t.basic i) = if k = i then 1 else 0
  unit_cost : ∀ i < t.rowCount,
    t.relativeCost (t.basic i) = if t.IsArtificial (t.basic i) then 1 else 0

/-- No row of the tableau has a negative value. -/
def ValuesNonneg (t : Tableau ℚ) : Prop := ∀ i < t.rowCount, 0 ≤ t.value i

namespace States

variable {W : Submodule ℚ (ℕ → ℚ)} {cost : ℕ → ℚ}

theorem entry_mem (h : t.States W cost) (hi : i < t.rowCount) : t.entry i ∈ W :=
  h.equations_eq ▸ h.wellFormed.entry_mem_equations hi

theorem unit_self (h : t.States W cost) (hi : i < t.rowCount) : t.entry i (t.basic i) = 1 := by
  rw [h.unit i hi i hi, if_pos rfl]

theorem unit_of_ne (h : t.States W cost) (hi : i < t.rowCount) (hk : k < t.rowCount)
    (hne : k ≠ i) : t.entry k (t.basic i) = 0 := by
  rw [h.unit i hi k hk, if_neg hne]

theorem relativeCost_of_mem (h : t.States W cost) (hj : j ∈ t.basis) :
    t.relativeCost j = if t.IsArtificial j then 1 else 0 := by
  obtain ⟨i, hi, rfl⟩ := mem_basis_iff.1 hj
  exact h.unit_cost i hi

/-- Bringing a structural column that is not basic into the basis at a nonzero entry keeps what the
tableau states. -/
theorem bringIn (h : t.States W cost) (hentering : entering < t.structuralCount)
    (hnew : entering ∉ t.basis) (hrow : row < t.rowCount) (hne : t.entry row entering ≠ 0) :
    (t.bringIn entering row).States W cost where
  wellFormed := h.wellFormed.bringIn (hentering.trans_le structuralCount_le) hnew hrow
  equations_eq := by
    rw [h.wellFormed.equations_bringIn (hentering.trans_le structuralCount_le) hnew hrow hne,
      h.equations_eq]
  cost_mem := by
    have hsplit : (t.bringIn entering row).relativeCost - cost =
        (t.relativeCost - cost) -
          (t.relativeCost entering / t.entry row entering) • t.entry row := by
      funext j
      simp only [Pi.sub_apply, Pi.smul_apply, smul_eq_mul,
        h.wellFormed.relativeCost_bringIn hrow]
      ring
    rw [hsplit]
    exact Submodule.sub_mem _ h.cost_mem (Submodule.smul_mem _ _ (h.entry_mem hrow))
  unit := by
    intro i hi k hk
    rw [bringIn_rowCount] at hi hk
    -- The entering column is cleared; the other basic columns have nothing in the pivot row.
    rcases eq_or_ne i row with rfl | hi'
    · rw [basic_bringIn_self hi]
      rcases eq_or_ne k i with rfl | hk'
      · rw [h.wellFormed.entry_bringIn_self hi, div_self hne, if_pos rfl]
      · rw [h.wellFormed.entry_bringIn_of_ne hi hk', div_self hne, if_neg hk', mul_one, sub_self]
    · rw [basic_bringIn_of_ne hi']
      have hzero := h.unit_of_ne hi hrow hi'.symm
      rcases eq_or_ne k row with rfl | hk'
      · rw [h.wellFormed.entry_bringIn_self hk, hzero, zero_div, if_neg hi'.symm]
      · rw [h.wellFormed.entry_bringIn_of_ne hrow hk', hzero, zero_div, mul_zero, sub_zero,
          h.unit i hi k hk]
  unit_cost := by
    intro i hi
    rw [bringIn_rowCount] at hi
    rw [h.wellFormed.relativeCost_bringIn hrow]
    rcases eq_or_ne i row with rfl | hi'
    · rw [basic_bringIn_self hi, div_self hne, mul_one, sub_self]
      exact (if_neg (not_isArtificial_iff.2 hentering)).symm
    · rw [basic_bringIn_of_ne hi', h.unit_of_ne hi hrow hi'.symm, zero_div, mul_zero, sub_zero]
      exact h.unit_cost i hi

end States

/-! ## Points and directions of a basis -/

/-- The vector with the given entries at the basic variables of the rows, and zeros elsewhere. -/
def scatter (t : Tableau ℚ) (a : ℕ → ℚ) (j : ℕ) : ℚ :=
  ∑ i ∈ Finset.range t.rowCount, if t.basic i = j then a i else 0

/-- The basic solution: each basic variable has the value of its row. -/
def point (t : Tableau ℚ) : ℕ → ℚ := t.scatter t.value

/-- The direction in which the basic solution moves when a variable grows at rate one. -/
def ray (t : Tableau ℚ) (entering : ℕ) (j : ℕ) : ℚ :=
  (if j = entering then 1 else 0) - t.scatter (t.entry · entering) j

theorem WellFormed.scatter_basic (h : t.WellFormed) (a : ℕ → ℚ) (hi : i < t.rowCount) :
    t.scatter a (t.basic i) = a i := by
  rw [scatter, Finset.sum_eq_single_of_mem i (Finset.mem_range.2 hi)]
  · exact if_pos rfl
  · intro k hk hne
    exact if_neg fun heq => hne ((h.basic_inj (Finset.mem_range.1 hk) hi).1 heq)

theorem scatter_of_notMem (a : ℕ → ℚ) (hj : j ∉ t.basis) : t.scatter a j = 0 := by
  refine Finset.sum_eq_zero fun i hi => if_neg ?_
  rintro rfl
  exact hj (basic_mem (Finset.mem_range.1 hi))

/-- The basic solution stays when a pivot is made in a row whose value is zero, although it is that
of another basis: the variable that leaves and the one that enters are both zero. -/
theorem WellFormed.point_bringIn_of_value_eq_zero (h : t.WellFormed) (hrow : row < t.rowCount)
    (hzero : t.value row = 0) : (t.bringIn entering row).point = t.point := by
  funext j
  rw [point, point, scatter, scatter, bringIn_rowCount]
  refine Finset.sum_congr rfl fun i _ => ?_
  rw [h.value_bringIn_of_value_eq_zero hrow hzero]
  rcases eq_or_ne i row with rfl | hne
  · rw [hzero, ite_self, ite_self]
  · rw [basic_bringIn_of_ne hne]

theorem WellFormed.leftSide_scatter (h : t.WellFormed) (a v : ℕ → ℚ) :
    leftSide t.columnCount (t.scatter a) v =
      ∑ i ∈ Finset.range t.rowCount, v (t.basic i) * a i := by
  simp only [leftSide_apply, scatter, Finset.mul_sum]
  rw [Finset.sum_comm]
  apply Finset.sum_congr rfl
  intro i hi
  have hlt := h.basic_lt (Finset.mem_range.1 hi)
  rw [Finset.sum_eq_single_of_mem (t.basic i) (Finset.mem_range.2 hlt), if_pos rfl]
  intro j _ hne
  rw [if_neg hne.symm, mul_zero]

theorem WellFormed.leftSide_ray (h : t.WellFormed) (hentering : entering < t.columnCount)
    (v : ℕ → ℚ) : leftSide t.columnCount (t.ray entering) v =
      v entering - ∑ i ∈ Finset.range t.rowCount, v (t.basic i) * t.entry i entering := by
  rw [← h.leftSide_scatter (t.entry · entering) v]
  simp only [leftSide_apply, ray, mul_sub, Finset.sum_sub_distrib]
  congr 1
  rw [Finset.sum_eq_single_of_mem entering (Finset.mem_range.2 hentering), if_pos rfl, mul_one]
  intro j _ hne
  rw [if_neg hne, mul_zero]

namespace States

variable {W : Submodule ℚ (ℕ → ℚ)} {cost : ℕ → ℚ}

/-- In each constraint row, the basic columns pick the row's own number. -/
theorem sum_entry_basic (h : t.States W cost) (a : ℕ → ℚ) (hk : k < t.rowCount) :
    ∑ i ∈ Finset.range t.rowCount, t.entry k (t.basic i) * a i = a k := by
  rw [Finset.sum_eq_single_of_mem k (Finset.mem_range.2 hk), h.unit_self hk, one_mul]
  intro i hi hne
  rw [h.unit_of_ne (Finset.mem_range.1 hi) hk hne.symm, zero_mul]

/-- The basic solution satisfies all equations. -/
theorem gap_point (h : t.States W cost) : ∀ v ∈ W, gap t.columnCount t.point v = 0 := by
  have hle : t.equations ≤ LinearMap.ker (gap t.columnCount t.point) := by
    apply h.wellFormed.equations_le_iff.2
    intro k hk
    rw [LinearMap.mem_ker, gap_apply, point, h.wellFormed.leftSide_scatter,
      h.sum_entry_basic t.value hk]
    exact sub_self _
  rw [h.equations_eq] at hle
  exact hle

/-- Moving along the direction of a column keeps all equations. -/
theorem leftSide_ray_eq_zero (h : t.States W cost) (hentering : entering < t.columnCount) :
    ∀ v ∈ W, leftSide t.columnCount (t.ray entering) v = 0 := by
  have hle : t.equations ≤ LinearMap.ker (leftSide t.columnCount (t.ray entering)) := by
    apply h.wellFormed.equations_le_iff.2
    intro k hk
    rw [LinearMap.mem_ker, h.wellFormed.leftSide_ray hentering,
      h.sum_entry_basic (t.entry · entering) hk, sub_self]
  rw [h.equations_eq] at hle
  exact hle

/-- A combination of the equations is determined by its entries in the basic columns. -/
theorem eq_sum_of_mem (h : t.States W cost) {v : ℕ → ℚ} (hv : v ∈ W) (j : ℕ) :
    v j = ∑ i ∈ Finset.range t.rowCount, v (t.basic i) * t.entry i j := by
  -- Both sides are linear in `v`, so it is enough that they agree on the constraint rows.
  let f : (ℕ → ℚ) →ₗ[ℚ] ℚ := LinearMap.proj j -
    ∑ i ∈ Finset.range t.rowCount, t.entry i j • LinearMap.proj (t.basic i)
  have hf (v : ℕ → ℚ) :
      f v = v j - ∑ i ∈ Finset.range t.rowCount, v (t.basic i) * t.entry i j := by
    simp [f, mul_comm]
  have hle : t.equations ≤ LinearMap.ker f := by
    apply h.wellFormed.equations_le_iff.2
    intro k hk
    rw [LinearMap.mem_ker, hf, h.sum_entry_basic (t.entry · j) hk, sub_self]
  rw [h.equations_eq] at hle
  have hzero : f v = 0 := hle hv
  rwa [hf, sub_eq_zero] at hzero

/-- The cost row is the cost less what the basic variables would cost more. -/
theorem relativeCost_eq (h : t.States W cost) (j : ℕ) : t.relativeCost j = cost j -
    ∑ i ∈ Finset.range t.rowCount,
      (cost (t.basic i) - t.relativeCost (t.basic i)) * t.entry i j := by
  have hsum := h.eq_sum_of_mem h.cost_mem j
  simp only [Pi.sub_apply] at hsum
  have hneg : ∑ i ∈ Finset.range t.rowCount,
        (cost (t.basic i) - t.relativeCost (t.basic i)) * t.entry i j =
      -∑ i ∈ Finset.range t.rowCount,
        (t.relativeCost (t.basic i) - cost (t.basic i)) * t.entry i j := by
    rw [← Finset.sum_neg_distrib]
    exact Finset.sum_congr rfl fun i _ => by ring
  rw [hneg, ← hsum]
  ring

/-- At a point that satisfies all equations, the cost row and the cost agree. -/
theorem gap_relativeCost (h : t.States W cost) {n : Nat} {x : ℕ → ℚ}
    (hx : ∀ v ∈ W, gap n x v = 0) : gap n x t.relativeCost = gap n x cost := by
  have hzero := hx _ h.cost_mem
  rwa [map_sub, sub_eq_zero] at hzero

/-- Along a direction that keeps all equations, the cost row and the cost agree. -/
theorem leftSide_relativeCost (h : t.States W cost) {n : Nat} {d : ℕ → ℚ}
    (hd : ∀ v ∈ W, leftSide n d v = 0) : leftSide n d t.relativeCost = leftSide n d cost := by
  have hzero := hd _ h.cost_mem
  rwa [map_sub, sub_eq_zero] at hzero

end States

theorem WellFormed.point_nonneg (h : t.WellFormed) (hvalues : t.ValuesNonneg) (j : Nat) :
    0 ≤ t.point j := by
  by_cases hj : j ∈ t.basis
  · obtain ⟨i, hi, rfl⟩ := mem_basis_iff.1 hj
    rw [point, h.scatter_basic _ hi]
    exact hvalues i hi
  · rw [point, scatter_of_notMem _ hj]

/-- When no entry of a column is positive, nothing falls while its variable grows. -/
theorem WellFormed.ray_nonneg (h : t.WellFormed) (hnew : entering ∉ t.basis)
    (hfall : ∀ i < t.rowCount, t.entry i entering ≤ 0) (j : Nat) : 0 ≤ t.ray entering j := by
  by_cases hj : j ∈ t.basis
  · obtain ⟨i, hi, rfl⟩ := mem_basis_iff.1 hj
    rw [ray, h.scatter_basic _ hi, if_neg (by rintro rfl; exact hnew hj), zero_sub]
    exact neg_nonneg.2 (hfall i hi)
  · rw [ray, scatter_of_notMem _ hj, sub_zero]
    split
    · exact zero_le_one
    · exact le_rfl

end Tableau

end SimplexMethod
