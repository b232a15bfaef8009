import Mathlib.LinearAlgebra.Matrix.NonsingularInverse
import Mathlib.Tactic
import SimplexMethod.Proofs.RowMatrix.Independence
import SimplexMethod.Proofs.Tableau.Narrow
import SimplexMethod.Proofs.TwoPhase.Progress

/-!
# The inverse of the basis

Let `A'` and `b'` be the constraints with the signs of those with a negative value changed. However
a tableau is reached from that of the artificial problem by exchanges at entries that are not zero,
of either sign, its artificial columns hold the inverse of the matrix of the basic columns of
`[A' | I]`, and its structural columns and values are the products of this inverse with `A'` and
`b'` (`Problem.Reached.block_inverse`).

What carries this is that a tableau states its equations: a combination of equations is determined
by its entries in the basic columns of any tableau that states them, and so in particular by its
entries in the artificial columns, which are the basic ones at the start. For the same reason a
tableau is determined by what it states and by its basis (`Tableau.Presents.eq_of_basis_eq`), so the
exchanges by which it was reached do not matter.
-/

set_option autoImplicit false

namespace SimplexMethod

open Matrix

namespace Tableau

/-! ## Tableaus with the same basis -/

section Unique

variable {t t' : Tableau ℚ} {W : Submodule ℚ (ℕ → ℚ)} {cost : ℕ → ℚ}
  {columns artificials : Nat}

theorem basic_congr (hbasis : t'.basis = t.basis) (i : Nat) : t'.basic i = t.basic i := by
  rw [basic, hbasis, basic]

/-- Tableaus that state the same with respect to the same basis have the same constraint rows. -/
theorem States.entry_eq (h : t.States W cost) (h' : t'.States W cost)
    (hbasis : t'.basis = t.basis) {i : Nat} (hi : i < t.rowCount) (j : Nat) :
    t'.entry i j = t.entry i j := by
  have hrows : t'.rowCount = t.rowCount := congrArg List.length hbasis
  have hunit := h'.sum_entry_basic (t.entry · j) (hrows ▸ hi)
  simp only [hrows, basic_congr hbasis] at hunit
  rw [h.eq_sum_of_mem (h'.entry_mem (hrows ▸ hi)) j, hunit]

/-- The order of the basis does not matter to the relative costs, as long as the same basic variables
are artificial. -/
theorem States.relativeCost_congr (h : t.States W cost) (h' : t'.States W cost)
    (hbasis : ∀ j ∈ t.basis, j ∈ t'.basis) (hart : ∀ j, t'.IsArtificial j ↔ t.IsArtificial j)
    (j : Nat) : t'.relativeCost j = t.relativeCost j := by
  have hmem : t'.relativeCost - t.relativeCost ∈ W := by
    rw [← sub_sub_sub_cancel_right _ _ cost]
    exact Submodule.sub_mem _ h'.cost_mem h.cost_mem
  -- The difference is a combination of the equations that vanishes in the basic columns.
  have hzero : (t'.relativeCost - t.relativeCost) j = 0 := by
    rw [h.eq_sum_of_mem hmem j]
    refine Finset.sum_eq_zero fun i hi => ?_
    have hbasic := basic_mem (Finset.mem_range.1 hi)
    rw [Pi.sub_apply, h.relativeCost_of_mem hbasic, h'.relativeCost_of_mem (hbasis _ hbasic)]
    simp only [hart, sub_self, zero_mul]
  rwa [Pi.sub_apply, sub_eq_zero] at hzero

/-- A tableau is determined by what it presents and by its basis. -/
theorem Presents.eq_of_basis_eq (h : t.Presents W cost columns artificials)
    (h' : t'.Presents W cost columns artificials) (hbasis : t'.basis = t.basis) : t' = t := by
  have hart (j : Nat) : t'.IsArtificial j ↔ t.IsArtificial j := by
    rw [IsArtificial, IsArtificial, h'.structuralCount_eq, h.structuralCount_eq]
  refine h.wellFormed.ext h'.wellFormed hbasis (h'.columnCount_eq.trans h.columnCount_eq.symm)
    (h'.artificials_eq.trans h.artificials_eq.symm) (fun j _ => ?_) fun i hi j _ => ?_
  · exact h.states.relativeCost_congr h'.states (fun _ => hbasis ▸ id) hart j
  · exact h.states.entry_eq h'.states hbasis hi j

end Unique

/-- The entries of the constraint rows in the columns from one column on. -/
def block (t : Tableau ℚ) (first rows columns : Nat) : Matrix (Fin rows) (Fin columns) ℚ :=
  Matrix.of fun i j => t.entry i (first + j)

end Tableau

namespace Problem

open Tableau

variable {p : Problem ℚ} {t t' : Tableau ℚ}

/-! ## Constraints without negative values -/

/-- The coefficients of the constraints, with other signs where the value is negative. -/
def normalized (p : Problem ℚ) : Matrix (Fin p.constraintCount) (Fin p.variableCount) ℚ :=
  Matrix.of fun i j =>
    if coeff p.values i < 0 then -p.constraints.toMatrix i j else p.constraints.toMatrix i j

/-- The values of the constraints, with other signs where they are negative. -/
def normalizedValues (p : Problem ℚ) (i : Fin p.constraintCount) : ℚ :=
  if coeff p.values i < 0 then -coeff p.values i else coeff p.values i

/-- A column of the normalized constraints or, after these, of the identity matrix. -/
def extendedColumn (p : Problem ℚ) (j : Nat) (i : Fin p.constraintCount) : ℚ :=
  if h : j < p.variableCount then p.normalized i ⟨j, h⟩
  else if j = p.variableCount + i then 1 else 0

/-- The columns of a basis, each in the place of the row in which it is basic. -/
def basisMatrix (p : Problem ℚ) (basis : List Nat) :
    Matrix (Fin p.constraintCount) (Fin p.constraintCount) ℚ :=
  Matrix.of fun k i => p.extendedColumn (basis.getD i 0) k

theorem signFor_mul (b x : ℚ) : signFor b * x = if b < 0 then -x else x := by
  unfold signFor
  split <;> simp

theorem artificialTableau_entry_normalized (i : Fin p.constraintCount) (j : Fin p.variableCount) :
    p.artificialTableau.entry i j = p.normalized i j := by
  rw [artificialTableau_entry_structural i.2 j.2, signFor_mul]
  rfl

theorem artificialTableau_value_normalized (i : Fin p.constraintCount) :
    p.artificialTableau.value i = p.normalizedValues i := by
  rw [artificialTableau_value i.2, signedValue, signFor_mul]
  rfl

theorem artificialTableau_entry_extended (i : Fin p.constraintCount) {j : Nat}
    (hj : j < p.variableCount + p.constraintCount) :
    p.artificialTableau.entry i j = p.extendedColumn j i := by
  rw [extendedColumn]
  split
  · next hlt => exact artificialTableau_entry_normalized i ⟨j, hlt⟩
  · next hge =>
    obtain ⟨k, rfl⟩ := Nat.exists_eq_add_of_le (not_lt.1 hge)
    rw [artificialTableau_entry_artificial i.2 (by omega)]
    simp only [Nat.add_left_cancel_iff]

/-! ## Reached tableaus -/

/-- The tableau is reached from that of the artificial problem by exchanges, each of which brings in
a structural column that is not basic at an entry that is not zero. -/
inductive Reached (p : Problem ℚ) : Tableau ℚ → Prop where
  | start : Reached p p.artificialTableau
  | exchange {t t' : Tableau ℚ} {pivot : Pivot} (reached : Reached p t)
      (exchanges : t.Exchanges pivot t') (entry_ne : t.entry pivot.row pivot.entering ≠ 0) :
      Reached p t'

namespace Reached

theorem presents (h : p.Reached t) : p.PresentsArtificial t := by
  induction h with
  | start => exact canonical_artificialTableau.presents
  | exchange _ hexchanges hne ih =>
    rw [hexchanges.eq_bringIn ih.wellFormed]
    exact ih.bringIn hexchanges.structural hexchanges.notMem hexchanges.row_lt hne

theorem shaped (h : p.Reached t) :
    t.Shaped p.constraintCount (p.variableCount + p.constraintCount) p.constraintCount := by
  induction h with
  | start => exact shaped_artificialTableau
  | exchange _ hexchanges _ ih => exact hexchanges.shaped ih

end Reached

/-- The entries of an equation of the artificial problem in the artificial columns are the factors
of the constraints in it. -/
theorem eq_sum_of_mem_artificialEquations {v : ℕ → ℚ} (hv : v ∈ p.artificialEquations) (j : ℕ) :
    v j = ∑ k : Fin p.constraintCount,
      v (p.variableCount + k) * p.artificialTableau.entry k j := by
  have hstates := canonical_artificialTableau (p := p).states
  rw [hstates.eq_sum_of_mem hv j, artificialTableau_rowCount, Finset.sum_range]
  exact Finset.sum_congr rfl fun k _ => by rw [artificialTableau_basic k.2]

namespace Reached

/-- A structural column that is not basic can be brought in at an entry that is not zero. -/
theorem bringIn (h : p.Reached t) {entering row : Nat} (hentering : entering < t.structuralCount)
    (hnew : entering ∉ t.basis) (hrow : row < t.rowCount) (hne : t.entry row entering ≠ 0) :
    p.Reached (t.bringIn entering row) :=
  h.exchange (h.shaped.wellFormed.exchanges hentering hnew hrow) hne

/-- The pivots of a descent are made at positive entries, whatever the tolerance is. -/
theorem move (h : p.Reached t) {rule : PivotRule} {tolerance : ℚ} (htolerance : 0 ≤ tolerance)
    {entering row leaving : Nat} (hmove : t.move? rule tolerance = some (.pivot entering row))
    (hbring : t.bringIn? entering row = some (leaving, t')) : p.Reached t' := by
  obtain ⟨hprofitable, hrow, hpos⟩ := h.shaped.wellFormed.entry_pos_of_pivot htolerance hmove
  have hlt := hprofitable.structural.trans_le structuralCount_le
  rw [h.shaped.wellFormed.bringIn?_eq hlt hrow] at hbring
  cases Option.some.inj hbring
  exact h.bringIn hprofitable.structural hprofitable.notMem hrow hpos.ne'

theorem row_lt (h : p.Reached t) (i : Fin p.constraintCount) : (i : ℕ) < t.rowCount := by
  rw [h.shaped.rowCount_eq]
  exact i.2

theorem entry_eq_sum (h : p.Reached t) (i : Fin p.constraintCount) (j : ℕ) :
    t.entry i j = ∑ k : Fin p.constraintCount,
      t.entry i (p.variableCount + k) * p.artificialTableau.entry k j :=
  eq_sum_of_mem_artificialEquations (h.presents.states.entry_mem (h.row_lt i)) j

theorem block_eq_mul_normalized (h : p.Reached t) :
    t.block 0 p.constraintCount p.variableCount =
      t.block p.variableCount p.constraintCount p.constraintCount * p.normalized := by
  ext i j
  rw [Matrix.mul_apply, block, Matrix.of_apply, Nat.zero_add, h.entry_eq_sum]
  exact Finset.sum_congr rfl fun k _ => by rw [artificialTableau_entry_normalized]; rfl

theorem values_eq_mulVec (h : p.Reached t) :
    (fun i : Fin p.constraintCount => t.value i) =
      t.block p.variableCount p.constraintCount p.constraintCount *ᵥ p.normalizedValues := by
  ext i
  rw [Matrix.mulVec, dotProduct, value, h.entry_eq_sum]
  refine Finset.sum_congr rfl fun k _ => ?_
  rw [← artificialTableau_value_normalized, value, h.shaped.columnCount_eq,
    artificialTableau_columnCount]
  rfl

theorem block_mul_basisMatrix (h : p.Reached t) :
    t.block p.variableCount p.constraintCount p.constraintCount * p.basisMatrix t.basis = 1 := by
  ext i l
  have hunit := h.presents.states.unit l (h.row_lt l) i (h.row_lt i)
  have hlt := h.shaped.wellFormed.basic_lt (h.row_lt l)
  rw [h.shaped.columnCount_eq] at hlt
  simp only [Matrix.mul_apply, Matrix.one_apply, Fin.ext_iff]
  rw [← hunit, h.entry_eq_sum]
  exact Finset.sum_congr rfl fun k _ => by rw [artificialTableau_entry_extended k hlt]; rfl

/-- A tableau that is reached from the artificial problem holds in its artificial columns the
inverse of its basis, and in the other columns the products of this inverse with the normalized
constraints. So it does not depend on the way on which it was reached: with the same basis, the whole
tableau is the same. -/
theorem block_inverse (h : p.Reached t) :
    t.Shaped p.constraintCount (p.variableCount + p.constraintCount) p.constraintCount ∧
      t.block 0 p.constraintCount p.variableCount =
        t.block p.variableCount p.constraintCount p.constraintCount * p.normalized ∧
      (fun i : Fin p.constraintCount => t.value i) =
        t.block p.variableCount p.constraintCount p.constraintCount *ᵥ p.normalizedValues ∧
      t.block p.variableCount p.constraintCount p.constraintCount * p.basisMatrix t.basis = 1 ∧
      p.basisMatrix t.basis * t.block p.variableCount p.constraintCount p.constraintCount = 1 ∧
      ∀ t', p.Reached t' → t'.basis = t.basis → t' = t :=
  ⟨h.shaped, h.block_eq_mul_normalized, h.values_eq_mulVec, h.block_mul_basisMatrix,
    mul_eq_one_comm.1 h.block_mul_basisMatrix,
    fun _ h' hbasis => h.presents.eq_of_basis_eq h'.presents hbasis⟩

end Reached

/-- A program whose second constraint has a negative value. -/
def skew : Problem ℚ where
  constraints := ⟨[[1, 2], [-3, 1]], 2⟩
  values := [2, -3]
  minimizationCost := [3, 4]
  direction := .minimize
  rows_ne_nil := List.cons_ne_nil _ _
  columns_pos := Nat.zero_lt_two
  rectangular := by simp [RowMatrix.Rectangular]
  values_length := rfl
  cost_length := rfl

/-- Its two exchanges in one order, at the entries 1 and -7. -/
def skewDown : Tableau ℚ := (skew.artificialTableau.bringIn 0 0).bringIn 1 1

/-- Its two exchanges in the other order, at the entries -1 and 7. -/
def skewUp : Tableau ℚ := (skew.artificialTableau.bringIn 1 1).bringIn 0 0

theorem Reached.block_inverse_skew :
    skew.Reached skewDown ∧ skew.Reached skewUp ∧ skewDown.basis = [0, 1] ∧
      skewDown.block 2 2 2 = !![1/7, 2/7; 3/7, -1/7] ∧
      skewDown.block skew.variableCount skew.constraintCount skew.constraintCount *
        skew.basisMatrix skewDown.basis = 1 ∧
      skewUp = skewDown := by
  have hdown : skew.Reached skewDown :=
    (Reached.start.bringIn (by decide +kernel) (by decide +kernel) (by decide +kernel)
      (by decide +kernel)).bringIn (by decide +kernel) (by decide +kernel) (by decide +kernel)
      (by decide +kernel)
  have hup : skew.Reached skewUp :=
    (Reached.start.bringIn (by decide +kernel) (by decide +kernel) (by decide +kernel)
      (by decide +kernel)).bringIn (by decide +kernel) (by decide +kernel) (by decide +kernel)
      (by decide +kernel)
  obtain ⟨-, -, -, hinverse, -, hunique⟩ := hdown.block_inverse
  refine ⟨hdown, hup, by decide +kernel, by decide +kernel, hinverse, hunique skewUp hup ?_⟩
  decide +kernel

end Problem

end SimplexMethod
