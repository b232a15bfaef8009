import Mathlib.LinearAlgebra.Matrix.NonsingularInverse
import Mathlib.Tactic
import SimplexMethod.Proofs.Tableau.Inverse

/-!
# The cost row of the artificial problem

What the cost row means at a tableau that is reached from that of the artificial problem
(`Problem.Reached.costRow_eq`). On the structural columns and on the right-hand side it is minus the
sum of the constraint rows in which an artificial variable is basic, so the objective is what these
variables sum up to. The same entries are minus what the normalized constraints come to at certain
prices, and the prices stand in the cost row itself, as what the artificial columns lack to two.

The usual rule, that basic columns have no relative cost, is not the invariant here. The cost row
starts with ones in the artificial columns although these are basic, so it is that of the cost two
for each artificial variable, less one of each row in which an artificial variable is basic. Bringing
in a structural column keeps this, whether an artificial variable leaves or not.
-/

set_option autoImplicit false

namespace SimplexMethod

open Matrix

namespace Tableau

/-- The constraint rows in which an artificial variable is basic. -/
def artificialBasicRows {F : Type} (t : Tableau F) : Finset Nat :=
  (Finset.range t.rowCount).filter fun i => t.IsArtificial (t.basic i)

/-- What the entries of the cost row lack to two, from one column on. -/
def prices (t : Tableau ℚ) (first rows : Nat) (k : Fin rows) : ℚ :=
  2 - t.relativeCost (first + k)

end Tableau

namespace Problem

open Tableau

variable {p : Problem ℚ} {t : Tableau ℚ}

theorem artificialCost_add {k : Nat} (hk : k < p.constraintCount) :
    p.artificialCost (p.variableCount + k) = 2 :=
  if_pos (by omega)

namespace Reached

/-- Outside of the artificial columns, the cost row is minus the sum of the rows in which an
artificial variable is basic. -/
theorem relativeCost_eq_neg_sum (h : p.Reached t) {j : Nat}
    (hj : j < p.variableCount ∨ j = t.columnCount) :
    t.relativeCost j = -∑ i ∈ t.artificialBasicRows, t.entry i j := by
  have hcost : p.artificialCost j = 0 := by
    rcases hj with hlt | rfl
    · exact PresentsArtificial.artificialCost_of_lt hlt
    · rw [h.presents.columnCount_eq, PresentsArtificial.artificialCost_last]
  rw [PresentsArtificial.relativeCost_eq h.presents, hcost, zero_sub, artificialBasicRows,
    Finset.sum_filter]

/-- The cost row less the cost is a combination of the constraints, whose factors can be read in the
artificial columns. -/
theorem relativeCost_eq_sub_sum (h : p.Reached t) (j : Nat) :
    t.relativeCost j = p.artificialCost j - ∑ k : Fin p.constraintCount,
      t.prices p.variableCount p.constraintCount k * p.artificialTableau.entry k j := by
  have hsum := eq_sum_of_mem_artificialEquations h.presents.states.cost_mem j
  have hfactor (k : Fin p.constraintCount) :
      (t.relativeCost - p.artificialCost) (p.variableCount + k) =
        -t.prices p.variableCount p.constraintCount k := by
    rw [Pi.sub_apply, artificialCost_add k.2, prices, neg_sub]
  simp only [hfactor, neg_mul, Finset.sum_neg_distrib, Pi.sub_apply] at hsum
  rw [sub_eq_add_neg, ← hsum, add_sub_cancel]

theorem relativeCost_structural (h : p.Reached t) :
    (fun j : Fin p.variableCount => t.relativeCost j) =
      -(t.prices p.variableCount p.constraintCount ᵥ* p.normalized) := by
  ext j
  rw [h.relativeCost_eq_sub_sum, PresentsArtificial.artificialCost_of_lt j.2, zero_sub,
    Pi.neg_apply, Matrix.vecMul, dotProduct]
  simp only [artificialTableau_entry_normalized]

theorem relativeCost_columnCount (h : p.Reached t) :
    t.relativeCost t.columnCount =
      -(t.prices p.variableCount p.constraintCount ⬝ᵥ p.normalizedValues) := by
  have hvalue (k : Fin p.constraintCount) :
      p.artificialTableau.entry k (p.variableCount + p.constraintCount) = p.normalizedValues k := by
    rw [← artificialTableau_value_normalized, value, artificialTableau_columnCount]
  rw [h.relativeCost_eq_sub_sum, h.presents.columnCount_eq, PresentsArtificial.artificialCost_last,
    zero_sub, dotProduct]
  simp only [hvalue]

/-- What the cost row means at a tableau that is reached from the artificial problem. On the
structural columns and on the right-hand side it is minus the sum of the rows in which an artificial
variable is basic, so that the objective is the sum of the artificial variables; and it is minus the
normalized constraints at the prices that the artificial columns show. -/
theorem costRow_eq (h : p.Reached t) :
    t.Shaped p.constraintCount (p.variableCount + p.constraintCount) p.constraintCount ∧
      (∀ j, j < p.variableCount ∨ j = t.columnCount →
        t.relativeCost? j = some (-∑ i ∈ t.artificialBasicRows, t.entry i j)) ∧
      t.objective? = some (∑ i ∈ t.artificialBasicRows, t.value i) ∧
      (fun j : Fin p.variableCount => t.relativeCost j) =
        -(t.prices p.variableCount p.constraintCount ᵥ* p.normalized) ∧
      t.relativeCost t.columnCount =
        -(t.prices p.variableCount p.constraintCount ⬝ᵥ p.normalizedValues) := by
  have hwell := h.shaped.wellFormed
  refine ⟨h.shaped, fun j hj => ?_, ?_, h.relativeCost_structural, h.relativeCost_columnCount⟩
  · have hle : j ≤ t.columnCount := by
      have hcolumns := h.shaped.columnCount_eq
      omega
    rw [hwell.relativeCost?_eq hle, h.relativeCost_eq_neg_sum hj]
  · rw [hwell.objective?_eq, objective, h.relativeCost_eq_neg_sum (Or.inr rfl), neg_neg]
    rfl

/-- After one exchange of the program with a negative value, at the entry -1 of its second row, the
artificial variable of the first row is still basic. The cost row then prices the constraints at one
and at two. -/
theorem costRow_eq_skew :
    skew.Reached (skew.artificialTableau.bringIn 1 1) ∧
      (skew.artificialTableau.bringIn 1 1).artificialBasicRows = {0} ∧
      (skew.artificialTableau.bringIn 1 1).objective? = some 8 ∧
      (skew.artificialTableau.bringIn 1 1).prices 2 2 = ![1, 2] ∧
      (fun j : Fin skew.variableCount => (skew.artificialTableau.bringIn 1 1).relativeCost j) =
        -((skew.artificialTableau.bringIn 1 1).prices skew.variableCount skew.constraintCount ᵥ*
          skew.normalized) := by
  have hreached : skew.Reached (skew.artificialTableau.bringIn 1 1) :=
    Reached.start.bringIn (by decide +kernel) (by decide +kernel) (by decide +kernel)
      (by decide +kernel)
  obtain ⟨-, -, hobjective, hprices, -⟩ := hreached.costRow_eq
  have hrows : (skew.artificialTableau.bringIn 1 1).artificialBasicRows = {0} := by decide +kernel
  have hvalue : (skew.artificialTableau.bringIn 1 1).value 0 = 8 := by decide +kernel
  rw [hrows, Finset.sum_singleton, hvalue] at hobjective
  exact ⟨hreached, hrows, hobjective, by decide +kernel, hprices⟩

end Reached

end Problem

end SimplexMethod
