import Mathlib.Tactic
import SimplexMethod.Proofs.Enumeration.Systems
import SimplexMethod.Proofs.RowMatrix.Greedy

/-!
# The rows that are kept

What the selection of independent rows says of a system, with tolerance zero, is all that there is
to say (`RowMatrix.independentRows?_greedy`): that the system has no solution, or which equations,
considered in order, are no combination of those kept before them. The kept rows are independent and
have the same solutions.
-/

set_option autoImplicit false

namespace SimplexMethod

namespace RowMatrix

variable {m : RowMatrix ℚ} {rhs : List ℚ}

/-- The selection never fails. It says that a system is inconsistent exactly when it has no
solution, of any sign. Otherwise the positions it keeps increase, an equation is left out exactly
when it is a linear combination of the equations kept before it, and the rows kept are linearly
independent and, with their right-hand sides, have the same solutions as all rows. -/
theorem independentRows?_greedy (h : m.Rectangular) (hrhs : rhs.length = m.rowCount) :
    (∃ result, m.independentRows? rhs 0 = some result) ∧
      (m.independentRows? rhs 0 = some none ↔
        ¬ ∃ x : List ℚ, x.length = m.columns ∧ m.mulVector x = rhs) ∧
      ∀ positions, m.independentRows? rhs 0 = some (some positions) →
        positions.Pairwise (· < ·) ∧
        (∀ i < m.rowCount, i ∉ positions ↔ coeff ((m.augmented rhs).getD i []) ∈
          rowSpan ((positions.filter (· < i)).map ((m.augmented rhs).getD · []))) ∧
        ∃ kept values, m.selectRows? positions = some kept ∧
          (positions.mapM fun i => rhs[i]?) = some values ∧
          LinearIndependent ℚ kept.toMatrix.row ∧
          ∀ x : List ℚ, x.length = m.columns →
            (kept.mulVector x = values ↔ m.mulVector x = rhs) := by
  have hwell : (System.mk m rhs).WellFormed := ⟨h, hrhs⟩
  refine ⟨?_, independentRows?_eq_none_iff h hrhs, fun positions hpositions => ?_⟩
  · obtain ⟨result, hresult, -⟩ := exists_independentRows? (0 : ℚ) h hrhs
    exact ⟨result, hresult⟩
  · obtain ⟨hnone, -⟩ | ⟨positions', hrows, hsorted, hlt, hrank, hspan⟩ :=
      independentRows?_cases h hrhs
    · rw [hnone] at hpositions
      cases Option.some.inj hpositions
    obtain rfl : positions' = positions :=
      Option.some.inj (Option.some.inj (hrows.symm.trans hpositions))
    obtain ⟨hregular, hequivalent⟩ := hwell.regular_kept hlt hrank hspan
    exact ⟨hsorted, fun i hi => notMem_independentRows?_iff h hrhs hpositions hi, _, _,
      System.selectRows?_kept (s := ⟨m, rhs⟩) hlt, hwell.mapM_rhs_kept hlt,
      hregular.linearIndependent, fun x hx => (hequivalent.mulVector_eq_iff hx).symm⟩

/-- The second row is the double of the first, and the third is empty. -/
def doubled : RowMatrix ℚ := ⟨[[1, 2], [2, 4], [0, 0], [1, 1]], 2⟩

theorem independentRows?_greedy_doubled :
    doubled.independentRows? [1, 2, 0, 1] 0 = some (some [0, 3]) ∧
      coeff [2, 4, 2] ∈ rowSpan [[1, 2, 1]] ∧ coeff [1, 1, 1] ∉ rowSpan [[1, 2, 1]] ∧
      (∃ x : List ℚ, x.length = 2 ∧ doubled.mulVector x = [1, 2, 0, 1]) ∧
      ∃ kept, doubled.selectRows? [0, 3] = some kept ∧ LinearIndependent ℚ kept.toMatrix.row ∧
        ∀ x : List ℚ, x.length = 2 →
          (kept.mulVector x = [1, 1] ↔ doubled.mulVector x = [1, 2, 0, 1]) := by
  have hrectangular : doubled.Rectangular := by simp [Rectangular, doubled]
  have hrun : doubled.independentRows? [1, 2, 0, 1] 0 = some (some [0, 3]) := by decide +kernel
  have hlen : ([1, 2, 0, 1] : List ℚ).length = doubled.rowCount := rfl
  obtain ⟨-, hnone, hsome⟩ := independentRows?_greedy hrectangular hlen
  obtain ⟨-, hleft, kept, values, hkept, hvalues, hindependent, hsame⟩ := hsome _ hrun
  obtain rfl : [1, 1] = values := Option.some.inj hvalues
  have hsecond := hleft 1 (by decide)
  have hlast := hleft 3 (by decide)
  refine ⟨hrun, hsecond.1 (by decide), fun hmem => absurd (hlast.2 hmem) (by decide), ?_, kept,
    hkept, hindependent, hsame⟩
  by_contra hsolution
  rw [hnone.2 hsolution] at hrun
  cases Option.some.inj hrun

end RowMatrix

end SimplexMethod
