import Mathlib.Tactic
import SimplexMethod.Proofs.Enumeration.Verdicts
import SimplexMethod.Proofs.Problem.Integral
import SimplexMethod.Proofs.RowMatrix.Bounded

/-!
# Tolerances that make no difference to the enumeration

On a program of integers, the enumeration with a tolerance that is small compared with the square of
a bound of all square minors gives the same answer as without tolerance
(`Problem.enumerate?_withoutTolerance`). The minors are those of the constraints with a row of
ones, which is the matrix of the system of normalized directions.

The bound itself resolves the entries of the eliminations and of the vertices, and the costs of
directions, because a determinant is their denominator (`System.Bounded.commonDenominator`). The
costs of two vertices are compared by their difference, whose denominator is the product of two
determinants.
-/

set_option autoImplicit false

namespace SimplexMethod

/-- The same limit, and no tolerance. -/
def EnumerationOptions.withoutTolerance (options : EnumerationOptions ℚ) : EnumerationOptions ℚ :=
  { options with tolerance := 0 }

variable {options : EnumerationOptions ℚ} {D : ℚ}

namespace System

variable {s t : System ℚ} {columns : List ℕ}

/-- A system of integers in which the minors of the coefficients are within a bound. -/
structure Bounded (D : ℚ) (s : System ℚ) : Prop where
  matrix : s.matrix.Bounded D
  rhs_length : s.rhs.length = s.matrix.rowCount
  rhs_mem_integers : ∀ b ∈ s.rhs, b ∈ integers

namespace Bounded

theorem wellFormed (h : s.Bounded D) : s.WellFormed := ⟨h.matrix.rectangular, h.rhs_length⟩

/-- The system of directions has the rows of the system, and one more. -/
theorem of_directions (h : s.directions.matrix.Bounded D)
    (hlen : s.rhs.length = s.matrix.rowCount) (hrhs : ∀ b ∈ s.rhs, b ∈ integers) :
    s.Bounded D where
  matrix := h.subset columns_directions.symm fun _ => List.mem_append_left _
  rhs_length := hlen
  rhs_mem_integers := hrhs

/-- The bound of its matrix is all that the system of directions needs. -/
theorem directions (h : s.Bounded D) (hdirections : s.directions.matrix.Bounded D) :
    s.directions.Bounded D where
  matrix := hdirections
  rhs_length := h.wellFormed.directions.rhs_length
  rhs_mem_integers := by
    intro b hb
    rcases List.mem_append.1 hb with hb | hb
    · rw [List.eq_of_mem_replicate hb]
      exact integers.zero_mem
    · rw [List.mem_singleton.1 hb]
      exact integers.one_mem

/-! ## Independent rows -/

section Independent

variable {positions : List ℕ} (hlt : ∀ i ∈ positions, i < s.matrix.rowCount)

include hlt

theorem kept (h : s.Bounded D) : (s.kept positions).Bounded D where
  matrix := h.matrix.subset rfl fun _ hrow => mem_rows_of_kept hlt hrow
  rhs_length := (h.wellFormed.kept hlt).rhs_length
  rhs_mem_integers := by
    intro b hb
    obtain ⟨i, -, rfl⟩ := List.mem_map.1 hb
    exact coeff_mem_integers h.rhs_mem_integers i

theorem directions_kept (h : s.directions.matrix.Bounded D) :
    (s.kept positions).directions.matrix.Bounded D := by
  have hcolumns : (s.kept positions).matrix.columns = s.matrix.columns := rfl
  refine h.subset (columns_directions.trans (hcolumns.trans columns_directions.symm))
    fun row hrow => ?_
  rcases List.mem_append.1 hrow with hrow | hrow
  · exact List.mem_append_left _ (mem_rows_of_kept hlt hrow)
  · exact List.mem_append_right _ hrow

end Independent

/-- Leaving out dependent rows keeps the bound. -/
theorem independent (h : s.Bounded D)
    (ht : s.independent? options.withoutTolerance = some (some t)) : t.Bounded D := by
  obtain ⟨positions, hlt, rfl⟩ := exists_eq_kept h.wellFormed rfl ht
  exact h.kept hlt

theorem directions_independent (h : s.Bounded D) (hdirections : s.directions.matrix.Bounded D)
    (ht : s.independent? options.withoutTolerance = some (some t)) : t.directions.Bounded D := by
  obtain ⟨positions, hlt, rfl⟩ := exists_eq_kept h.wellFormed rfl ht
  exact (h.kept hlt).directions (directions_kept hlt hdirections)

/-! ## Vertices -/

theorem commonDenominator_of_solve? (h : s.Bounded D) (hc : s.Chooses columns) {entries : List ℚ}
    (hsolve : (s.matrix.selected columns).solve? s.rhs 0 = some (some entries)) :
    CommonDenominator D entries :=
  (h.matrix.selected hc.lt_columns).commonDenominator_of_solve? h.rhs_mem_integers hc.square
    (h.rhs_length.trans RowMatrix.selected_rowCount.symm) hsolve

/-- The entries of a vertex have a determinant as their denominator. -/
theorem commonDenominator (h : s.Bounded D) (hc : s.Chooses columns) {v : Vertex ℚ}
    (hv : s.matrix.vertex? s.rhs 0 columns = some (some v)) : CommonDenominator D v.values := by
  obtain ⟨result, hresult, hsound, -⟩ := hc.vertex?_cases h.wellFormed
  obtain rfl : result = some v := Option.some.inj (hresult.symm.trans hv)
  obtain ⟨-, hfeasible, hzero⟩ := hsound v rfl
  rw [RowMatrix.vertex?, h.matrix.rectangular.selectColumns?_eq hc.lt_columns] at hv
  simp only [Option.bind_eq_bind, Option.bind_some, Option.bind_eq_some_iff] at hv
  obtain ⟨solution, hsolve, hv⟩ := hv
  cases solution with
  | none => cases hv
  | some entries =>
    obtain ⟨q, hint, hq, hle, hmem⟩ := h.commonDenominator_of_solve? hc hsolve
    obtain ⟨-, hunique⟩ := hc.mulVector_eq_iff h.wellFormed hsolve
    -- In the chosen columns the vertex is the solution, elsewhere it is zero.
    have hpick := (hunique v.values hzero).1 hfeasible.mulVector_eq
    refine ⟨q, hint, hq, hle, fun j => ?_⟩
    by_cases hj : j ∈ columns
    · have hentry : coeff v.values j ∈ entries := hpick ▸ List.mem_map_of_mem hj
      obtain ⟨k, -, hk⟩ := coeff_eq_of_mem hentry
      rw [← hk]
      exact hmem k
    · rw [hzero j hj, mul_zero]
      exact integers.zero_mem

theorem commonDenominator_of_vertices? (h : s.Bounded D) {vertices : List (Vertex ℚ)}
    (hvertices : s.vertices? options.withoutTolerance = some (.ok vertices)) :
    ∀ v ∈ vertices, CommonDenominator D v.values := by
  intro v hv
  rw [vertices?] at hvertices
  split at hvertices
  · cases hvertices
  · simp only [RowMatrix.vertices?, Option.bind_eq_bind, Option.bind_eq_some_iff, Option.pure_def,
      Option.some.injEq, Except.ok.injEq] at hvertices
    obtain ⟨_, ⟨results, hresults, rfl⟩, rfl⟩ := hvertices
    obtain ⟨result, hresult, rfl⟩ := List.mem_filterMap.1 hv
    obtain ⟨columns, hmem, heq⟩ := (mem_iff_of_mapM hresults).1 hresult
    exact h.commonDenominator (chooses_of_mem_combinations hmem) heq

variable (htolerance : 0 ≤ options.tolerance) (hsmall : options.tolerance * D < 1)

include htolerance hsmall

theorem independent?_withoutTolerance (h : s.Bounded D) :
    s.independent? options = s.independent? options.withoutTolerance := by
  rw [independent?, independent?,
    h.matrix.independentRows?_eq h.rhs_mem_integers htolerance hsmall]
  rfl

/-- A choice of columns gives the same vertex as without tolerance. -/
theorem vertex?_withoutTolerance (h : s.Bounded D) (hc : s.Chooses columns) :
    s.matrix.vertex? s.rhs options.tolerance columns = s.matrix.vertex? s.rhs 0 columns := by
  have hsame := (h.matrix.selected hc.lt_columns).solve?_eq h.rhs_mem_integers htolerance hsmall
    hc.square (h.rhs_length.trans RowMatrix.selected_rowCount.symm)
  rw [RowMatrix.vertex?, RowMatrix.vertex?,
    h.matrix.rectangular.selectColumns?_eq hc.lt_columns]
  simp only [Option.bind_eq_bind, Option.bind_some, hsame]
  refine Option.bind_congr fun solution hsolve => ?_
  cases solution with
  | none => rfl
  | some entries =>
    -- The solution is the same, and so are the signs that are seen in it.
    have hentries := h.commonDenominator_of_solve? hc hsolve
    have hany : (entries.any fun entry => entry < -options.tolerance) =
        entries.any fun entry => entry < -0 := by
      rw [Bool.eq_iff_iff, List.any_eq_true, List.any_eq_true]
      refine exists_congr fun entry => and_congr_right fun hentry => ?_
      obtain ⟨j, -, rfl⟩ := coeff_eq_of_mem hentry
      rw [decide_eq_true_eq, decide_eq_true_eq]
      exact ((hentries.fraction j).resolved htolerance hsmall).lt_neg_iff htolerance
    dsimp only
    rw [hany]

theorem vertices?_withoutTolerance (h : s.Bounded D) :
    s.vertices? options = s.vertices? options.withoutTolerance := by
  have hpass := mapM_congr fun columns hmem =>
    h.vertex?_withoutTolerance htolerance hsmall (chooses_of_mem_combinations hmem)
  rw [vertices?, vertices?, RowMatrix.vertices?, RowMatrix.vertices?, hpass]
  rfl

end Bounded

end System

namespace Problem

variable {p : Problem ℚ} {s : System ℚ}

/-! ## Costs -/

/-- The costs of two vertices count as equal only when they are equal. -/
theorem leastVertex?_withoutTolerance (hp : p.Integral) {vertices : List (Vertex ℚ)}
    (hvertices : ∀ v ∈ vertices, CommonDenominator D v.values)
    (htolerance : 0 ≤ options.tolerance) (hsmall : options.tolerance * D ^ 2 < 1) :
    p.leastVertex? options vertices = p.leastVertex? options.withoutTolerance vertices := by
  have hcost {v : Vertex ℚ} (hv : v ∈ vertices) : Scalar.Fraction D (p.minimizedAt v.values) :=
    (hvertices v hv).dot hp.minimizationCost
  refine survivor?_congr fun next hnext kept hkept => ?_
  obtain ⟨v, hv, rfl⟩ := List.mem_map.1 hnext
  obtain ⟨w, hw, rfl⟩ := List.mem_map.1 hkept
  -- The denominators of two costs may be different determinants.
  have hdifference := ((hcost hw).sub (hcost hv)).resolved htolerance hsmall
  exact and_congr_left' (not_congr (hdifference.negligible_iff htolerance))

theorem improvingDirection?_withoutTolerance (hp : p.Integral) (h : s.directions.Bounded D)
    (htolerance : 0 ≤ options.tolerance) (hsmall : options.tolerance * D < 1) :
    p.improvingDirection? options s = p.improvingDirection? options.withoutTolerance s := by
  rw [improvingDirection?, improvingDirection?,
    h.independent?_withoutTolerance htolerance hsmall]
  refine Option.bind_congr fun result hresult => ?_
  cases result with
  | none => rfl
  | some t =>
    -- The vertices are those of the independent rows, in which the bound stays.
    have ht := h.independent hresult
    simp only [ht.vertices?_withoutTolerance htolerance hsmall]
    refine Option.bind_congr fun found hfound => ?_
    cases found with
    | error error => rfl
    | ok vertices =>
      have hfind : ((vertices.map Vertex.values).find? fun d =>
          p.minimizedAt d < -options.tolerance) =
            (vertices.map Vertex.values).find? fun d => p.minimizedAt d < -0 := by
        refine List.find?_congr fun d hd => decide_eq_decide.2 ?_
        obtain ⟨v, hv, rfl⟩ := List.mem_map.1 hd
        have hcost := (ht.commonDenominator_of_vertices? hfound v hv).dot hp.minimizationCost
        exact (hcost.resolved htolerance hsmall).lt_neg_iff htolerance
      simp only [Except.map, hfind]
      rfl

/-! ## Answers -/

/-- On a program of integers, take a bound of all square minors of the constraints with a row of
ones. A tolerance that is small compared with the square of the bound makes no difference: the
enumeration gives the same answer as without tolerance, whatever the limit is. -/
theorem enumerate?_withoutTolerance (p : Problem ℚ) (options : EnumerationOptions ℚ)
    (hintegral : p.Integral) {D : ℚ}
    (hminors : ∀ d, (p.constraints.pushRow (List.replicate p.variableCount 1)).IsMinor d → |d| ≤ D)
    (htolerance : 0 ≤ options.tolerance) (hsmall : options.tolerance * D ^ 2 < 1) :
    ∃ answer, p.enumerate? options = some answer ∧
      p.enumerate? options.withoutTolerance = some answer := by
  have hdirections : p.system.directions.matrix.Bounded D :=
    ⟨p.wellFormed_system.directions.rectangular, hintegral.directions, hminors⟩
  have hsystem : p.system.Bounded D := .of_directions hdirections p.values_length hintegral.values
  -- Only the comparison of costs needs the square of the bound.
  have hlinear : options.tolerance * D < 1 := by
    refine lt_of_le_of_lt (mul_le_mul_of_nonneg_left ?_ htolerance) hsmall
    exact le_self_pow₀ hdirections.one_le two_ne_zero
  have hzero : options.withoutTolerance.tolerance = 0 := rfl
  obtain ⟨answer, hanswer, -⟩ := exists_enumerate? (p := p) hzero
  refine ⟨answer, hanswer ▸ ?_, hanswer⟩
  rw [enumerate?, enumerate?, ← system, hsystem.independent?_withoutTolerance htolerance hlinear]
  refine Option.bind_congr fun result hresult => ?_
  cases result with
  | none => rfl
  | some s =>
    have hs := hsystem.independent hresult
    have hs' := hsystem.directions_independent hdirections hresult
    simp only [hs.vertices?_withoutTolerance htolerance hlinear]
    refine Option.bind_congr fun found hfound => ?_
    cases found with
    | error error => rfl
    | ok vertices =>
      simp only [leastVertex?_withoutTolerance hintegral
          (hs.commonDenominator_of_vertices? hfound) htolerance hsmall,
        improvingDirection?_withoutTolerance hintegral hs' htolerance hlinear]

theorem enumerate?_withoutTolerance_proportional : ∃ answer,
    proportional.enumerate? ⟨1/100, 2⟩ = some answer ∧
      proportional.enumerate? ⟨0, 2⟩ = some answer ∧
      answer.result = .ok (.optimal ⟨2, [0, 1], [1], ⟨0, 0⟩⟩) := by
  have hintegral : proportional.Integral :=
    ⟨by decide +kernel, by decide +kernel, by decide +kernel⟩
  have hminors (d : ℚ) (hd : (proportional.constraints.pushRow
      (List.replicate proportional.variableCount 1)).IsMinor d) : |d| ≤ 8 :=
    (hd.abs_le (b := 2) (by norm_num) (by decide +kernel)).trans (by decide +kernel)
  obtain ⟨answer, hanswer, hsame⟩ := proportional.enumerate?_withoutTolerance ⟨1/100, 2⟩ hintegral
    hminors (by decide +kernel) (by decide +kernel)
  have hrun : ((proportional.enumerate? ⟨1/100, 2⟩).map Answer.result) =
      some (.ok (.optimal ⟨2, [0, 1], [1], ⟨0, 0⟩⟩)) := by decide +kernel
  rw [hanswer, Option.map_some, Option.some.injEq] at hrun
  exact ⟨answer, hanswer, hsame, hrun⟩

end Problem

end SimplexMethod
