import Mathlib.Tactic
import SimplexMethod.Proofs.TwoPhase.Optimum
import SimplexMethod.Proofs.TwoPhase.Redundancy

/-!
# The program restated

Phase two works on the program itself, although it reads its tableaus off those of the artificial
problem without some rows and columns and with a new cost row (`Problem.phaseTwo?_restates`). The
constraint rows of each of its tableaus have the solutions of the constraints as they were given,
negative ones included, and on these solutions the cost is what the objective and the relative costs
say (`Problem.Restates`). A row that is taken out at the wrong place, or a cost that is charged to
the wrong row, would give a tableau of another program.

Both follow from what a tableau of the program states: its rows span the equations of the program,
and its cost row differs from the cost by one of them (`Problem.CanonicalProgram.restates`). The
point does not change when phase two is entered, since the variables that are left out are
artificial (`Problem.Reduced.basicSolution_restated`).
-/

set_option autoImplicit false

namespace SimplexMethod

open Tableau

namespace Tableau

variable {t : Tableau ℚ} {x : List ℚ}

/-- The values of the variables satisfy all constraint rows. -/
def Satisfies (t : Tableau ℚ) (x : List ℚ) : Prop :=
  ∀ i < t.rowCount, ∑ j ∈ Finset.range t.columnCount, t.entry i j * coeff x j = t.value i

/-- What satisfies the constraint rows satisfies all combinations of them. -/
theorem WellFormed.satisfies_iff (h : t.WellFormed) :
    t.Satisfies x ↔ ∀ v ∈ t.equations, gap t.columnCount (coeff x) v = 0 := by
  have hle : (t.equations ≤ LinearMap.ker (gap t.columnCount (coeff x))) ↔ _ :=
    h.equations_le_iff
  simp only [SetLike.le_def, LinearMap.mem_ker] at hle
  rw [Satisfies, hle]
  refine forall₂_congr fun i _ => ?_
  rw [gap_apply, leftSide_apply, sub_eq_zero, value]

end Tableau

namespace Problem

variable {p : Problem ℚ} {t : Tableau ℚ} {redundant : List Nat}

/-- The tableau is another form of the program: a vector satisfies its rows exactly when it
satisfies the constraints, and its cost is then the objective and what the variables that are not
basic add to it. -/
structure Restates (p : Problem ℚ) (t : Tableau ℚ) : Prop where
  shaped : t.Shaped t.rowCount p.variableCount 0
  satisfies_iff : ∀ x : List ℚ, x.length = p.variableCount →
    (t.Satisfies x ↔ p.constraints.mulVector x = p.values)
  dot_eq : ∀ x : List ℚ, x.length = p.variableCount → p.constraints.mulVector x = p.values →
    ∃ objective, t.objective? = some objective ∧ Scalar.dot p.minimizationCost x =
      objective + ∑ j ∈ Finset.range p.variableCount, t.relativeCost j * coeff x j
  relativeCost?_eq : ∀ j ∈ t.basis, t.relativeCost? j = some 0

namespace CanonicalProgram

theorem satisfies_iff (h : p.CanonicalProgram t) {x : List ℚ} (hx : x.length = p.variableCount) :
    t.Satisfies x ↔ p.constraints.mulVector x = p.values := by
  rw [h.wellFormed.satisfies_iff, h.states.equations_eq, h.columnCount_eq]
  exact p.rectangular.gap_eq_zero_iff p.values_length hx

/-- On the solutions of the constraints, the cost row and the cost agree. -/
theorem dot_eq (h : p.CanonicalProgram t) {x : List ℚ} (hx : x.length = p.variableCount)
    (heq : p.constraints.mulVector x = p.values) : Scalar.dot p.minimizationCost x =
      t.objective + ∑ j ∈ Finset.range p.variableCount, t.relativeCost j * coeff x j := by
  have hgap := h.states.gap_relativeCost ((p.rectangular.gap_eq_zero_iff p.values_length hx).2 heq)
  change gap p.variableCount _ _ = gap p.variableCount _ _ at hgap
  rw [gap_apply, gap_apply, coeff_minimizationCost_variableCount, sub_zero,
    ← dot_minimizationCost hx, leftSide_apply] at hgap
  rw [← hgap, objective, h.columnCount_eq]
  ring

theorem restates (h : p.CanonicalProgram t) : p.Restates t where
  shaped := ⟨h.wellFormed, rfl, h.columnCount_eq, h.artificials_eq⟩
  satisfies_iff := fun _ hx => h.satisfies_iff hx
  dot_eq := fun _ hx heq => ⟨_, h.wellFormed.objective?_eq, h.dot_eq hx heq⟩
  relativeCost?_eq := by
    intro j hj
    rw [h.wellFormed.relativeCost?_eq (h.wellFormed.basis_lt j hj).le]
    obtain ⟨i, hi, rfl⟩ := mem_basis_iff.1 hj
    rw [h.relativeCost_basic hi]

end CanonicalProgram

namespace Reduced

/-- A structural variable has the same value in both tableaus: only artificial variables are left
out. -/
theorem point_restated (h : p.Reduced t redundant) {j : Nat} (hj : j < t.structuralCount) :
    (t.restated redundant p).point j = t.point j := by
  have hwell := h.canonical.states.wellFormed
  have hwell' := h.canonical_restated.states.wellFormed
  by_cases hmem : j ∈ t.basis
  · obtain ⟨i, hi, rfl⟩ := mem_basis_iff.1 hmem
    have hnot : i ∉ redundant := fun hredundant =>
      not_isArtificial_iff.2 hj (h.nullRow i hredundant).artificial
    obtain ⟨k, hk, rfl⟩ := List.getElem_of_mem (mem_keptRows_iff.2 ⟨hi, hnot⟩)
    rw [point, point, hwell.scatter_basic _ hi, ← restated_basic (p := p) hk,
      hwell'.scatter_basic _ (hk.trans_eq restated_rowCount.symm), restated_value hk]
  · have hmem' : j ∉ (t.restated redundant p).basis := by
      rw [restated_basis, List.mem_map]
      rintro ⟨i, hi, rfl⟩
      exact hmem (basic_mem (mem_keptRows_iff.1 hi).1)
    rw [point, point, scatter_of_notMem _ hmem, scatter_of_notMem _ hmem']

/-- Phase two starts where phase one has ended. -/
theorem basicSolution_restated (h : p.Reduced t redundant) :
    (t.restated redundant p).basicSolution = t.basicSolution := by
  have hsize := CanonicalProgram.structuralCount_eq h.canonical_restated
  exact basicSolution_congr h.canonical.states.wellFormed h.canonical_restated.states.wellFormed
    (hsize.trans h.structuralCount_eq.symm) fun _ hj => h.point_restated hj

end Reduced

variable {options : Options ℚ} {rule : PivotRule}

/-- Without tolerance, the tableau that phase two starts from, and every tableau that it reaches,
is another form of the program, and the point from which it starts is the one at which phase one
ends. -/
theorem phaseTwo?_restates (htolerance : options.tolerance = 0) {one : Walk ℚ}
    (h : phaseOne? options rule p.artificialTableau = some ⟨one, .ok (.feasible redundant)⟩) :
    ∃ start two point, one.tableau.withCosts? redundant p = some start ∧
      one.tableau.basicSolution? = some point ∧ start.basicSolution? = some point ∧
      phaseTwo? options rule start = some two ∧ two.walk.start = start ∧
      two.walk.All p.Restates := by
  have hreduced : p.Reduced one.tableau redundant := reduced_of_phaseOne? htolerance h rfl
  have hcanonical := hreduced.canonical_restated
  have hwell := hcanonical.states.wellFormed
  obtain ⟨two, htwo⟩ := exists_phaseTwo? options rule hwell
  have hpoint := hwell.basicSolution?_eq
  rw [hreduced.basicSolution_restated] at hpoint
  exact ⟨_, two, _, hreduced.withCosts?_eq, hreduced.canonical.states.wellFormed.basicSolution?_eq,
    hpoint, htwo, (lawful_of_phaseTwo? hwell htwo).start_eq,
    (canonicalProgram_of_phaseTwo? htolerance hcanonical htwo).imp CanonicalProgram.restates⟩

/-- In the program with a redundant row, one pivot is made in phase two. A solution of the
constraints with a negative value satisfies the tableau after it, too. -/
theorem phaseTwo?_restates_overstated :
    ∃ one start two, phaseOne? ⟨10, 0⟩ .first overstated.artificialTableau =
        some ⟨one, .ok (.feasible [1])⟩ ∧
      one.tableau.withCosts? [1] overstated = some start ∧
      one.tableau.basicSolution? = some [2, 0, 1, 0] ∧
      start.basicSolution? = some [2, 0, 1, 0] ∧
      phaseTwo? ⟨10, 0⟩ .first start = some two ∧ two.walk.pivotCount = 1 ∧
      two.walk.All overstated.Restates ∧ two.walk.tableau.Satisfies [2, 0, 3, -2] := by
  have hrun : ((phaseOne? ⟨10, 0⟩ .first overstated.artificialTableau).bind fun one =>
      (one.walk.tableau.withCosts? [1] overstated).bind fun start =>
        (phaseTwo? ⟨10, 0⟩ .first start).map fun two =>
          (one.outcome, start.basicSolution?, two.walk.pivotCount)) =
      some (.ok (.feasible [1]), some [2, 0, 1, 0], 1) := by decide +kernel
  obtain ⟨⟨one, outcome⟩, hone, hrest⟩ := Option.bind_eq_some_iff.1 hrun
  obtain ⟨start, hstart, hrest⟩ := Option.bind_eq_some_iff.1 hrest
  obtain ⟨two, htwo, hrest⟩ := Option.map_eq_some_iff.1 hrest
  simp only [Prod.mk.injEq] at hrest
  obtain ⟨rfl, hpoint, hcount⟩ := hrest
  obtain ⟨start', two', point, hstart', hone', hpoint', htwo', -, hall⟩ :=
    phaseTwo?_restates rfl hone
  rw [hstart, Option.some.injEq] at hstart'
  subst hstart'
  rw [htwo, Option.some.injEq] at htwo'
  rw [hpoint, Option.some.injEq] at hpoint'
  subst htwo' hpoint'
  refine ⟨one, start, two, hone, hstart, hone', hpoint, htwo, hcount, hall, ?_⟩
  exact (hall.tableau.satisfies_iff [2, 0, 3, -2] rfl).2 (by decide +kernel)

end Problem

end SimplexMethod
