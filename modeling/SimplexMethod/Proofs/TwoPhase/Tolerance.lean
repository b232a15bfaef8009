import Mathlib.Tactic
import SimplexMethod.Proofs.Problem.Integral
import SimplexMethod.Proofs.Tableau.Fractions
import SimplexMethod.Proofs.TwoPhase.Boundedness
import SimplexMethod.Proofs.TwoPhase.Verdicts

/-!
# Tolerances that make no difference

On a program of integers, the two-phase method with a tolerance that is small compared with the
square minors of the constraints does exactly what it does without tolerance
(`Engine.solve?_withoutTolerance`): it makes the same pivots, gives the same answer, and its
listener hears the same notices.

All tableaus of both phases have determinants of the constraints as denominators, so the tolerance
resolves them (`PresentsArtificial.resolved`, `PresentsProgram.resolved`). The descents, the
verdict of phase one and the replacement of artificial variables are then the same one by
one (`descend?_congr`, `expel?_withoutTolerance`, `phaseOne?_withoutTolerance`), and that the
redundant rows can be left out is known from the run without tolerance.
-/

set_option autoImplicit false

namespace SimplexMethod

open Tableau

/-- The same limit, and no tolerance. -/
def Options.withoutTolerance (options : Options ℚ) : Options ℚ := { options with tolerance := 0 }

theorem Options.tolerance_withoutTolerance (options : Options ℚ) :
    options.withoutTolerance.tolerance = 0 := rfl

theorem Options.pivotLimit_withoutTolerance (options : Options ℚ) :
    options.withoutTolerance.pivotLimit = options.pivotLimit := rfl

namespace Problem

variable {p : Problem ℚ} {t : Tableau ℚ} {options : Options ℚ} {rule : PivotRule} {tolerance : ℚ}

/-- The data are integers, and the tolerance is small compared with all square minors of the
constraints. -/
structure Resolves (p : Problem ℚ) (tolerance : ℚ) : Prop where
  nonneg : 0 ≤ tolerance
  integral : p.Integral
  minors : ∀ d, p.constraints.IsMinor d → tolerance * |d| < 1

/-- The tableau states the program. -/
abbrev PresentsProgram (p : Problem ℚ) (t : Tableau ℚ) : Prop :=
  t.Presents p.equations (coeff p.minimizationCost) p.variableCount 0

/-! ## Resolved tableaus -/

theorem PresentsProgram.resolved (h : p.PresentsProgram t) (hp : p.Resolves tolerance) :
    t.Resolved tolerance := by
  obtain ⟨f, hmem, hdet, hfractions⟩ := h.states.exists_fractions hp.integral.coeff_constraint
    (coeff_mem_integers hp.integral.minimizationCost)
  refine hfractions.resolved hp.nonneg hdet ?_
  refine RowMatrix.forall_abs_det_block (P := fun d => tolerance * d < 1) (by norm_num) hp.minors
    (fun k => p.rectangular.extends_of_mem_augmented (hmem k)) fun i => ?_
  exact (h.wellFormed.basic_lt i.2).trans_eq h.columnCount_eq

theorem PresentsArtificial.resolved (h : p.PresentsArtificial t) (hp : p.Resolves tolerance) :
    t.Resolved tolerance := by
  have hstates : t.States (rowSpan p.artificialRows) p.artificialCost := h.states
  obtain ⟨f, hmem, hdet, hfractions⟩ := hstates.exists_fractions hp.integral.coeff_artificialRows
    hp.integral.artificialCost
  refine hfractions.resolved hp.nonneg hdet ?_
  have hrows (k : Fin t.rowCount) :
      ∃ i : Fin p.constraintCount, p.artificialRows[i]? = some (f k) := by
    obtain ⟨i, hi⟩ := List.mem_iff_getElem?.1 (hmem k)
    exact ⟨⟨i, length_artificialRows (p := p) ▸ (List.getElem?_eq_some_iff.1 hi).1⟩, hi⟩
  -- The equations are rows of the artificial problem, so the determinant is one of its own.
  choose rows hrows using hrows
  have hblock : RowMatrix.block f (fun i => t.basic i) =
      p.artificialBlock rows fun i => t.basic i := by
    ext k i
    exact (RowMatrix.entry_eq_of_getElem? (i := rows k + 1) (hrows k)).symm
  rw [hblock]
  refine forall_abs_det_artificial (P := fun d => tolerance * d < 1) (by norm_num) hp.minors rows
    fun i => ?_
  exact (h.wellFormed.basic_lt i.2).trans_eq h.columnCount_eq

/-! ## Phases -/

/-- The descents of both phases are those without tolerance. -/
theorem descend?_withoutTolerance (rule : PivotRule) (allowed : Nat)
    {W : Submodule ℚ (ℕ → ℚ)} {cost : ℕ → ℚ} {columns artificials : Nat} {w : Walk ℚ}
    (htolerance : 0 ≤ tolerance)
    (hresolved : ∀ t : Tableau ℚ, t.Presents W cost columns artificials → t.Resolved tolerance)
    (hw : w.tableau.Presents W cost columns artificials) :
    descend? rule tolerance allowed w = descend? rule 0 allowed w := by
  refine descend?_congr (P := (·.Presents W cost columns artificials))
    (fun ht hmove hbring => ht.move htolerance hmove hbring) (fun t ht => ?_) hw
  rw [ht.wellFormed.move?_eq, ht.wellFormed.move?_eq, (hresolved t ht).move_eq]

/-- Expelling is the same without tolerance. The induction is on the rows. -/
theorem expel?_withoutTolerance (hp : p.Resolves options.tolerance) {rows : List Nat} {w : Walk ℚ}
    (hw : p.PresentsArtificial w.tableau) (hrows : ∀ row ∈ rows, row < w.tableau.rowCount) :
    expel? options rows w = expel? options.withoutTolerance rows w := by
  induction rows generalizing w with
  | nil => rfl
  | cons row rows ih =>
    obtain ⟨hrow, hrest⟩ := List.forall_mem_cons.1 hrows
    have hsame := (hw.resolved hp).replacement_eq hrow
    rw [expel?_cons hw.wellFormed hrow, expel?_cons hw.wellFormed hrow, ih hw hrest, hsame,
      options.tolerance_withoutTolerance, options.pivotLimit_withoutTolerance]
    split
    · cases hchoice : w.tableau.replacement row 0 with
      | none => rfl
      | some entering =>
        -- A replacement that is brought in leaves a tableau of the artificial problem again.
        obtain ⟨hlt, hnew, hlarge⟩ := hw.wellFormed.replacement_bounds hchoice
        rw [Scalar.negligible_zero_iff] at hlarge
        have hnext : p.PresentsArtificial (w.pivot entering row).tableau :=
          hw.bringIn hlt hnew hrow hlarge
        dsimp only
        rw [ih hnext (by rwa [Walk.tableau_pivot, bringIn_rowCount])]
    · rfl

/-- Phase one is the same without tolerance. -/
theorem phaseOne?_withoutTolerance (hp : p.Resolves options.tolerance) :
    phaseOne? options rule p.artificialTableau =
      phaseOne? options.withoutTolerance rule p.artificialTableau := by
  have hdescend := descend?_withoutTolerance rule options.pivotLimit
    (w := .startingAt p.artificialTableau) hp.nonneg (fun _ ht => PresentsArtificial.resolved ht hp)
    presentsArtificial_artificialTableau
  rw [phaseOne?, phaseOne?, options.tolerance_withoutTolerance,
    options.pivotLimit_withoutTolerance, hdescend]
  refine Option.bind_congr fun found hw => ?_
  obtain ⟨w, ending⟩ := found
  have hpresents := (presentsArtificial_of_descend? le_rfl hw).1.tableau
  cases ending with
  | limit => rfl
  | unbounded entering column => rfl
  | optimal =>
    -- The descent ends at a resolved tableau, where the verdict and the expulsion are the same.
    have hrows : ∀ row ∈ List.range w.tableau.rowCount, row < w.tableau.rowCount :=
      fun row hrow => List.mem_range.1 hrow
    simp only [hpresents.wellFormed.objective?_eq, Option.bind_eq_bind, Option.bind_some,
      (hpresents.resolved hp).lt_abs_objective_iff, expel?_withoutTolerance hp hpresents hrows]

/-- Phase two from a tableau of the program is the same without tolerance. -/
theorem phaseTwo?_withoutTolerance (hp : p.Resolves options.tolerance)
    (ht : p.PresentsProgram t) :
    phaseTwo? options rule t = phaseTwo? options.withoutTolerance rule t := by
  have hdescend := descend?_withoutTolerance rule options.pivotLimit (w := .startingAt t)
    hp.nonneg (fun _ ht => PresentsProgram.resolved ht hp) ht
  rw [phaseTwo?, phaseTwo?, options.tolerance_withoutTolerance,
    options.pivotLimit_withoutTolerance, hdescend]

/-- A run is the same without tolerance. -/
theorem run?_withoutTolerance (rule : PivotRule) (hp : p.Resolves options.tolerance) :
    p.run? options rule = p.run? options.withoutTolerance rule := by
  rw [run?_eq, run?_eq, runFrom?, runFrom?, phaseOne?_withoutTolerance hp]
  refine Option.bind_congr fun one hone => ?_
  cases hfound : one.outcome with
  | error error => rfl
  | ok feasibility =>
    cases feasibility with
    | infeasible => rfl
    | feasible redundant =>
      -- The stage is one without tolerance, so its redundant rows are null.
      have hreduced := reduced_of_phaseOne? options.tolerance_withoutTolerance hone hfound
      simp only [hreduced.withCosts?_eq, Option.bind_eq_bind, Option.bind_some,
        phaseTwo?_withoutTolerance hp hreduced.canonical_restated.presents]

/-- What comes up in a run depends on the limit only. -/
theorem record_withoutTolerance (p : Problem ℚ) (options : Options ℚ) (run : Run ℚ) :
    run.record p options = run.record p options.withoutTolerance := by
  cases run with
  | abandoned one error => cases error <;> rfl
  | infeasible one => rfl
  | entered one redundant two =>
    simp only [Run.record]
    cases two.outcome with
    | error error => cases error <;> rfl
    | ok optimum => rfl

end Problem

namespace Engine

variable {σ : Type}

/-- The engine with the same limit and no tolerance. -/
def withoutTolerance (engine : Engine ℚ σ) : Engine ℚ σ :=
  { engine with options := engine.options.withoutTolerance }

/-- On a program of integers, a tolerance that is small compared with all square minors of the
constraints makes no difference: an engine gives the same answer as without tolerance and brings
its listener, whatever that does with the notices of a run, to the same state. -/
theorem solve?_withoutTolerance (engine : Engine ℚ σ) (p : Problem ℚ) (hintegral : p.Integral)
    (htolerance : 0 ≤ engine.options.tolerance)
    (hminors : ∀ d, p.constraints.IsMinor d → engine.options.tolerance * |d| < 1) :
    ∃ answer state, engine.solve? p = some (answer, { engine with state }) ∧
      engine.withoutTolerance.solve? p =
        some (answer, { engine.withoutTolerance with state }) := by
  obtain ⟨run, hrun⟩ := p.exists_run? engine.options engine.rule
  have hsame := p.run?_withoutTolerance engine.rule ⟨htolerance, hintegral, hminors⟩
  rw [hrun] at hsame
  have hrecord := p.record_withoutTolerance engine.options run
  refine ⟨_, _, by rw [solve?, hrun]; rfl, ?_⟩
  rw [solve?, withoutTolerance, ← hsame, hrecord]
  rfl

/-- An engine that counts a third as zero and keeps the history. -/
def rough : Engine ℚ History := ⟨⟨10, 1/3⟩, .steepest, .history, ∅⟩

theorem solve?_withoutTolerance_repeated : ∃ answer state,
    rough.solve? repeated = some (answer, { rough with state }) ∧
      rough.withoutTolerance.solve? repeated =
        some (answer, { rough.withoutTolerance with state }) ∧
      answer.result = .ok (.optimal ⟨-4, [0, 2, 0], [1], ⟨1, 1⟩⟩) ∧
      state.events.size = 6 := by
  have hintegral : repeated.Integral := ⟨by decide +kernel, by decide +kernel, by decide +kernel⟩
  have hminors (d : ℚ) (hd : repeated.constraints.IsMinor d) : 1/3 * |d| < 1 := by
    have hle := hd.abs_le (b := 1) le_rfl (by decide +kernel)
    have hbound : ((min repeated.constraints.rowCount repeated.constraints.columns).factorial *
        1 ^ min repeated.constraints.rowCount repeated.constraints.columns : ℚ) = 2 := by
      decide +kernel
    rw [hbound] at hle
    linarith
  obtain ⟨answer, state, hsolve, hsame⟩ :=
    rough.solve?_withoutTolerance repeated hintegral (by decide +kernel) hminors
  have hrun : ((rough.solve? repeated).map fun reply =>
      (reply.1.result, reply.2.state.events.size)) =
        some (.ok (.optimal ⟨-4, [0, 2, 0], [1], ⟨1, 1⟩⟩), 6) := by decide +kernel
  rw [hsolve, Option.map_some, Option.some.injEq, Prod.mk.injEq] at hrun
  exact ⟨answer, state, hsolve, hsame, hrun.1, hrun.2⟩

end Engine

end SimplexMethod
