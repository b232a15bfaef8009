import Mathlib.Tactic
import SimplexMethod.Proofs.TwoPhase.Progress
import SimplexMethod.Proofs.TwoPhase.Stages
import SimplexMethod.TwoPhase.Engine

/-!
# Bases of a run

What can be said about the tableaus of a run without knowing anything about the scalars
(`Engine.solve?_bases`). In phase one a row has a structural variable or its own artificial variable
as its basic variable (`Problem.Fits`); phase two knows no artificial variables and has no more rows
than there are constraints. All pivots are exchanges, so the rest follows from what a legal walk
keeps.
-/

set_option autoImplicit false

namespace SimplexMethod

variable {F : Type}

open Tableau

/-- The walks of a run, each with its phase. -/
def Run.walks : Run F → List (Phase × Walk F)
  | abandoned one _ => [(.one, one)]
  | infeasible one => [(.one, one)]
  | entered one _ two => [(.one, one), (.two, two.walk)]

namespace Problem

/-- The parts of the tableau fit together and have the sizes of a tableau of the phase, and in phase
one the artificial variable of a row is basic in this row only. -/
def Fits (p : Problem F) : Phase → Tableau F → Prop
  | .one, t =>
    t.Shaped p.constraintCount (p.variableCount + p.constraintCount) p.constraintCount ∧
      ∀ i j, t.basis[i]? = some j → j < p.variableCount ∨ j = p.variableCount + i
  | .two, t => ∃ rows ≤ p.constraintCount, t.Shaped rows p.variableCount 0

variable {p : Problem F} {phase : Phase} {t t' : Tableau F}

theorem Fits.wellFormed (h : p.Fits phase t) : t.WellFormed := by
  cases phase with
  | one => exact h.1.wellFormed
  | two =>
    obtain ⟨rows, -, hshaped⟩ := h
    exact hshaped.wellFormed

variable [Scalar F] {options : Options F} {rule : PivotRule}

theorem fits_artificialTableau : p.Fits .one p.artificialTableau := by
  refine ⟨shaped_artificialTableau, fun i j hj => Or.inr ?_⟩
  have hi : i < p.artificialTableau.rowCount := (List.getElem?_eq_some_iff.1 hj).1
  rw [basis_getElem?_eq hi, Option.some.injEq] at hj
  rw [← hj, artificialTableau_basic (artificialTableau_rowCount (p := p) ▸ hi)]

/-- An exchange puts a structural variable into a row and leaves the other rows as they are. -/
theorem Fits.exchanges {pivot : Pivot} (h : p.Fits phase t) (hexchanges : t.Exchanges pivot t') :
    p.Fits phase t' := by
  cases phase with
  | one =>
    obtain ⟨hshaped, hbasic⟩ := h
    refine ⟨hexchanges.shaped hshaped, fun i j hj => ?_⟩
    rw [hexchanges.basis_eq] at hj
    rcases eq_or_ne pivot.row i with rfl | hne
    · have hentering := hexchanges.structural
      rw [hshaped.structuralCount_eq, Nat.add_sub_cancel] at hentering
      rw [List.getElem?_set_self hexchanges.row_lt, Option.some.injEq] at hj
      exact Or.inl (hj ▸ hentering)
    · rw [List.getElem?_set_ne hne] at hj
      exact hbasic i j hj
  | two =>
    obtain ⟨rows, hrows, hshaped⟩ := h
    exact ⟨rows, hrows, hexchanges.shaped hshaped⟩

theorem Fits.all {w : Walk F} (hstart : p.Fits phase w.start) (h : w.Legal) :
    w.All (p.Fits phase) :=
  h.all (fun ht hexchanges => ht.exchanges hexchanges) hstart

/-- Phase one is a legal walk through tableaus that fit it. -/
theorem legal_of_phaseOne? {stage : Stage F Feasibility}
    (h : phaseOne? options rule p.artificialTableau = some stage) :
    stage.walk.Legal ∧ stage.walk.All (p.Fits .one) := by
  have hlawful := lawful_of_phaseOne? wellFormed_artificialTableau h
  exact ⟨hlawful.legal, (hlawful.start_eq ▸ fits_artificialTableau).all hlawful.legal⟩

/-- The artificial variable that is left in a redundant row is that of the row. -/
theorem basic_of_mem_redundant {one : Walk F} {redundant : List Nat}
    (h : phaseOne? options rule p.artificialTableau = some ⟨one, .ok (.feasible redundant)⟩)
    {i : Nat} (hi : i ∈ redundant) :
    i < p.constraintCount ∧ one.tableau.basic i = p.variableCount + i := by
  obtain ⟨-, hfits⟩ := legal_of_phaseOne? h
  obtain ⟨hshaped, hbasis⟩ := hfits.tableau
  have hsize := hshaped.structuralCount_eq
  rw [Nat.add_sub_cancel] at hsize
  rw [redundant_eq_of_phaseOne? options rule wellFormed_artificialTableau h,
    mem_artificialPlaces_iff] at hi
  obtain ⟨hlt, hart⟩ := hi
  refine ⟨hlt.trans_eq hshaped.rowCount_eq, ?_⟩
  rw [IsArtificial, hsize] at hart
  exact (hbasis i _ (basis_getElem?_eq hlt)).resolve_left hart.not_gt

/-- The tableau that phase two starts from fits it. -/
theorem fits_of_withCosts? {one : Walk F} {redundant : List Nat} {start : Tableau F}
    (hone : phaseOne? options rule p.artificialTableau = some ⟨one, .ok (.feasible redundant)⟩)
    (hstart : one.tableau.withCosts? redundant p = some start) : p.Fits .two start := by
  obtain ⟨start', rows, hstart', hrows, hshaped⟩ := withCosts?_of_phaseOne? hone
  rw [hstart, Option.some.injEq] at hstart'
  subst hstart'
  exact ⟨rows, hrows, hshaped⟩

/-- The walks of a run are legal and go through tableaus of their phases. -/
theorem legal_of_run? {run : Run F} (h : p.run? options rule = some run) {w : Walk F}
    (hw : (phase, w) ∈ run.walks) : w.Legal ∧ w.All (p.Fits phase) := by
  cases proceeds_of_run? h with
  | abandoned hone =>
    cases List.mem_singleton.1 hw
    exact legal_of_phaseOne? hone
  | infeasible hone =>
    cases List.mem_singleton.1 hw
    exact legal_of_phaseOne? hone
  | entered hone hstart htwo =>
    rcases List.mem_pair.1 hw with heq | heq <;> cases heq
    · exact legal_of_phaseOne? hone
    · have hfits := fits_of_withCosts? hone hstart
      have hlawful := lawful_of_phaseTwo? hfits.wellFormed htwo
      exact ⟨hlawful.legal, (hlawful.start_eq ▸ hfits).all hlawful.legal⟩

/-- The rows that are found redundant in a run are those in which an artificial variable is left. -/
theorem redundant_eq_of_run? {one : Walk F} {redundant : List Nat} {two : Stage F (Optimum F)}
    (h : p.run? options rule = some (.entered one redundant two)) :
    redundant = artificialPlaces p.variableCount one.tableau.basis := by
  have hwalk : (.one, one) ∈ (Run.entered one redundant two).walks := List.mem_cons_self
  obtain ⟨hshaped, -⟩ := (legal_of_run? h hwalk).2.tableau
  have hsize := hshaped.structuralCount_eq
  rw [Nat.add_sub_cancel] at hsize
  rw [← hsize]
  cases proceeds_of_run? h with
  | entered hone =>
    exact redundant_eq_of_phaseOne? options rule wellFormed_artificialTableau hone

/-- The basis of an optimal solution is that of the last tableau of phase two. -/
theorem basis_of_run? {run : Run F} (h : p.run? options rule = some run) {s : Solution F}
    (hresult : run.result p = .ok (.optimal s)) :
    ∃ w, (.two, w) ∈ run.walks ∧ s.basis = w.tableau.basis := by
  cases proceeds_of_run? h with
  | abandoned => cases hresult
  | infeasible => cases hresult
  | entered _ _ htwo =>
    obtain ⟨w, ending, -, hconcludes⟩ := concludes_of_phaseTwo? htwo
    cases hconcludes <;> cases hresult
    exact ⟨w, List.mem_pair.2 (Or.inr rfl), rfl⟩

/-- A run that is given up at the pivot limit has made as many pivots in the phase as it says. -/
theorem walk_of_pivotLimit {run : Run F} (h : p.run? options rule = some run) {limit : Nat}
    (hresult : run.result p = .error (.pivotLimit phase limit)) :
    ∃ w, (phase, w) ∈ run.walks ∧ w.pivotCount = limit := by
  cases proceeds_of_run? h with
  | infeasible => cases hresult
  | abandoned hone =>
    cases hresult
    have hlawful := lawful_of_phaseOne? wellFormed_artificialTableau hone
    rcases hlawful.error_eq _ rfl with heq | ⟨-, heq⟩
    · obtain ⟨rfl, hlimit⟩ := SolveError.pivotLimit.inj heq
      exact ⟨_, List.mem_singleton.2 rfl, hlimit.symm⟩
    · cases heq
  | @entered one redundant start two hone hstart htwo =>
    have hlawful := lawful_of_phaseTwo? (fits_of_withCosts? hone hstart).wellFormed htwo
    obtain ⟨w, error | optimum⟩ := two
    · cases hresult
      rcases hlawful.error_eq _ rfl with heq | ⟨-, heq⟩
      · obtain ⟨rfl, hlimit⟩ := SolveError.pivotLimit.inj heq
        exact ⟨w, List.mem_pair.2 (Or.inr rfl), hlimit.symm⟩
      · cases heq
    · cases hresult

end Problem

/-- Whatever the scalars are, every pivot of a run brings in a structural variable that is not
basic, in place of the variable that is basic in the row. All tableaus of the run fit their phase,
an artificial variable that has left the basis does not come back, and the basis of a solution
consists of distinct variables of the program, one for each constraint at most. -/
theorem Engine.solve?_bases [Scalar F] {σ : Type} (engine : Engine F σ) (p : Problem F) :
    ∃ run answer engine', p.run? engine.options engine.rule = some run ∧
      engine.solve? p = some (answer, engine') ∧
      (∀ phase w, (phase, w) ∈ run.walks → w.Legal ∧ w.All (p.Fits phase) ∧
        w.tableaus.Pairwise fun t t' => ∀ j, t.IsArtificial j → j ∈ t'.basis → j ∈ t.basis) ∧
      ∀ s, answer.result = .ok (.optimal s) →
        s.basis.Nodup ∧ s.basis.length ≤ p.constraintCount ∧ ∀ j ∈ s.basis, j < p.variableCount := by
  obtain ⟨run, hrun⟩ := p.exists_run? engine.options engine.rule
  refine ⟨run, _, _, hrun, by rw [solve?, hrun]; rfl, fun phase w hw => ?_, fun s hs => ?_⟩
  · obtain ⟨hlegal, hfits⟩ := Problem.legal_of_run? hrun hw
    exact ⟨hlegal, hfits, hlegal.pairwise_tableaus hfits.1.wellFormed⟩
  · obtain ⟨w, hw, hbasis⟩ := Problem.basis_of_run? hrun hs
    obtain ⟨rows, hrows, hshaped⟩ := (Problem.legal_of_run? hrun hw).2.tableau
    have hlength : w.tableau.basis.length = rows := hshaped.rowCount_eq
    rw [hbasis]
    exact ⟨hshaped.wellFormed.nodup, hlength.trans_le hrows,
      fun j hj => (hshaped.wellFormed.basis_lt j hj).trans_eq hshaped.columnCount_eq⟩

end SimplexMethod
