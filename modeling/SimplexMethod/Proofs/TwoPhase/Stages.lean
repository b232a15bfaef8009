import Mathlib.Tactic
import SimplexMethod.Proofs.Tableau.Writing
import SimplexMethod.Proofs.TwoPhase.Walks
import SimplexMethod.TwoPhase.Run

/-!
# Stages

How the phases and the runs of the method go: which descents, tests and expulsions lead to which
stage (`concludes_of_phaseOne?`, `concludes_of_phaseTwo?`), and which stages make up which run
(`Problem.proceeds_of_run?`). What holds of every stage follows by cases: it is a legal walk from
its first tableau that keeps to the pivot limit, and an error says what it was given up for
(`Stage.Lawful`).
-/

set_option autoImplicit false

namespace SimplexMethod

variable {F : Type} [Scalar F] {options : Options F} {rule : PivotRule}

open Tableau

/-! ## Phase one -/

/-- The stage that phase one comes to after a descent with the given end. -/
inductive PhaseOne.Concludes (options : Options F) (w : Walk F) :
    Descent F → Stage F Feasibility → Prop where
  | limited : Concludes options w .limit ⟨w, .error (.pivotLimit .one w.pivotCount)⟩
  | unbounded {entering : Nat} {column : List F} :
      Concludes options w (.unbounded entering column) ⟨w, .error .artificialUnbounded⟩
  | infeasible {objective : F} (objective?_eq : w.tableau.objective? = some objective)
      (large : options.tolerance < Scalar.abs objective) :
      Concludes options w .optimal ⟨w, .ok .infeasible⟩
  | structural {objective : F} (objective?_eq : w.tableau.objective? = some objective)
      (small : ¬ options.tolerance < Scalar.abs objective)
      (basic : ¬ w.tableau.hasArtificialBasic = true) :
      Concludes options w .optimal ⟨w, .ok (.feasible [])⟩
  | cutShort {objective : F} {w' : Walk F} (objective?_eq : w.tableau.objective? = some objective)
      (small : ¬ options.tolerance < Scalar.abs objective)
      (expel?_eq : expel? options (List.range w.tableau.rowCount) w = some (w', none)) :
      Concludes options w .optimal ⟨w', .error (.pivotLimit .one w'.pivotCount)⟩
  | expelled {objective : F} {w' : Walk F} {redundant : List Nat}
      (objective?_eq : w.tableau.objective? = some objective)
      (small : ¬ options.tolerance < Scalar.abs objective)
      (expel?_eq : expel? options (List.range w.tableau.rowCount) w = some (w', some redundant)) :
      Concludes options w .optimal ⟨w', .ok (.feasible redundant)⟩

theorem concludes_of_phaseOne? {start : Tableau F} {stage : Stage F Feasibility}
    (h : phaseOne? options rule start = some stage) :
    ∃ w ending, descend? rule options.tolerance options.pivotLimit (.startingAt start) =
      some (w, ending) ∧ PhaseOne.Concludes options w ending stage := by
  rw [phaseOne?] at h
  obtain ⟨⟨w, ending⟩, hdescend, h⟩ := Option.bind_eq_some_iff.1 h
  refine ⟨w, ending, hdescend, ?_⟩
  cases ending with
  | limit =>
    cases Option.some.inj h
    exact .limited
  | unbounded entering column =>
    cases Option.some.inj h
    exact .unbounded
  | optimal =>
    obtain ⟨objective, hobjective, h⟩ := Option.bind_eq_some_iff.1 h
    split at h
    · next hlarge =>
      cases Option.some.inj h
      exact .infeasible hobjective hlarge
    · next hsmall =>
      split at h
      · obtain ⟨⟨w', result⟩, hexpel, h⟩ := Option.bind_eq_some_iff.1 h
        cases result with
        | none =>
          cases Option.some.inj h
          exact .cutShort hobjective hsmall hexpel
        | some redundant =>
          cases Option.some.inj h
          exact .expelled hobjective hsmall hexpel
      · next hbasic =>
        cases Option.some.inj h
        exact .structural hobjective hsmall hbasic

/-! ## Phase two -/

/-- The stage that phase two comes to after a descent with the given end. -/
inductive PhaseTwo.Concludes (w : Walk F) : Descent F → Stage F (Optimum F) → Prop where
  | limited : Concludes w .limit ⟨w, .error (.pivotLimit .two w.pivotCount)⟩
  | unbounded {entering : Nat} {column direction point : List F}
      (direction?_eq : w.tableau.direction? entering column = some direction)
      (basicSolution?_eq : w.tableau.basicSolution? = some point) :
      Concludes w (.unbounded entering column) ⟨w, .ok (.unbounded ⟨point, direction⟩)⟩
  | attained {minimum : F} {values : List F} (objective?_eq : w.tableau.objective? = some minimum)
      (basicSolution?_eq : w.tableau.basicSolution? = some values) :
      Concludes w .optimal ⟨w, .ok (.attained minimum values w.tableau.basis)⟩

theorem concludes_of_phaseTwo? {start : Tableau F} {stage : Stage F (Optimum F)}
    (h : phaseTwo? options rule start = some stage) :
    ∃ w ending, descend? rule options.tolerance options.pivotLimit (.startingAt start) =
      some (w, ending) ∧ PhaseTwo.Concludes w ending stage := by
  rw [phaseTwo?] at h
  obtain ⟨⟨w, ending⟩, hdescend, h⟩ := Option.bind_eq_some_iff.1 h
  refine ⟨w, ending, hdescend, ?_⟩
  cases ending with
  | limit =>
    cases Option.some.inj h
    exact .limited
  | unbounded entering column =>
    obtain ⟨direction, hdirection, h⟩ := Option.bind_eq_some_iff.1 h
    obtain ⟨point, hpoint, h⟩ := Option.bind_eq_some_iff.1 h
    cases Option.some.inj h
    exact .unbounded hdirection hpoint
  | optimal =>
    obtain ⟨minimum, hminimum, h⟩ := Option.bind_eq_some_iff.1 h
    obtain ⟨values, hvalues, h⟩ := Option.bind_eq_some_iff.1 h
    cases Option.some.inj h
    exact .attained hminimum hvalues

/-! ## Runs -/

/-- A run starts from the tableau of the artificial problem. -/
theorem Problem.run?_eq (p : Problem F) (options : Options F) (rule : PivotRule) :
    p.run? options rule = p.runFrom? options rule p.artificialTableau := by
  rw [run?, p.artificialTableau?_eq]
  rfl

/-- The run is made up of stages of the method on the program. -/
inductive Problem.Proceeds (p : Problem F) (options : Options F) (rule : PivotRule) :
    Run F → Prop where
  | abandoned {one : Walk F} {error : SolveError}
      (phaseOne?_eq : phaseOne? options rule p.artificialTableau = some ⟨one, .error error⟩) :
      Proceeds p options rule (.abandoned one error)
  | infeasible {one : Walk F}
      (phaseOne?_eq : phaseOne? options rule p.artificialTableau = some ⟨one, .ok .infeasible⟩) :
      Proceeds p options rule (.infeasible one)
  | entered {one : Walk F} {redundant : List Nat} {start : Tableau F} {two : Stage F (Optimum F)}
      (phaseOne?_eq : phaseOne? options rule p.artificialTableau =
        some ⟨one, .ok (.feasible redundant)⟩)
      (withCosts?_eq : one.tableau.withCosts? redundant p = some start)
      (phaseTwo?_eq : phaseTwo? options rule start = some two) :
      Proceeds p options rule (.entered one redundant two)

theorem Problem.proceeds_of_run? {p : Problem F} {run : Run F}
    (h : p.run? options rule = some run) : p.Proceeds options rule run := by
  rw [run?_eq, runFrom?] at h
  obtain ⟨⟨one, outcome⟩, hone, h⟩ := Option.bind_eq_some_iff.1 h
  rcases outcome with error | _ | redundant
  · cases Option.some.inj h
    exact .abandoned hone
  · obtain ⟨start, hstart, h⟩ := Option.bind_eq_some_iff.1 h
    obtain ⟨two, htwo, h⟩ := Option.bind_eq_some_iff.1 h
    cases Option.some.inj h
    exact .entered hone hstart htwo
  · cases Option.some.inj h
    exact .infeasible hone

/-! ## What holds of every stage -/

/-- The stage is a legal walk from its first tableau that keeps to the pivot limit. It is given up
at a pivot that is not allowed, or in phase one also because nothing limits a column. -/
structure Stage.Lawful {α : Type} (stage : Stage F α) (phase : Phase) (start : Tableau F)
    (limit : Nat) : Prop where
  start_eq : stage.walk.start = start
  legal : stage.walk.Legal
  pivotCount_le : stage.walk.pivotCount ≤ limit
  error_eq : ∀ error, stage.outcome = .error error →
    error = .pivotLimit phase stage.walk.pivotCount ∨ phase = .one ∧ error = .artificialUnbounded

/-- The tableaus of a stage have the shape of the first one. -/
theorem Stage.Lawful.shaped {α : Type} {stage : Stage F α} {phase : Phase} {start : Tableau F}
    {limit rows columns artificials : Nat} (h : stage.Lawful phase start limit)
    (hstart : start.Shaped rows columns artificials) :
    stage.walk.All (·.Shaped rows columns artificials) :=
  h.legal.shaped (h.start_eq ▸ hstart)

section Lawful

variable {start : Tableau F} {w : Walk F} {ending : Descent F}

/-- A descent from a tableau is a legal walk from it that keeps to the limit. -/
theorem legal_of_descend?_startingAt {allowed : Nat} {tolerance : F} (hstart : start.WellFormed)
    (h : descend? rule tolerance allowed (.startingAt start) = some (w, ending)) :
    w.start = start ∧ w.Legal ∧ w.pivotCount ≤ allowed ∧ w.tableau.WellFormed := by
  obtain ⟨hlegal, hwell, heq⟩ := legal_of_descend? (.startingAt start) hstart h
  have hcount := pivotCount_le_of_descend? h
  exact ⟨heq, hlegal, hcount.trans_eq (Nat.zero_add _), hwell⟩

theorem lawful_of_phaseOne? (hstart : start.WellFormed) {stage : Stage F Feasibility}
    (h : phaseOne? options rule start = some stage) :
    stage.Lawful .one start options.pivotLimit := by
  obtain ⟨w, ending, hdescend, hconcludes⟩ := concludes_of_phaseOne? h
  obtain ⟨heq, hlegal, hcount, hwell⟩ := legal_of_descend?_startingAt hstart hdescend
  -- What expelling makes of the walk when it gets to its end, or is cut short.
  have hexpel {w' : Walk F} {result : Option (List Nat)}
      (hresult : expel? options (List.range w.tableau.rowCount) w = some (w', result)) :
      w'.start = start ∧ w'.Legal ∧ w'.pivotCount ≤ options.pivotLimit := by
    have hrows : ∀ row ∈ List.range w.tableau.rowCount, row < w.tableau.rowCount :=
      fun row hrow => List.mem_range.1 hrow
    obtain ⟨hlegal', heq'⟩ := legal_of_expel? hlegal hwell hrows hresult
    exact ⟨heq'.trans heq, hlegal', pivotCount_le_of_expel? hwell hrows hcount hresult⟩
  cases hconcludes with
  | limited => exact ⟨heq, hlegal, hcount, by rintro error ⟨⟩; exact Or.inl rfl⟩
  | unbounded => exact ⟨heq, hlegal, hcount, by rintro error ⟨⟩; exact Or.inr ⟨rfl, rfl⟩⟩
  | infeasible => exact ⟨heq, hlegal, hcount, by rintro error ⟨⟩⟩
  | structural => exact ⟨heq, hlegal, hcount, by rintro error ⟨⟩⟩
  | cutShort _ _ hresult =>
    obtain ⟨heq, hlegal, hcount⟩ := hexpel hresult
    exact ⟨heq, hlegal, hcount, by rintro error ⟨⟩; exact Or.inl rfl⟩
  | expelled _ _ hresult =>
    obtain ⟨heq, hlegal, hcount⟩ := hexpel hresult
    exact ⟨heq, hlegal, hcount, by rintro error ⟨⟩⟩

theorem lawful_of_phaseTwo? (hstart : start.WellFormed) {stage : Stage F (Optimum F)}
    (h : phaseTwo? options rule start = some stage) :
    stage.Lawful .two start options.pivotLimit := by
  obtain ⟨w, ending, hdescend, hconcludes⟩ := concludes_of_phaseTwo? h
  obtain ⟨heq, hlegal, hcount, -⟩ := legal_of_descend?_startingAt hstart hdescend
  cases hconcludes with
  | limited => exact ⟨heq, hlegal, hcount, by rintro error ⟨⟩; exact Or.inl rfl⟩
  | unbounded => exact ⟨heq, hlegal, hcount, by rintro error ⟨⟩⟩
  | attained => exact ⟨heq, hlegal, hcount, by rintro error ⟨⟩⟩

end Lawful

end SimplexMethod
