import Mathlib.Tactic
import SimplexMethod.Proofs.Problem.Feasible
import SimplexMethod.Proofs.TwoPhase.Optimum
import SimplexMethod.TwoPhase.Engine

/-!
# Verdicts of the two-phase method

With tolerance zero, every verdict of an engine is right, whatever its pivot rule, its pivot limit
and its listener are:

* an optimal solution is feasible, vanishes outside its basis, and no feasible point is better,
  which prices of the constraints certify (`Engine.solve?_optimal`);
* a program is found infeasible exactly when it has no feasible point, and then prices of the
  constraints refute it (`Engine.solve?_infeasible_iff`);
* the ray of an unbounded program starts at a feasible point, stays feasible, and improves the
  objective without limit (`Engine.solve?_unbounded`).

All three follow from what a run comes to (`Problem.run?_cases`).
-/

set_option autoImplicit false

namespace SimplexMethod

namespace Problem

variable {p : Problem ℚ} {options : Options ℚ} {rule : PivotRule}

/-- A run ends with refuted constraints, or at a tableau of the program off which the outcome is
read. -/
theorem run?_cases (htolerance : options.tolerance = 0) {run : Run ℚ} {outcome : Outcome ℚ}
    (h : p.run? options rule = some run) (hresult : run.result p = .ok outcome) :
    (outcome = .infeasible ∧ ∃ y, p.Refutes y) ∨
      ∃ t optimum pivots, p.CanonicalProgram t ∧ t.Finds optimum ∧
        outcome = optimum.outcome p pivots := by
  cases proceeds_of_run? h with
  | abandoned => cases hresult
  | infeasible hone =>
    cases hresult
    exact Or.inl ⟨rfl, exists_refutes_of_phaseOne? htolerance hone rfl⟩
  | @entered one redundant start two hone hstart htwo =>
    have hreduced := reduced_of_phaseOne? htolerance hone rfl
    rw [hreduced.withCosts?_eq, Option.some.injEq] at hstart
    subst hstart
    obtain ⟨two, error | optimum⟩ := two
    · cases hresult
    · cases hresult
      obtain ⟨hcanonical, hfinds⟩ :=
        phaseTwo?_cases htolerance hreduced.canonical_restated htwo rfl
      exact Or.inr ⟨_, optimum, _, hcanonical, hfinds, rfl⟩

end Problem

namespace Engine

variable {σ : Type} {engine engine' : Engine ℚ σ} {p : Problem ℚ} {answer : Answer ℚ}

/-- What an engine answers is what its run comes to. -/
theorem solve?_cases (htolerance : engine.options.tolerance = 0)
    (hsolve : engine.solve? p = some (answer, engine')) {outcome : Outcome ℚ}
    (hresult : answer.result = .ok outcome) :
    (outcome = .infeasible ∧ ∃ y, p.Refutes y) ∨
      ∃ t optimum pivots, p.CanonicalProgram t ∧ t.Finds optimum ∧
        outcome = optimum.outcome p pivots := by
  rw [solve?] at hsolve
  obtain ⟨run, hrun, h⟩ := Option.bind_eq_some_iff.1 hsolve
  obtain ⟨rfl, -⟩ := Prod.ext_iff.1 (Option.some.inj h)
  exact p.run?_cases htolerance hrun hresult

/-- An optimal solution is feasible, zero outside its basis, and optimal: prices of the constraints
bound the cost from below by the cost of the solution. -/
theorem solve?_optimal (htolerance : engine.options.tolerance = 0)
    (hsolve : engine.solve? p = some (answer, engine')) {s : Solution ℚ}
    (hresult : answer.result = .ok (.optimal s)) :
    p.Feasible s.values ∧ (∀ j ∉ s.basis, coeff s.values j = 0) ∧
      s.objective = Scalar.dot p.cost s.values ∧
      (∃ y, p.BoundedBy y (Scalar.dot p.minimizationCost s.values)) ∧
      ∀ x, p.Feasible x → ¬ p.direction.Better (Scalar.dot p.cost x) s.objective := by
  obtain ⟨houtcome, -⟩ | ⟨t, optimum, pivots, hcanonical, hfinds, houtcome⟩ :=
    solve?_cases htolerance hsolve hresult
  · cases houtcome
  cases optimum with
  | unbounded ray => cases houtcome
  | attained minimum values basis =>
    cases houtcome
    obtain ⟨hstay, rfl, rfl, rfl⟩ := hfinds
    have hdot := hcanonical.dot_basicSolution
    obtain ⟨y, hy⟩ := hcanonical.exists_boundedBy hstay
    refine ⟨hcanonical.feasible_basicSolution,
      fun j hj => hcanonical.coeff_basicSolution_eq_zero hj, ?_, ⟨y, hdot ▸ hy⟩,
      fun x hx hbetter => ?_⟩
    · show p.reported t.objective = Scalar.dot p.cost t.basicSolution
      rw [Problem.dot_cost, hdot]
    · rw [Problem.dot_cost] at hbetter
      exact (hy.le hx).not_gt (Problem.better_reported_iff.1 hbetter)

/-- An engine without tolerance to which nobody listens. -/
def exact : Engine ℚ Unit := ⟨⟨10, 0⟩, .first, .silent, ()⟩

/-- A constraint stated twice, the second time with the signs changed. -/
def repeated : Problem ℚ where
  constraints := ⟨[[1, 1, 1], [-1, -1, -1]], 3⟩
  values := [2, -2]
  minimizationCost := [-1, -2, 0]
  direction := .minimize
  rows_ne_nil := nofun
  columns_pos := Nat.succ_pos _
  rectangular := by simp [RowMatrix.Rectangular]
  values_length := rfl
  cost_length := rfl

theorem solve?_optimal_repeated : ∃ answer engine',
    exact.solve? repeated = some (answer, engine') ∧
      answer.result = .ok (.optimal ⟨-4, [0, 2, 0], [1], ⟨1, 1⟩⟩) ∧
      repeated.Feasible [0, 2, 0] ∧ ∃ y, repeated.BoundedBy y (-4) := by
  have hrun : ((exact.solve? repeated).map fun reply => reply.1.result) =
      some (.ok (.optimal ⟨-4, [0, 2, 0], [1], ⟨1, 1⟩⟩)) := by decide +kernel
  obtain ⟨⟨answer, engine'⟩, hsolve, hresult⟩ := Option.map_eq_some_iff.1 hrun
  obtain ⟨hfeasible, -, -, hbounded, -⟩ := solve?_optimal rfl hsolve hresult
  have hcost : Scalar.dot repeated.minimizationCost [0, 2, 0] = -4 := by decide +kernel
  exact ⟨answer, engine', hsolve, hresult, hfeasible, hcost ▸ hbounded⟩

/-- A program is found infeasible exactly when it has no feasible point, and then prices of its
constraints show it: no column has a positive price, but the right-hand side has one. -/
theorem solve?_infeasible_iff (htolerance : engine.options.tolerance = 0)
    (hsolve : engine.solve? p = some (answer, engine')) {outcome : Outcome ℚ}
    (hresult : answer.result = .ok outcome) :
    (outcome = .infeasible → ∃ y, p.Refutes y) ∧
      (outcome = .infeasible ↔ ∀ x, ¬ p.Feasible x) := by
  obtain ⟨rfl, y, hy⟩ | ⟨t, optimum, pivots, hcanonical, -, rfl⟩ :=
    solve?_cases htolerance hsolve hresult
  · exact ⟨fun _ => ⟨y, hy⟩, fun _ x => hy.not_feasible, fun _ => rfl⟩
  · have hne : optimum.outcome p pivots ≠ .infeasible := by cases optimum <;> nofun
    exact ⟨fun heq => absurd heq hne, fun heq => absurd heq hne,
      fun hempty => absurd hcanonical.feasible_basicSolution (hempty _)⟩

/-- Two values for the same left-hand side. -/
def contradictory : Problem ℚ :=
  { repeated with
    values := [2, 1]
    values_length := rfl }

theorem solve?_infeasible_contradictory : ∃ answer engine',
    exact.solve? contradictory = some (answer, engine') ∧
      answer.result = .ok .infeasible ∧ (∃ y, contradictory.Refutes y) ∧
      ∀ x, ¬ contradictory.Feasible x := by
  have hrun : ((exact.solve? contradictory).map fun reply => reply.1.result) =
      some (.ok .infeasible) := by decide +kernel
  obtain ⟨⟨answer, engine'⟩, hsolve, hresult⟩ := Option.map_eq_some_iff.1 hrun
  obtain ⟨hrefutes, hempty⟩ := solve?_infeasible_iff rfl hsolve hresult
  exact ⟨answer, engine', hsolve, hresult, hrefutes rfl, hempty.1 rfl⟩

/-- The ray of an unbounded program starts at a feasible point, its direction keeps all constraints
and improves the objective, and along it the objective changes evenly and passes every bound. -/
theorem solve?_unbounded (htolerance : engine.options.tolerance = 0)
    (hsolve : engine.solve? p = some (answer, engine')) {ray : Ray ℚ}
    (hresult : answer.result = .ok (.unbounded ray)) :
    p.Feasible ray.point ∧ p.Recedes ray.direction ∧
      p.direction.Better (Scalar.dot p.cost ray.direction) 0 ∧
      (∀ step, 0 ≤ step → p.Feasible (ray.along step) ∧
        Scalar.dot p.cost (ray.along step) =
          Scalar.dot p.cost ray.point + step * Scalar.dot p.cost ray.direction) ∧
      ∀ bound, ∃ step, 0 ≤ step ∧
        p.direction.Better (Scalar.dot p.cost (ray.along step)) bound := by
  obtain ⟨houtcome, -⟩ | ⟨t, optimum, pivots, hcanonical, hfinds, houtcome⟩ :=
    solve?_cases htolerance hsolve hresult
  · cases houtcome
  cases optimum with
  | attained minimum values basis => cases houtcome
  | unbounded ray =>
    cases houtcome
    obtain ⟨entering, column, hprofitable, hcolumn, hfall, rfl⟩ := hfinds
    have hpoint := hcanonical.feasible_basicSolution
    have hdirection := hcanonical.recedes hprofitable hcolumn hfall
    have himproves :
        p.direction.Better (Scalar.dot p.cost (t.directionOf entering column)) 0 := by
      rw [Problem.better_dot_zero_iff, hcanonical.dot_directionOf hprofitable hcolumn]
      exact hprofitable.cost_lt.trans_eq neg_zero
    exact ⟨hpoint, hdirection, himproves,
      fun step hstep => ⟨hpoint.along hdirection hstep, p.dot_cost_along hpoint hdirection step⟩,
      p.exists_better_along hpoint hdirection himproves⟩

/-- A difference that has to vanish, stated twice, and the objective to make the first variable
large. -/
def balanced : Problem ℚ where
  constraints := ⟨[[1, -1], [2, -2]], 2⟩
  values := [0, 0]
  minimizationCost := [-1, 0]
  direction := .maximize
  rows_ne_nil := nofun
  columns_pos := Nat.succ_pos _
  rectangular := by simp [RowMatrix.Rectangular]
  values_length := rfl
  cost_length := rfl

theorem solve?_unbounded_balanced : ∃ answer engine',
    exact.solve? balanced = some (answer, engine') ∧
      answer.result = .ok (.unbounded ⟨[0, 0], [1, 1]⟩) ∧ balanced.Recedes [1, 1] ∧
      ∀ bound, ∃ step, 0 ≤ step ∧
        bound < Scalar.dot balanced.cost (Ray.along ⟨[0, 0], [1, 1]⟩ step) := by
  have hrun : ((exact.solve? balanced).map fun reply => reply.1.result) =
      some (.ok (.unbounded ⟨[0, 0], [1, 1]⟩)) := by decide +kernel
  obtain ⟨⟨answer, engine'⟩, hsolve, hresult⟩ := Option.map_eq_some_iff.1 hrun
  obtain ⟨-, hrecedes, -, -, hbounds⟩ := solve?_unbounded rfl hsolve hresult
  exact ⟨answer, engine', hsolve, hresult, hrecedes, hbounds⟩

end Engine

end SimplexMethod
