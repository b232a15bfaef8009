import Mathlib.Tactic
import SimplexMethod.Proofs.Enumeration.Directions

/-!
# Verdicts of the enumeration

With tolerance zero, looking at all vertices and all extreme rays never fails. Unless there are too
many of them for the limit, it tells exactly whether a program has no feasible point, has an
objective that improves without limit, or has an optimum, and in the last two cases what it reports
is right (`Problem.enumerate?_exact`).

Each of the searches is described on its own: that for the vertices (`System.vertices?_cases`), that
for the best of them (`Problem.leastVertex?_cases`) and that for an improving direction
(`Problem.improvingDirection?_cases`). Together they give a right answer
(`Problem.exists_enumerate?`), which is the only right one.
-/

set_option autoImplicit false

namespace SimplexMethod

variable {options : EnumerationOptions ℚ}

/-- The search was not made because it would have gone over the limit. -/
def EnumerationOptions.Exceeded (options : EnumerationOptions ℚ) (error : SolveError) : Prop :=
  ∃ bases, error = .enumerationLimit bases ∧ options.basisLimit < bases

/-- All vertices of a regular system are found, unless there are too many choices of columns. -/
theorem System.vertices?_cases {s : System ℚ} (h : s.Regular) (htolerance : options.tolerance = 0) :
    (∃ error, s.vertices? options = some (.error error) ∧ options.Exceeded error) ∨
      ∃ vertices, s.vertices? options = some (.ok vertices) ∧ s.Lists vertices := by
  rw [vertices?, htolerance]
  split
  · next hlimit => exact Or.inl ⟨_, rfl, _, rfl, hlimit⟩
  · obtain ⟨vertices, hvertices, hlists⟩ := h.exists_lists
    refine Or.inr ⟨vertices, ?_, hlists⟩
    rw [hvertices]
    rfl

namespace Problem

variable {p : Problem ℚ} {x d : List ℚ}

/-! ## Constraints as a system -/

/-- The constraints of a program. -/
def system (p : Problem ℚ) : System ℚ := ⟨p.constraints, p.values⟩

theorem wellFormed_system : p.system.WellFormed := ⟨p.rectangular, p.values_length⟩

theorem feasible_system_iff : p.system.Feasible x ↔ p.Feasible x :=
  ⟨fun hx => ⟨hx.length_eq, coeff_nonneg_iff.1 hx.nonneg, hx.mulVector_eq⟩,
    fun hx => ⟨hx.length_eq, coeff_nonneg_iff.2 hx.nonneg, hx.mulVector_eq⟩⟩

theorem recedes_system_iff : p.system.Recedes d ↔ p.Recedes d :=
  ⟨fun hd => ⟨hd.length_eq, coeff_nonneg_iff.1 hd.nonneg,
      mulVector_eq_replicate_iff.2 hd.dot_eq_zero⟩,
    fun hd => ⟨hd.length_eq, coeff_nonneg_iff.2 hd.nonneg,
      mulVector_eq_replicate_iff.1 hd.mulVector_eq⟩⟩

/-! ## The searches -/

/-- The vertex that is chosen is one of least cost. -/
theorem leastVertex?_cases (htolerance : options.tolerance = 0) (vertices : List (Vertex ℚ)) :
    (p.leastVertex? options vertices = none ∧ vertices = []) ∨
      ∃ v ∈ vertices, p.leastVertex? options vertices = some (p.minimizedAt v.values, v) ∧
        ∀ w ∈ vertices, p.minimizedAt v.values ≤ p.minimizedAt w.values := by
  rw [leastVertex?, htolerance]
  cases hleast : tolerantLeast? 0 Prod.fst
      (vertices.map fun vertex => (p.minimizedAt vertex.values, vertex)) with
  | none => exact Or.inl ⟨rfl, List.map_eq_nil_iff.1 (survivor?_eq_none_iff.1 hleast)⟩
  | some best =>
    obtain ⟨v, hv, rfl⟩ := List.mem_map.1 (mem_of_survivor? hleast)
    exact Or.inr ⟨v, hv, rfl, fun w hw => tolerantLeast?_le hleast _ (List.mem_map_of_mem hw)⟩

/-- The search for an improving direction finds a normalized one, unless no direction improves the
objective or there are too many choices of columns. -/
theorem improvingDirection?_cases {s : System ℚ} (h : s.WellFormed)
    (htolerance : options.tolerance = 0) :
    (∃ error, p.improvingDirection? options s = some (.error error) ∧ options.Exceeded error) ∨
      (∃ d, p.improvingDirection? options s = some (.ok (some d)) ∧ s.Recedes d ∧ d.sum = 1 ∧
        p.minimizedAt d < 0) ∨
      (p.improvingDirection? options s = some (.ok none) ∧
        ∀ d, s.Recedes d → 0 ≤ p.minimizedAt d) := by
  obtain ⟨hindependent, hempty⟩ | ⟨t, hindependent, hregular, hequivalent, -⟩ :=
    System.independent?_cases h.directions htolerance
  · have hresult : p.improvingDirection? options s = some (.ok none) := by
      rw [improvingDirection?, hindependent]
      rfl
    refine Or.inr (Or.inr ⟨hresult, fun d hd => ?_⟩)
    -- Without normalized directions there is none but zero.
    by_contra hlow
    obtain ⟨e, he, -⟩ := hd.exists_normalized (not_le.1 hlow)
    exact hempty e he
  · obtain ⟨error, hvertices, hexceeded⟩ | ⟨vertices, hvertices, hlists⟩ :=
      System.vertices?_cases hregular htolerance
    · refine Or.inl ⟨error, ?_, hexceeded⟩
      rw [improvingDirection?, hindependent]
      simp [hvertices, Except.map]
    · have hresult : p.improvingDirection? options s =
          some (.ok ((vertices.map Vertex.values).find? fun d => p.minimizedAt d < 0)) := by
        rw [improvingDirection?, hindependent, htolerance]
        simp [hvertices, Except.map]
      rw [hresult]
      cases hfind : (vertices.map Vertex.values).find? fun d => p.minimizedAt d < 0 with
      | none =>
        refine Or.inr (Or.inr ⟨rfl, fun d hd =>
          hlists.dot_nonneg_of_recedes hequivalent (fun v hv => ?_) hd⟩)
        have hkept := List.find?_eq_none.1 hfind _ (List.mem_map_of_mem hv)
        rw [decide_eq_true_eq] at hkept
        exact not_lt.1 hkept
      | some d =>
        obtain ⟨v, hv, rfl⟩ := List.mem_map.1 (List.mem_of_find?_eq_some hfind)
        obtain ⟨hrecedes, hsum⟩ := System.feasible_directions_iff.1
          (hequivalent.symm.feasible (hlists.feasible v hv))
        have hlow := List.find?_some hfind
        rw [decide_eq_true_eq] at hlow
        exact Or.inr (Or.inl ⟨_, rfl, hrecedes, hsum, hlow⟩)

/-! ## Answers -/

/-- What a result says about a program is true. -/
def Confirms (p : Problem ℚ) (options : EnumerationOptions ℚ) :
    Except SolveError (Outcome ℚ) → Prop
  | .error error => options.Exceeded error
  | .ok .infeasible => ∀ x, ¬ p.Feasible x
  | .ok (.unbounded ray) =>
    p.Feasible ray.point ∧ p.Recedes ray.direction ∧ ray.direction.sum = 1 ∧
      p.minimizedAt ray.direction < 0
  | .ok (.optimal s) =>
    p.Feasible s.values ∧ (∀ j ∉ s.basis, coeff s.values j = 0) ∧
      s.basis.length = p.constraints.toMatrix.rank ∧
      s.objective = p.reported (p.minimizedAt s.values) ∧
      ∀ x, p.Feasible x → p.minimizedAt s.values ≤ p.minimizedAt x

/-- The enumeration never fails, and what it answers is true. -/
theorem exists_enumerate? (htolerance : options.tolerance = 0) :
    ∃ answer, p.enumerate? options = some answer ∧ p.Confirms options answer.result := by
  obtain ⟨hindependent, hempty⟩ | ⟨s, hindependent, hregular, hequivalent, hrank⟩ :=
    System.independent?_cases p.wellFormed_system htolerance
  · rw [enumerate?, ← system, hindependent]
    exact ⟨_, rfl, fun x hx => hempty x (feasible_system_iff.2 hx)⟩
  have hfeasible {x : List ℚ} : s.Feasible x ↔ p.Feasible x :=
    hequivalent.feasible_iff.symm.trans feasible_system_iff
  have hrecedes {d : List ℚ} : s.Recedes d ↔ p.Recedes d :=
    hequivalent.recedes_iff.symm.trans recedes_system_iff
  rw [enumerate?, ← system, hindependent]
  simp only [Option.bind_eq_bind, Option.bind_some]
  obtain ⟨error, hvertices, hexceeded⟩ | ⟨vertices, hvertices, hlists⟩ :=
    System.vertices?_cases hregular htolerance
  · rw [hvertices]
    exact ⟨_, rfl, hexceeded⟩
  simp only [hvertices, Option.bind_some]
  obtain ⟨hleast, rfl⟩ | ⟨v, hv, hleast, hle⟩ := leastVertex?_cases (p := p) htolerance vertices
  · rw [hleast]
    refine ⟨_, rfl, fun x hx => ?_⟩
    obtain ⟨w, hw⟩ := hlists.exists_mem (hfeasible.2 hx)
    exact List.not_mem_nil hw
  rw [hleast]
  have hpoint := hfeasible.1 (hlists.feasible v hv)
  obtain ⟨error, hdirection, hexceeded⟩ | ⟨d, hdirection, hd, hsum, hlow⟩ | ⟨hdirection, hnone⟩ :=
    improvingDirection?_cases (p := p) hregular.toWellFormed htolerance
  · rw [hdirection]
    exact ⟨_, rfl, hexceeded⟩
  · rw [hdirection]
    exact ⟨_, rfl, hpoint, hrecedes.1 hd, hsum, hlow⟩
  · rw [hdirection]
    refine ⟨_, rfl, hpoint, hlists.coeff_eq_zero v hv, (hlists.length_basis v hv).trans hrank, rfl,
      fun x hx => ?_⟩
    -- No direction lowers the cost, so some vertex costs no more than the point.
    obtain ⟨w, hw, hbelow⟩ := hlists.exists_le (hfeasible.2 hx) hnone
    exact (hle w hw).trans hbelow

/-- The enumeration never fails, and the only error it ends with is that of the limit. Any other
answer is exact: it is infeasible just when there is no feasible point; it is unbounded just when
the objective improves without limit, with a normalized direction along which it does; and an
optimal solution is feasible, vanishes outside of as many variables as the rank of the constraints
says, and has the best objective of all feasible points. -/
theorem enumerate?_exact (p : Problem ℚ) (options : EnumerationOptions ℚ)
    (htolerance : options.tolerance = 0) :
    ∃ answer, p.enumerate? options = some answer ∧
      (∀ error, answer.result = .error error →
        ∃ bases, error = .enumerationLimit bases ∧ options.basisLimit < bases) ∧
      ∀ outcome, answer.result = .ok outcome →
        (outcome = .infeasible ↔ ∀ x, ¬ p.Feasible x) ∧
        ((∃ ray, outcome = .unbounded ray) ↔ p.ImprovesWithoutLimit) ∧
        (∀ ray, outcome = .unbounded ray →
          p.Feasible ray.point ∧ p.Recedes ray.direction ∧ ray.direction.sum = 1 ∧
            p.direction.Better (Scalar.dot p.cost ray.direction) 0) ∧
        ∀ s, outcome = .optimal s →
          p.Feasible s.values ∧ (∀ j ∉ s.basis, coeff s.values j = 0) ∧
            s.basis.length = p.constraints.toMatrix.rank ∧
            s.objective = Scalar.dot p.cost s.values ∧
            ∀ x, p.Feasible x → ¬ p.direction.Better (Scalar.dot p.cost x) s.objective := by
  obtain ⟨answer, hanswer, hconfirms⟩ := exists_enumerate? (p := p) htolerance
  refine ⟨answer, hanswer, fun error hresult => ?_, fun outcome hresult => ?_⟩
  · rw [hresult] at hconfirms
    exact hconfirms
  rw [hresult] at hconfirms
  cases outcome with
  | infeasible =>
    have hempty : ∀ x, ¬ p.Feasible x := hconfirms
    refine ⟨⟨fun _ => hempty, fun _ => rfl⟩, ⟨nofun, fun himproves => ?_⟩, nofun, nofun⟩
    obtain ⟨x, hx, -⟩ := himproves 0
    exact absurd hx (hempty x)
  | unbounded ray =>
    obtain ⟨hpoint, hrecedes, hsum, hlow⟩ := hconfirms
    have hbetter := better_dot_zero_iff.2 hlow
    refine ⟨⟨nofun, fun hempty => absurd hpoint (hempty _)⟩,
      ⟨fun _ => improvesWithoutLimit_of_recedes hpoint hrecedes hbetter, fun _ => ⟨ray, rfl⟩⟩,
      fun other heq => ?_, nofun⟩
    cases heq
    exact ⟨hpoint, hrecedes, hsum, hbetter⟩
  | optimal s =>
    obtain ⟨hpoint, hzero, hrank, hobjective, hle⟩ := hconfirms
    have hworst : ∀ x, p.Feasible x → ¬ p.direction.Better (Scalar.dot p.cost x) s.objective := by
      intro x hx hbetter
      rw [dot_cost, hobjective, better_reported_iff] at hbetter
      exact (hle x hx).not_gt hbetter
    refine ⟨⟨nofun, fun hempty => absurd hpoint (hempty _)⟩, ⟨nofun, fun himproves => ?_⟩, nofun,
      fun other heq => ?_⟩
    · obtain ⟨x, hx, hbetter⟩ := himproves s.objective
      exact absurd hbetter (hworst x hx)
    · cases heq
      exact ⟨hpoint, hzero, hrank, hobjective.trans (p.dot_cost s.values).symm, hworst⟩

/-- An equation and its double, which fix the sum of the variables. -/
def proportional : Problem ℚ where
  constraints := ⟨[[1, 1], [2, 2]], 2⟩
  values := [1, 2]
  minimizationCost := [-1, -2]
  direction := .maximize
  rows_ne_nil := nofun
  columns_pos := Nat.zero_lt_two
  rectangular := by simp [RowMatrix.Rectangular]
  values_length := rfl
  cost_length := rfl

theorem enumerate?_exact_proportional : ∃ answer,
    proportional.enumerate? ⟨0, 2⟩ = some answer ∧
      answer.result = .ok (.optimal ⟨2, [0, 1], [1], ⟨0, 0⟩⟩) ∧ proportional.Feasible [0, 1] ∧
      proportional.constraints.toMatrix.rank = 1 ∧
      ∀ x, proportional.Feasible x → ¬ 2 < Scalar.dot proportional.cost x := by
  obtain ⟨answer, hanswer, -, hexact⟩ := proportional.enumerate?_exact ⟨0, 2⟩ rfl
  have hrun : ((proportional.enumerate? ⟨0, 2⟩).map Answer.result) =
      some (.ok (.optimal ⟨2, [0, 1], [1], ⟨0, 0⟩⟩)) := by decide +kernel
  rw [hanswer, Option.map_some, Option.some.injEq] at hrun
  obtain ⟨-, -, -, hoptimal⟩ := hexact _ hrun
  obtain ⟨hfeasible, -, hrank, -, hbest⟩ := hoptimal _ rfl
  exact ⟨answer, hanswer, hrun, hfeasible, hrank.symm, hbest⟩

end Problem

end SimplexMethod
