import Mathlib.Tactic
import SimplexMethod.Proofs.Enumeration.Verdicts
import SimplexMethod.Proofs.TwoPhase.Verdicts

/-!
# Agreement of the methods

Two outcomes that are reported for a program without tolerance have the same status and the same
optimal objective, and two optimal bases have the same size, which is the rank of the constraints
(`Problem.Reports.agree`). It does not matter which of the methods reports them, with which pivot
rule and under which limits.

Every method is compared with the program and none with another: what it reports settles the
program (`Problem.Reports.settles`), and a program is settled in one way only
(`Problem.Settles.status_eq_and_objective?_eq`). The size of a basis in which the two-phase method
ends is the number of constraint rows that are left, and these are independent
(`Problem.CanonicalProgram.rowCount_eq_rank`).
-/

set_option autoImplicit false

namespace SimplexMethod

theorem Direction.eq_of_not_better (direction : Direction) {v w : ℚ}
    (hvw : ¬ direction.Better v w) (hwv : ¬ direction.Better w v) : v = w := by
  cases direction with
  | minimize => exact le_antisymm (not_lt.1 hwv) (not_lt.1 hvw)
  | maximize => exact le_antisymm (not_lt.1 hvw) (not_lt.1 hwv)

/-! ## Sizes of bases -/

namespace Tableau.States

variable {t : Tableau ℚ} {W : Submodule ℚ (ℕ → ℚ)} {cost : ℕ → ℚ} {n : ℕ}

/-- The constraint rows are independent in columns to which the basic ones belong. -/
theorem linearIndependent (h : t.States W cost) (hbasic : ∀ i < t.rowCount, t.basic i < n) :
    LinearIndependent ℚ fun i : Fin t.rowCount => RowMatrix.restrict n (t.entry i) := by
  rw [Fintype.linearIndependent_iff]
  intro factors hsum i
  -- In the column that is basic in a row, all other rows are zero.
  have hcolumn := congrFun hsum ⟨t.basic i, hbasic i i.2⟩
  rw [Finset.sum_apply, Finset.sum_eq_single_of_mem i (Finset.mem_univ i)] at hcolumn
  · have hone : factors i * t.entry i (t.basic i) = 0 := hcolumn
    rwa [h.unit_self i.2, mul_one] at hone
  · intro k _ hne
    have hzero := h.unit_of_ne i.2 k.2 fun heq => hne (Fin.ext heq)
    exact mul_eq_zero_of_right _ hzero

/-- In these columns they span what the equations say. -/
theorem map_restrict_eq_span (h : t.States W cost) (n : ℕ) : W.map (RowMatrix.restrict n) =
    Submodule.span ℚ (Set.range fun i : Fin t.rowCount => RowMatrix.restrict n (t.entry i)) := by
  apply le_antisymm
  · rw [Submodule.map_le_iff_le_comap, ← h.equations_eq]
    apply h.wellFormed.equations_le_iff.2
    intro i hi
    exact Submodule.subset_span ⟨⟨i, hi⟩, rfl⟩
  · apply Submodule.span_le.2
    rintro _ ⟨i, rfl⟩
    exact Submodule.mem_map_of_mem (h.entry_mem i.2)

end Tableau.States

namespace Problem

variable {p : Problem ℚ} {o o' : Outcome ℚ}

/-- As many rows are left as the rank of the constraints says. -/
theorem CanonicalProgram.rowCount_eq_rank {t : Tableau ℚ} (h : p.CanonicalProgram t) :
    t.rowCount = p.constraints.toMatrix.rank := by
  have hindependent := h.states.linearIndependent fun i hi =>
    (h.wellFormed.basic_lt hi).trans_eq h.columnCount_eq
  have hrank := p.rectangular.rank_toMatrix p.values_length
  have hspan := h.states.map_restrict_eq_span p.variableCount
  rw [equations] at hspan
  rw [hrank, ← variableCount, hspan, finrank_span_eq_card hindependent, Fintype.card_fin]

/-! ## Settled programs -/

/-- What an outcome says about a program is true, ray, solution and pivots left aside. -/
def Settles (p : Problem ℚ) : Outcome ℚ → Prop
  | .infeasible => ∀ x, ¬ p.Feasible x
  | .unbounded _ => p.ImprovesWithoutLimit
  | .optimal s => s.basis.length = p.constraints.toMatrix.rank ∧
      (∃ x, p.Feasible x ∧ Scalar.dot p.cost x = s.objective) ∧
      ∀ x, p.Feasible x → ¬ p.direction.Better (Scalar.dot p.cost x) s.objective

namespace Settles

/-- A program is settled in one way only. -/
theorem status_eq_and_objective?_eq (h : p.Settles o) (h' : p.Settles o') :
    o.status = o'.status ∧ o.objective? = o'.objective? := by
  -- Of two different verdicts, one has a feasible point, or a better one, that the other excludes.
  cases o with
  | infeasible =>
    cases o' with
    | infeasible => exact ⟨rfl, rfl⟩
    | unbounded ray =>
      obtain ⟨x, hx, -⟩ := h' 0
      exact absurd hx (h x)
    | optimal s =>
      obtain ⟨-, ⟨x, hx, -⟩, -⟩ := h'
      exact absurd hx (h x)
  | unbounded ray =>
    cases o' with
    | infeasible =>
      obtain ⟨x, hx, -⟩ := h 0
      exact absurd hx (h' x)
    | unbounded other => exact ⟨rfl, rfl⟩
    | optimal s =>
      obtain ⟨-, -, hbest⟩ := h'
      obtain ⟨x, hx, hbetter⟩ := h s.objective
      exact absurd hbetter (hbest x hx)
  | optimal s =>
    obtain ⟨-, ⟨x, hx, hcost⟩, hbest⟩ := h
    cases o' with
    | infeasible => exact absurd hx (h' x)
    | unbounded ray =>
      obtain ⟨y, hy, hbetter⟩ := h' s.objective
      exact absurd hbetter (hbest y hy)
    | optimal s' =>
      obtain ⟨-, ⟨y, hy, hcost'⟩, hbest'⟩ := h'
      refine ⟨rfl, congrArg some (p.direction.eq_of_not_better ?_ ?_)⟩
      · exact hcost ▸ hbest' x hx
      · exact hcost' ▸ hbest y hy

end Settles

/-! ## Reported outcomes -/

/-- One of the methods, without tolerance, ends with the outcome. -/
inductive Reports (p : Problem ℚ) : Outcome ℚ → Prop
  /-- The two-phase method, whatever its pivot rule, its pivot limit and its listener are. -/
  | twoPhase {σ : Type} {engine engine' : Engine ℚ σ} {answer : Answer ℚ} {outcome : Outcome ℚ}
    (htolerance : engine.options.tolerance = 0)
    (hsolve : engine.solve? p = some (answer, engine'))
    (hresult : answer.result = .ok outcome) : p.Reports outcome
  /-- The enumeration, whatever its limit is. -/
  | enumeration {options : EnumerationOptions ℚ} {answer : Answer ℚ} {outcome : Outcome ℚ}
    (htolerance : options.tolerance = 0) (hanswer : p.enumerate? options = some answer)
    (hresult : answer.result = .ok outcome) : p.Reports outcome

/-- What the two-phase method finds settles the program. -/
theorem CanonicalProgram.settles {t : Tableau ℚ} (h : p.CanonicalProgram t) {optimum : Optimum ℚ}
    (hfinds : t.Finds optimum) (pivots : PivotCounts) : p.Settles (optimum.outcome p pivots) := by
  have hpoint := h.feasible_basicSolution
  have hdot := h.dot_basicSolution
  cases optimum with
  | attained minimum values basis =>
    obtain ⟨hstay, rfl, rfl, rfl⟩ := hfinds
    obtain ⟨y, hy⟩ := h.exists_boundedBy hstay
    refine ⟨h.rowCount_eq_rank, ⟨_, hpoint, by rw [dot_cost, hdot]⟩, fun x hx hbetter => ?_⟩
    rw [dot_cost] at hbetter
    exact (hy.le hx).not_gt (better_reported_iff.1 hbetter)
  | unbounded ray =>
    obtain ⟨entering, column, hprofitable, hcolumn, hfall, rfl⟩ := hfinds
    refine improvesWithoutLimit_of_recedes hpoint (h.recedes hprofitable hcolumn hfall) ?_
    rw [better_dot_zero_iff, h.dot_directionOf hprofitable hcolumn]
    exact hprofitable.cost_lt.trans_eq neg_zero

/-- What the enumeration answers settles the program. -/
theorem Confirms.settles {options : EnumerationOptions ℚ} (h : p.Confirms options (.ok o)) :
    p.Settles o := by
  cases o with
  | infeasible => exact h
  | unbounded ray =>
    obtain ⟨hpoint, hrecedes, -, hlow⟩ := h
    exact improvesWithoutLimit_of_recedes hpoint hrecedes (better_dot_zero_iff.2 hlow)
  | optimal s =>
    obtain ⟨hpoint, -, hrank, hobjective, hle⟩ := h
    refine ⟨hrank, ⟨_, hpoint, (dot_cost _).trans hobjective.symm⟩, fun x hx hbetter => ?_⟩
    rw [dot_cost, hobjective, better_reported_iff] at hbetter
    exact (hle x hx).not_gt hbetter

namespace Reports

/-- Whatever is reported settles the program. -/
theorem settles (h : p.Reports o) : p.Settles o := by
  cases h with
  | twoPhase htolerance hsolve hresult =>
    obtain ⟨rfl, y, hy⟩ | ⟨t, optimum, pivots, hcanonical, hfinds, rfl⟩ :=
      Engine.solve?_cases htolerance hsolve hresult
    · exact fun x => hy.not_feasible
    · exact hcanonical.settles hfinds pivots
  | enumeration htolerance hanswer hresult =>
    obtain ⟨answer, hanswer', hconfirms⟩ := exists_enumerate? (p := p) htolerance
    rw [hanswer', Option.some.injEq] at hanswer
    subst hanswer
    rw [hresult] at hconfirms
    exact hconfirms.settles

/-- Any two outcomes that are reported for a program have the same status and the same optimal
objective, and the bases of optimal solutions are as large as the rank of the constraints. -/
theorem agree (h : p.Reports o) (h' : p.Reports o') :
    o.status = o'.status ∧ o.objective? = o'.objective? ∧
      ∀ s s', o = .optimal s → o' = .optimal s' →
        s.basis.length = s'.basis.length ∧ s.basis.length = p.constraints.toMatrix.rank := by
  obtain ⟨hstatus, hobjective⟩ := h.settles.status_eq_and_objective?_eq h'.settles
  refine ⟨hstatus, hobjective, ?_⟩
  rintro s s' rfl rfl
  obtain ⟨hrank, -⟩ := h.settles
  obtain ⟨hrank', -⟩ := h'.settles
  exact ⟨hrank.trans hrank'.symm, hrank⟩

/-- Two bases with the same cost, for a constraint that is stated twice. -/
def tied : Problem ℚ where
  constraints := ⟨[[1, 3], [1, 3]], 2⟩
  values := [3, 3]
  minimizationCost := [1, 3]
  direction := .minimize
  rows_ne_nil := List.cons_ne_nil _ _
  columns_pos := Nat.zero_lt_two
  rectangular := by simp [RowMatrix.Rectangular]
  values_length := rfl
  cost_length := rfl

/-- The methods end in different bases of the same size and with the same objective. -/
theorem agree_tied :
    tied.Reports (.optimal ⟨3, [0, 1], [1], ⟨1, 0⟩⟩) ∧
      tied.Reports (.optimal ⟨3, [3, 0], [0], ⟨0, 0⟩⟩) ∧
      tied.constraints.toMatrix.rank = 1 := by
  have htwoPhase : (((⟨⟨10, 0⟩, .steepest, .silent, ()⟩ : Engine ℚ Unit).solve? tied).map
      fun reply => reply.1.result) = some (.ok (.optimal ⟨3, [0, 1], [1], ⟨1, 0⟩⟩)) := by
    decide +kernel
  have henumeration : (tied.enumerate? ⟨0, 2⟩).map Answer.result =
      some (.ok (.optimal ⟨3, [3, 0], [0], ⟨0, 0⟩⟩)) := by decide +kernel
  obtain ⟨⟨answer, engine'⟩, hsolve, hresult⟩ := Option.map_eq_some_iff.1 htwoPhase
  obtain ⟨answer', hanswer, hresult'⟩ := Option.map_eq_some_iff.1 henumeration
  have hreports := Reports.twoPhase rfl hsolve hresult
  have hreports' := Reports.enumeration rfl hanswer hresult'
  obtain ⟨-, -, hbasis⟩ := agree hreports hreports'
  exact ⟨hreports, hreports', (hbasis _ _ rfl rfl).2.symm⟩

end Reports

end Problem

end SimplexMethod
