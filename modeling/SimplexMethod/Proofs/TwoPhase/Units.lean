import Mathlib.Tactic
import SimplexMethod.Proofs.Tableau.Artificial
import SimplexMethod.Proofs.Tableau.Units
import SimplexMethod.Proofs.TwoPhase.Lockstep
import SimplexMethod.Proofs.TwoPhase.Verdicts

/-!
# Units

Constraint values and costs can be given in other units, each by a positive factor of its own.
Without tolerance the method goes the same way (`Engine.solve?_rescaled`): every listener hears of
the same pivots and bases, and the answer is the same but for its units. Values and objectives
change by the factors that one expects, and the direction of a ray does not change.

The runs go in lockstep. Phase one starts from the artificial problem in other units
(`Problem.artificialTableau_rescaled`), in which the costs are those of the artificial variables and
have no unit. The factor for the costs comes in where the cost row is made anew
(`Tableau.WellFormed.restated_rescaled`), and phase two goes on with both factors
(`Problem.run?_rescaled`).
-/

set_option autoImplicit false

namespace SimplexMethod

open Tableau

variable {β γ : ℚ}

/-! ## Problems -/

namespace Problem

variable {p : Problem ℚ} {i : Nat}

/-- The problem with constraint values and costs in other units. -/
def rescaled (β γ : ℚ) (p : Problem ℚ) : Problem ℚ :=
  { p with
    values := p.values.map (β * ·)
    minimizationCost := p.minimizationCost.map (γ * ·)
    values_length := by rw [List.length_map, p.values_length]
    cost_length := by rw [List.length_map, p.cost_length] }

theorem cost_rescaled : (p.rescaled β γ).cost = p.cost.map (γ * ·) := by
  unfold cost orient
  simp only [rescaled]
  cases p.direction with
  | minimize => rfl
  | maximize => simp

theorem reported_rescaled (minimized : ℚ) :
    (p.rescaled β γ).reported (β * γ * minimized) = β * γ * p.reported minimized := by
  unfold reported
  simp only [rescaled]
  cases p.direction with
  | minimize => rfl
  | maximize => exact (mul_neg _ _).symm

/-- The rescaled problem is what the rescaled data make. -/
theorem ofRows_rescaled (β γ : ℚ) (p : Problem ℚ) :
    ofRows p.constraints.rows (p.values.map (β * ·)) (p.cost.map (γ * ·)) p.direction =
      .ok (p.rescaled β γ) := by
  have hcost : (p.rescaled β γ).cost = _ := cost_rescaled
  rw [← hcost]
  exact ofRows_eq neg_neg (p.rescaled β γ)

/-! ## The artificial problem -/

theorem signFor_mul_of_pos (hβ : 0 < β) (value : ℚ) : signFor (β * value) = signFor value := by
  unfold signFor
  have hiff : β * value < 0 ↔ value < 0 := mul_neg_iff.trans (by simp [hβ, hβ.not_gt])
  exact if_congr hiff rfl rfl

theorem signedRows_rescaled (hβ : 0 < β) : (p.rescaled β γ).signedRows = p.signedRows := by
  rw [signedRows, signedRows, rescaled, List.zipWith_map_right]
  simp only [signFor_mul_of_pos hβ]

theorem signedValues_rescaled (hβ : 0 < β) :
    (p.rescaled β γ).signedValues = p.signedValues.map (β * ·) := by
  rw [signedValues, signedValues, rescaled, List.map_map, List.map_map]
  refine List.map_congr_left fun value _ => ?_
  simp only [Function.comp_apply, signFor_mul_of_pos hβ]
  ring

theorem signedRow_rescaled (hβ : 0 < β) : (p.rescaled β γ).signedRow i = p.signedRow i := by
  rw [signedRow, signedRow, rescaled, coeff_map (mul_zero _)]
  simp only [signFor_mul_of_pos hβ]

theorem signedValue_rescaled (hβ : 0 < β) :
    (p.rescaled β γ).signedValue i = β * p.signedValue i := by
  rw [signedValue, signedValue, rescaled, coeff_map (mul_zero _), signFor_mul_of_pos hβ]
  ring

/-- Only the last entry is multiplied. -/
theorem coeff_concat_mul (row : List ℚ) (a : ℚ) (j : Nat) : coeff (row ++ [β * a]) j =
    if j = row.length then β * coeff (row ++ [a]) j else coeff (row ++ [a]) j := by
  rw [coeff_concat, coeff_concat]
  split <;> rfl

theorem artificialTableau_relativeCost_rescaled (hβ : 0 < β) (j : Nat) :
    (p.rescaled β γ).artificialTableau.relativeCost j =
      if j = p.artificialTableau.columnCount then β * p.artificialTableau.relativeCost j
      else p.artificialTableau.relativeCost j := by
  have hlast : ((columnSums p.variableCount p.signedRows).map (-·) ++
      List.replicate p.constraintCount 1).length = p.artificialTableau.columnCount := by
    rw [List.length_append, List.length_map, length_columnSums fun _ => length_of_mem_signedRows,
      List.length_replicate, artificialTableau_columnCount]
  have hsum : -Scalar.sum (p.rescaled β γ).signedValues = β * -Scalar.sum p.signedValues := by
    rw [signedValues_rescaled hβ, Scalar.sum_eq, Scalar.sum_eq, List.sum_map_mul_left, List.map_id',
      mul_neg]
  show coeff (p.rescaled β γ).artificialCosts j = if j = p.artificialTableau.columnCount then
    β * coeff p.artificialCosts j else coeff p.artificialCosts j
  rw [artificialCosts, signedRows_rescaled hβ, hsum, ← hlast]
  exact coeff_concat_mul _ _ j

theorem artificialTableau_entry_rescaled (hβ : 0 < β) (hi : i < p.constraintCount) (j : Nat) :
    (p.rescaled β γ).artificialTableau.entry i j =
      if j = p.artificialTableau.columnCount then β * p.artificialTableau.entry i j
      else p.artificialTableau.entry i j := by
  have hlast : (p.signedRow i ++ SimplexMethod.unitRow p.constraintCount i).length =
      p.artificialTableau.columnCount := by
    rw [List.length_append, length_signedRow hi, length_unitRow, artificialTableau_columnCount]
  have hentry := artificialTableau_entry_eq (p := p.rescaled β γ) (j := j) hi
  rw [artificialRow, signedRow_rescaled hβ, signedValue_rescaled hβ] at hentry
  rw [hentry, artificialTableau_entry_eq hi, artificialRow, ← hlast]
  exact coeff_concat_mul _ _ j

/-- The artificial problem is in the units of the constraint values. -/
theorem artificialTableau_rescaled (hβ : 0 < β) :
    (p.rescaled β γ).artificialTableau = p.artificialTableau.rescaled β 1 := by
  refine wellFormed_artificialTableau.eq_rescaled wellFormed_artificialTableau rfl rfl rfl
    (fun j hj => ?_) ?_ (fun i hi j hj => ?_) fun i hi => ?_
  · rw [artificialTableau_relativeCost_rescaled hβ, if_neg hj.ne, one_mul]
  · rw [artificialTableau_relativeCost_rescaled hβ, if_pos rfl, mul_one]
  · rw [artificialTableau_rowCount] at hi
    rw [artificialTableau_entry_rescaled hβ hi, if_neg hj.ne]
  · rw [artificialTableau_rowCount] at hi
    rw [artificialTableau_entry_rescaled hβ hi, if_pos rfl, value]

end Problem

/-! ## The tableau of the program -/

namespace Tableau

variable {t : Tableau ℚ} {p : Problem ℚ} {redundant : List Nat}

theorem narrow_entry_rescaled (t : Tableau ℚ) (β : ℚ) (i j : Nat) :
    narrow t.structuralCount t.columnCount ((t.rescaled β 1).entry i) j =
      (if j = t.structuralCount then β else 1) *
        narrow t.structuralCount t.columnCount (t.entry i) j := by
  rcases lt_trichotomy j t.structuralCount with hj | rfl | hj
  · rw [narrow_of_lt hj, narrow_of_lt hj, entry_rescaled (hj.trans_le structuralCount_le),
      if_neg hj.ne, one_mul]
  · rw [narrow_self, narrow_self, if_pos rfl]
    exact value_rescaled
  · rw [narrow_of_gt hj, narrow_of_gt hj, mul_zero]

/-- The cost row is made anew in the units of the costs. -/
theorem restated_relativeCost_rescaled (hsize : t.structuralCount = p.variableCount) (j : Nat) :
    ((t.rescaled β 1).restated redundant (p.rescaled β γ)).relativeCost j =
      γ * (if j = t.structuralCount then β else 1) * (t.restated redundant p).relativeCost j := by
  have hsize' : (t.rescaled β 1).structuralCount = (p.rescaled β γ).variableCount := hsize
  rw [restated_relativeCost_eq, restated_relativeCost_eq,
    coeff_reduceCosts fun term hterm => length_of_mem_terms hsize' hterm,
    coeff_reduceCosts fun term hterm => length_of_mem_terms hsize hterm,
    coeff_minimizationCost_append, coeff_minimizationCost_append]
  have hcost (k : Nat) : coeff (p.rescaled β γ).minimizationCost k =
      γ * coeff p.minimizationCost k := coeff_map (mul_zero _) _ _
  have hterms : (((t.rescaled β 1).keptRows redundant).map fun i =>
        (coeff (p.rescaled β γ).minimizationCost ((t.rescaled β 1).basic i),
          (t.rescaled β 1).programRow (i + 1))).map (fun term => term.1 * coeff term.2 j) =
      (((t.keptRows redundant).map fun i =>
        (coeff p.minimizationCost (t.basic i), t.programRow (i + 1))).map fun term =>
          term.1 * coeff term.2 j).map (γ * (if j = t.structuralCount then β else 1) * ·) := by
    rw [List.map_map, List.map_map, List.map_map]
    refine List.map_congr_left fun i _ => ?_
    simp only [Function.comp_apply, coeff_programRow, hcost]
    have hentry := narrow_entry_rescaled t β i j
    rw [rescaled_structuralCount, rescaled_columnCount, hentry, basic, rescaled_basis, ← basic]
    ring
  -- No variable stands in the last column, so the factor does not matter to the costs themselves.
  have hown : (if j = t.structuralCount then β else 1) * coeff p.minimizationCost j =
      coeff p.minimizationCost j := by
    split
    · next heq => rw [coeff_of_length_le (by rw [heq, hsize, p.cost_length]; rfl), mul_zero]
    · exact one_mul _
  rw [hterms, List.sum_map_mul_left, List.map_id', hcost]
  linear_combination (-γ) * hown

theorem restated_entry_rescaled {i : Nat} (hi : i < (t.keptRows redundant).length) (j : Nat) :
    ((t.rescaled β 1).restated redundant (p.rescaled β γ)).entry i j =
      (if j = t.structuralCount then β else 1) * (t.restated redundant p).entry i j := by
  have hread := restated_entry (t := t.rescaled β 1) (p := p.rescaled β γ) (k := i) hi
  rw [hread, restated_entry hi]
  exact narrow_entry_rescaled t β (t.keptRows redundant)[i] j

/-- The tableau of the program is in the units of the constraint values and of the costs. -/
theorem WellFormed.restated_rescaled (h : t.WellFormed)
    (hsize : t.structuralCount = p.variableCount)
    (hstructural : ∀ i < t.rowCount, i ∉ redundant → t.basic i < t.structuralCount) :
    (t.rescaled β 1).restated redundant (p.rescaled β γ) =
      (t.restated redundant p).rescaled β γ := by
  have hwell := h.restated hsize hstructural
  have hwell' : ((t.rescaled β 1).restated redundant (p.rescaled β γ)).WellFormed :=
    h.rescaled.restated hsize hstructural
  refine hwell.eq_rescaled hwell' rfl rfl rfl (fun j hj => ?_) ?_ (fun i hi j hj => ?_)
    fun i hi => ?_
  · rw [restated_columnCount] at hj
    rw [restated_relativeCost_rescaled hsize, if_neg hj.ne, mul_one]
  · rw [restated_columnCount, restated_relativeCost_rescaled hsize, if_pos rfl, mul_comm γ β]
  · rw [restated_rowCount] at hi
    rw [restated_columnCount] at hj
    rw [restated_entry_rescaled hi, if_neg hj.ne, one_mul]
  · rw [restated_rowCount] at hi
    rw [restated_columnCount, restated_entry_rescaled hi, if_pos rfl, value, restated_columnCount]

end Tableau

/-! ## Runs -/

/-- Without tolerance, a change of units keeps pace with the method. -/
theorem keepsPace_rescaled {δ : ℚ} (hβ : 0 < β) (hδ : 0 < δ) (rule : PivotRule) :
    KeepsPace (Tableau.rescaled β δ) rule 0 where
  basis_eq := fun _ => rfl
  structuralCount_eq := fun _ => rfl
  wellFormed := fun h => h.rescaled
  bringIn_eq := fun h hentering hrow => h.bringIn_rescaled hentering hrow
  move_eq := fun h => h.move_rescaled hβ hδ
  replacement_eq := fun _ _ => replacement_rescaled 0
  objective_iff := by
    intro t
    have hpos : 0 < β * δ := mul_pos hβ hδ
    rw [objective_rescaled, Scalar.abs_eq, Scalar.abs_eq, abs_pos, abs_pos]
    simp [hpos.ne']

/-- What phase two finds, in other units. -/
def Optimum.rescaled (β γ : ℚ) : Optimum ℚ → Optimum ℚ
  | attained minimum values basis => .attained (β * γ * minimum) (values.map (β * ·)) basis
  | unbounded ray => .unbounded { ray with point := ray.point.map (β * ·) }

/-- What a program turned out to be, in other units: values and points have those of the constraint
values, and objectives have both. -/
def Outcome.rescaled (β γ : ℚ) : Outcome ℚ → Outcome ℚ
  | infeasible => .infeasible
  | optimal solution => .optimal
      { solution with
        objective := β * γ * solution.objective
        values := solution.values.map (β * ·) }
  | unbounded ray => .unbounded { ray with point := ray.point.map (β * ·) }

/-- A stage of phase two in other units. -/
def Stage.rescaled (β γ : ℚ) (stage : Stage ℚ (Optimum ℚ)) : Stage ℚ (Optimum ℚ) :=
  ⟨stage.walk.map (Tableau.rescaled β γ), stage.outcome.map (Optimum.rescaled β γ)⟩

/-- A run in other units. In phase one the costs have no unit. -/
def Run.rescaled (β γ : ℚ) : Run ℚ → Run ℚ
  | abandoned one error => .abandoned (one.map (Tableau.rescaled β 1)) error
  | infeasible one => .infeasible (one.map (Tableau.rescaled β 1))
  | entered one redundant two =>
    .entered (one.map (Tableau.rescaled β 1)) redundant (two.rescaled β γ)

section Runs

variable {options : Options ℚ} {rule : PivotRule} {p : Problem ℚ}

/-- Phase two goes the same way in other units. -/
theorem phaseTwo?_rescaled (htolerance : options.tolerance = 0) (hβ : 0 < β) (hγ : 0 < γ)
    {start : Tableau ℚ} (hstart : start.WellFormed) :
    phaseTwo? options rule (start.rescaled β γ) =
      (phaseTwo? options rule start).map (Stage.rescaled β γ) := by
  have hpace : KeepsPace (Tableau.rescaled β γ) rule options.tolerance :=
    htolerance ▸ keepsPace_rescaled hβ hγ rule
  obtain ⟨w, ending, hdescend⟩ := exists_descend? rule options.tolerance options.pivotLimit
    (w := .startingAt start) hstart
  have hw := (shaped_of_descend? (Walk.all_startingAt hstart.shaped) hdescend).tableau.wellFormed
  have hdescend' := descend?_map hpace options.pivotLimit (w := .startingAt start) hstart
  rw [Walk.map_startingAt, hdescend] at hdescend'
  obtain ⟨move, hmove, hending⟩ := move?_of_descend? hdescend
  rw [phaseTwo?, phaseTwo?, hdescend, hdescend']
  simp only [Option.bind_eq_bind, Option.map_some, Option.bind_some]
  cases ending with
  | limit => rw [Walk.pivotCount_map]; rfl
  | unbounded entering column =>
    obtain rfl : move = .fall entering column := hending
    rw [hw.move?_eq, Option.some.injEq] at hmove
    have hlt := hw.fall_bound hmove
    simp only [Walk.tableau_map, direction?_eq hlt,
      direction?_eq (t := w.tableau.rescaled β γ) hlt, hw.basicSolution?_eq,
      hw.rescaled.basicSolution?_eq, hw.basicSolution_rescaled, Option.bind_some]
    rfl
  | optimal =>
    simp only [Walk.tableau_map, hw.objective?_eq, hw.rescaled.objective?_eq, objective_rescaled,
      hw.basicSolution?_eq, hw.rescaled.basicSolution?_eq, hw.basicSolution_rescaled,
      Option.bind_some]
    rfl

/-- The run goes the same way in other units. -/
theorem Problem.run?_rescaled (htolerance : options.tolerance = 0) (hβ : 0 < β) (hγ : 0 < γ) :
    (p.rescaled β γ).run? options rule = (p.run? options rule).map (Run.rescaled β γ) := by
  have hpace : KeepsPace (Tableau.rescaled β 1) rule options.tolerance :=
    htolerance ▸ keepsPace_rescaled hβ one_pos rule
  obtain ⟨⟨one, outcome⟩, hone⟩ :=
    exists_phaseOne? options rule (wellFormed_artificialTableau (p := p))
  have hartificial : (p.rescaled β γ).artificialTableau = p.artificialTableau.rescaled β 1 :=
    artificialTableau_rescaled hβ
  have hone' := phaseOne?_map hpace (wellFormed_artificialTableau (p := p))
  rw [hone, ← hartificial] at hone'
  rw [run?_eq, run?_eq, runFrom?, runFrom?, hone, hone']
  simp only [Option.bind_eq_bind, Option.map_some, Option.bind_some]
  rcases outcome with error | redundant | _
  · rfl
  · have hwell := (shaped_of_phaseOne? hone).wellFormed
    have hsize := structuralCount_of_phaseOne? hone
    have hseparates := separates_of_phaseOne? hone
    have hstart := hwell.withCosts?_eq hsize hseparates.sorted hseparates.structural
    have hstart' := hwell.rescaled.withCosts?_eq (t := one.tableau.rescaled β 1)
      (p := p.rescaled β γ) hsize hseparates.sorted hseparates.structural
    rw [hwell.restated_rescaled hsize hseparates.structural] at hstart'
    have hrestated := hwell.restated hsize hseparates.structural
    obtain ⟨two, htwo⟩ := exists_phaseTwo? options rule hrestated
    simp only [Walk.tableau_map, hstart, hstart', Option.bind_some,
      phaseTwo?_rescaled htolerance hβ hγ hrestated, htwo, Option.map_some]
    rfl
  · rfl

/-! ## Answers -/

/-- The result is the same but for its units. -/
theorem Run.result_rescaled (run : Run ℚ) : (run.rescaled β γ).result (p.rescaled β γ) =
    (run.result p).map (Outcome.rescaled β γ) := by
  cases run with
  | abandoned one error => rfl
  | infeasible one => rfl
  | entered one redundant two =>
    obtain ⟨w, outcome⟩ := two
    rcases outcome with error | ⟨minimum, values, basis⟩ | ray
    · rfl
    · simp only [rescaled, Stage.rescaled, result, Except.map, Optimum.rescaled, Optimum.outcome,
        Outcome.rescaled, Walk.pivotCount_map, Problem.reported_rescaled]
    · rfl

theorem Optimum.status_rescaled (optimum : Optimum ℚ) (pivots : PivotCounts) :
    ((optimum.rescaled β γ).outcome (p.rescaled β γ) pivots).status =
      (optimum.outcome p pivots).status := by
  cases optimum <;> rfl

/-- The same comes up, in other units. -/
theorem Run.record_rescaled (run : Run ℚ) :
    ((run.rescaled β γ).record (p.rescaled β γ) options).map Occurrence.traced =
      (run.record p options).map Occurrence.traced := by
  have hbasis (δ : ℚ) (t : Tableau ℚ) : (t.rescaled β δ).basis = t.basis := rfl
  have hconstraints : (p.rescaled β γ).constraintCount = p.constraintCount := rfl
  have hvariables : (p.rescaled β γ).variableCount = p.variableCount := rfl
  have hdirection : (p.rescaled β γ).direction = p.direction := rfl
  cases run with
  | abandoned one error =>
    simp only [record, rescaled, hconstraints, hvariables, hdirection, List.map_cons,
      List.map_append, Walk.record_map (hbasis 1)]
  | infeasible one =>
    simp only [record, rescaled, hconstraints, hvariables, hdirection, List.map_cons,
      List.map_append, Walk.record_map (hbasis 1), Walk.traced_finish_map (hbasis 1),
      Walk.pivotCount_map]
  | entered one redundant two =>
    obtain ⟨w, outcome⟩ := two
    cases outcome with
    | error error =>
      simp only [record, rescaled, Stage.rescaled, Except.map, hconstraints, hvariables, hdirection,
        List.map_cons, List.map_append, Walk.record_map (hbasis 1), Walk.record_map (hbasis γ),
        Walk.traced_finish_map (hbasis 1)]
    | ok optimum =>
      simp only [record, rescaled, Stage.rescaled, Except.map, hconstraints, hvariables, hdirection,
        List.map_cons, List.map_append, Walk.record_map (hbasis 1), Walk.record_map (hbasis γ),
        Walk.traced_finish_map (hbasis 1), Walk.traced_finish_map (hbasis γ), Walk.pivotCount_map,
        Optimum.status_rescaled]

end Runs

namespace Engine

/-- Without tolerance, a solve goes the same way whatever the units of the constraint values and of
the costs are. Every listener hears of the same events, and what is logged besides its remarks is
the same. The answer is the same, too, but for its units: values and points have those of the
constraint values, objectives have both, and directions have none. -/
theorem solve?_rescaled (options : Options ℚ) (htolerance : options.tolerance = 0)
    (rule : PivotRule) (p : Problem ℚ) (hβ : 0 < β) (hγ : 0 < γ) :
    ∃ p', Problem.ofRows p.constraints.rows (p.values.map (β * ·)) (p.cost.map (γ * ·))
        p.direction = .ok p' ∧
      ∃ result heard heard', heard'.map Notice.event = heard.map Notice.event ∧
        ∀ {σ : Type} (listener : Listener ℚ σ) (state : σ), ∃ log log',
          (Engine.mk options rule listener state).solve? p =
            some (⟨result, log⟩, ⟨options, rule, listener, listener.listen state heard⟩) ∧
          (Engine.mk options rule listener state).solve? p' =
            some (⟨result.map (Outcome.rescaled β γ), log'⟩,
              ⟨options, rule, listener, listener.listen state heard'⟩) ∧
          ((∀ notice, listener.remarks notice = []) → log' = log) := by
  obtain ⟨run, hrun⟩ := p.exists_run? options rule
  have hrun' : (p.rescaled β γ).run? options rule = some (run.rescaled β γ) := by
    rw [Problem.run?_rescaled htolerance hβ hγ, hrun, Option.map_some]
  have hrecord : ((run.rescaled β γ).record (p.rescaled β γ) options).map Occurrence.traced =
      (run.record p options).map Occurrence.traced := run.record_rescaled
  refine ⟨p.rescaled β γ, Problem.ofRows_rescaled β γ p, run.result p, run.told,
    (run.rescaled β γ).told, ?_, fun listener state => ⟨listener.log (run.record p options),
      listener.log ((run.rescaled β γ).record (p.rescaled β γ) options),
      solve?_of_run? hrun listener state, ?_, fun hremarks => ?_⟩⟩
  · rw [← (run.rescaled β γ).notices_record (p.rescaled β γ) options,
      ← run.notices_record p options, map_event_notices, map_event_notices, hrecord]
  · rw [solve?_of_run? hrun' listener state, Run.result_rescaled]
  · rw [listener.log_eq_filterMap hremarks, listener.log_eq_filterMap hremarks, hrecord]

/-- All values three times as large, and all costs twice as large. -/
theorem solve?_rescaled_repeated :
    ∃ p', Problem.ofRows [[1, 1, 1], [-1, -1, -1]] [6, -6] [-2, -4, 0] .minimize = .ok p' ∧
      ∃ answer answer', exact.solve? repeated = some (answer, exact) ∧
        exact.solve? p' = some (answer', exact) ∧ answer'.log = answer.log ∧
        answer.result = .ok (.optimal ⟨-4, [0, 2, 0], [1], ⟨1, 1⟩⟩) ∧
        answer'.result = .ok (.optimal ⟨-24, [0, 6, 0], [1], ⟨1, 1⟩⟩) := by
  obtain ⟨p', hp, result, heard, heard', -, hsolve⟩ :=
    solve?_rescaled exact.options rfl exact.rule repeated (three_pos : (0 : ℚ) < 3)
      (two_pos : (0 : ℚ) < 2)
  obtain ⟨log, log', hlog, hlog', heq⟩ := hsolve .silent ()
  have hresult : (exact.solve? repeated).map (fun reply => reply.1.result) =
      some (.ok (.optimal ⟨-4, [0, 2, 0], [1], ⟨1, 1⟩⟩)) := by decide +kernel
  rw [show exact.solve? repeated = _ from hlog, Option.map_some, Option.some.injEq] at hresult
  have hdata : Problem.ofRows [[1, 1, 1], [-1, -1, -1]] [6, -6] [-2, -4, 0] .minimize = .ok p' := by
    rw [← hp]
    congr 1
    · norm_num [repeated]
    · norm_num [repeated, Problem.cost, Problem.orient]
  refine ⟨p', hdata, _, _, hlog, hlog', heq fun _ => rfl, hresult, ?_⟩
  rw [show result = _ from hresult]
  norm_num [Except.map, Outcome.rescaled]

end Engine

end SimplexMethod
