import Mathlib.Tactic
import SimplexMethod.Proofs.TwoPhase.Account
import SimplexMethod.Proofs.TwoPhase.Verdicts

/-!
# Signs

A constraint says the same when both its sides change their signs, and to maximize is to minimize
the negated cost. The method does not even notice (`Engine.solve?_mirrored`): unless the value of
the constraint is zero, the artificial problem gives both forms of it the same sign
(`Problem.artificialTableau_mirrored`), and both phases work with the cost of the minimization,
which stays the same. So the runs are equal, tableau by tableau, and what differs is the direction
in the first entry of the log and the sign of the objective that is reported.

A constraint whose value is zero is left out here: it keeps the sign of its row, which decides the
entries at which pivots can be made.
-/

set_option autoImplicit false

namespace SimplexMethod

/-- The list with the elements at the chosen positions changed. -/
def changeAt {α : Type} (change : α → α) (chosen : Nat → Bool) (xs : List α) : List α :=
  xs.mapIdx fun i x => if chosen i then change x else x

theorem length_changeAt {α : Type} {change : α → α} {chosen : Nat → Bool} {xs : List α} :
    (changeAt change chosen xs).length = xs.length := List.length_mapIdx

theorem changeAt_getElem? {α : Type} {change : α → α} {chosen : Nat → Bool} {xs : List α}
    (i : Nat) : (changeAt change chosen xs)[i]? =
      xs[i]?.map fun x => if chosen i then change x else x := List.getElem?_mapIdx

/-- The outcome with another objective in place of the optimal one. -/
def Outcome.mapObjective {F : Type} (f : F → F) : Outcome F → Outcome F
  | infeasible => .infeasible
  | optimal solution => .optimal { solution with objective := f solution.objective }
  | unbounded ray => .unbounded ray

namespace Problem

variable {p : Problem ℚ} {chosen : Nat → Bool} {flipped : Bool}

/-! ## Changing signs -/

/-- The problem with the chosen constraints negated, and minimized in place of maximized or the
other way round if it is flipped. The cost of the minimization stays the same then. -/
def mirrored (p : Problem ℚ) (chosen : Nat → Bool) (flipped : Bool) : Problem ℚ where
  constraints := ⟨changeAt (List.map (-·)) chosen p.constraints.rows, p.constraints.columns⟩
  values := changeAt (-·) chosen p.values
  minimizationCost := p.minimizationCost
  direction := if flipped then p.direction.opposite else p.direction
  rows_ne_nil := by
    rw [← List.length_pos_iff, length_changeAt]
    exact List.length_pos_iff.2 p.rows_ne_nil
  columns_pos := p.columns_pos
  rectangular := by
    intro row hrow
    obtain ⟨i, hi⟩ := List.mem_iff_getElem?.1 hrow
    rw [changeAt_getElem?, Option.map_eq_some_iff] at hi
    obtain ⟨row, hget, rfl⟩ := hi
    have hlen := p.rectangular row (List.mem_of_getElem? hget)
    split
    · rwa [List.length_map]
    · exact hlen
  values_length := by
    rw [length_changeAt, p.values_length]
    exact length_changeAt.symm
  cost_length := p.cost_length

theorem mirrored_cost :
    (p.mirrored chosen flipped).cost = if flipped then p.cost.map (-·) else p.cost := by
  cases flipped with
  | false => rfl
  | true =>
    unfold cost orient
    simp only [mirrored, if_true]
    cases p.direction <;> simp [Direction.opposite]

theorem mirrored_reported (minimized : ℚ) : (p.mirrored chosen flipped).reported minimized =
    if flipped then -p.reported minimized else p.reported minimized := by
  cases flipped with
  | false => rfl
  | true =>
    unfold reported
    simp only [mirrored, if_true]
    cases p.direction <;> simp [Direction.opposite]

/-- The mirrored problem is what the negated data make. -/
theorem ofRows_mirrored (p : Problem ℚ) (chosen : Nat → Bool) (flipped : Bool) :
    ofRows (changeAt (List.map (-·)) chosen p.constraints.rows) (changeAt (-·) chosen p.values)
      (if flipped then p.cost.map (-·) else p.cost)
      (if flipped then p.direction.opposite else p.direction) =
        .ok (p.mirrored chosen flipped) := by
  have hcost : (p.mirrored chosen flipped).cost = _ := mirrored_cost
  rw [← hcost]
  exact ofRows_eq neg_neg (p.mirrored chosen flipped)

/-! ## The artificial problem -/

theorem signFor_neg {value : ℚ} (hvalue : value ≠ 0) : signFor (-value) = -signFor value := by
  unfold signFor
  rcases lt_or_gt_of_ne hvalue with hneg | hpos
  · have hnot : ¬ -value < 0 := by simpa using hneg.le
    rw [if_neg hnot, if_pos hneg, neg_neg]
  · have hlt : -value < 0 := by simpa using hpos
    rw [if_pos hlt, if_neg hpos.not_gt]

/-- Both forms of a constraint get the same sign in the end. -/
theorem signedRows_mirrored (hchosen : ∀ i, chosen i = true → p.values[i]? ≠ some 0) :
    (p.mirrored chosen flipped).signedRows = p.signedRows := by
  apply List.ext_getElem?
  intro i
  simp only [signedRows, List.getElem?_zipWith, mirrored, changeAt_getElem?]
  cases hrow : p.constraints.rows[i]? with
  | none => rfl
  | some row =>
    cases hvalue : p.values[i]? with
    | none => rfl
    | some value =>
      simp only [Option.map_some]
      split
      · next hi =>
        have hne : value ≠ 0 := fun hzero => hchosen i hi (hzero ▸ hvalue)
        simp [signFor_neg hne, Function.comp_def]
      · rfl

theorem signedValues_mirrored (hchosen : ∀ i, chosen i = true → p.values[i]? ≠ some 0) :
    (p.mirrored chosen flipped).signedValues = p.signedValues := by
  apply List.ext_getElem?
  intro i
  simp only [signedValues, List.getElem?_map, mirrored, changeAt_getElem?]
  cases hvalue : p.values[i]? with
  | none => rfl
  | some value =>
    simp only [Option.map_some]
    split
    · next hi =>
      have hne : value ≠ 0 := fun hzero => hchosen i hi (hzero ▸ hvalue)
      simp [signFor_neg hne]
    · rfl

/-- The artificial problem is the same. -/
theorem artificialTableau_mirrored (hchosen : ∀ i, chosen i = true → p.values[i]? ≠ some 0) :
    (p.mirrored chosen flipped).artificialTableau = p.artificialTableau := by
  have hcount : (p.mirrored chosen flipped).constraintCount = p.constraintCount := length_changeAt
  have hvariables : (p.mirrored chosen flipped).variableCount = p.variableCount := rfl
  simp only [artificialTableau, hcount, hvariables, signedRows_mirrored hchosen,
    signedValues_mirrored hchosen]

/-! ## The run -/

/-- The run is the same: phase two reads the cost of the minimization and nothing else. -/
theorem run?_mirrored (hchosen : ∀ i, chosen i = true → p.values[i]? ≠ some 0)
    (options : Options ℚ) (rule : PivotRule) :
    (p.mirrored chosen flipped).run? options rule = p.run? options rule := by
  rw [run?_eq, run?_eq, artificialTableau_mirrored hchosen]
  rfl

theorem result_mirrored (run : Run ℚ) : run.result (p.mirrored chosen flipped) =
    (run.result p).map (Outcome.mapObjective fun z => if flipped then -z else z) := by
  cases run with
  | abandoned one error => rfl
  | infeasible one => rfl
  | entered one redundant two =>
    obtain ⟨w, outcome⟩ := two
    rcases outcome with error | ⟨minimum, values, basis⟩ | ray
    · rfl
    · simp only [Run.result, Except.map, Optimum.outcome, Outcome.mapObjective, mirrored_reported]
    · rfl

/-- What comes up in the run is the same but for the direction at the start. -/
theorem record_mirrored (run : Run ℚ) (options : Options ℚ) :
    (run.record (p.mirrored chosen flipped) options).tail = (run.record p options).tail := by
  cases run with
  | abandoned one error => rfl
  | infeasible one => rfl
  | entered one redundant two =>
    obtain ⟨w, outcome⟩ := two
    rcases outcome with error | ⟨minimum, values, basis⟩ | ray <;> rfl

end Problem

namespace Engine

variable {σ : Type}

/-- The first entry of the log says which program is solved. -/
theorem log_record_tail (listener : Listener ℚ σ) (run : Run ℚ) (p : Problem ℚ)
    (options : Options ℚ) :
    (listener.log (run.record p options)).tail = listener.log (run.record p options).tail := rfl

/-- Negate constraints whose values are not zero, and perhaps the cost together with the direction.
Whatever the settings of an engine are, the answer to the program is the same as before, in the same
state of the listener and with the same log after its first entry; only the objective is negated,
and it is so exactly if the direction was. -/
theorem solve?_mirrored (engine : Engine ℚ σ) (p : Problem ℚ) {chosen : Nat → Bool}
    (hchosen : ∀ i, chosen i = true → p.values[i]? ≠ some 0) (flipped : Bool) :
    ∃ p', Problem.ofRows (changeAt (List.map (-·)) chosen p.constraints.rows)
        (changeAt (-·) chosen p.values) (if flipped then p.cost.map (-·) else p.cost)
        (if flipped then p.direction.opposite else p.direction) = .ok p' ∧
      ∃ answer answer' state, engine.solve? p = some (answer, { engine with state }) ∧
        engine.solve? p' = some (answer', { engine with state }) ∧
        answer'.log.tail = answer.log.tail ∧ answer'.result =
          answer.result.map (Outcome.mapObjective fun z => if flipped then -z else z) := by
  obtain ⟨run, hrun⟩ := p.exists_run? engine.options engine.rule
  have hrun' : (p.mirrored chosen flipped).run? engine.options engine.rule = some run :=
    (Problem.run?_mirrored hchosen _ _).trans hrun
  refine ⟨p.mirrored chosen flipped, p.ofRows_mirrored chosen flipped, _, _, _,
    solve?_of_run? hrun engine.listener engine.state,
    solve?_of_run? hrun' engine.listener engine.state, ?_, Problem.result_mirrored run⟩
  rw [log_record_tail, log_record_tail, Problem.record_mirrored]

/-- The second constraint negated, and the program maximized. -/
theorem solve?_mirrored_repeated : ∃ p', Problem.ofRows [[1, 1, 1], [1, 1, 1]] [2, 2] [1, 2, 0]
      .maximize = .ok p' ∧
    ∃ answer answer' state, exact.solve? repeated = some (answer, { exact with state }) ∧
      exact.solve? p' = some (answer', { exact with state }) ∧
      answer.result = .ok (.optimal ⟨-4, [0, 2, 0], [1], ⟨1, 1⟩⟩) ∧
      answer'.result = .ok (.optimal ⟨4, [0, 2, 0], [1], ⟨1, 1⟩⟩) := by
  have hchosen : ∀ i, (i == 1) = true → repeated.values[i]? ≠ some 0 := by
    intro i hi
    obtain rfl := beq_iff_eq.1 hi
    decide +kernel
  obtain ⟨p', hp, answer, answer', state, hsolve, hsolve', -, hresult'⟩ :=
    solve?_mirrored exact repeated hchosen true
  have hresult : (exact.solve? repeated).map (fun reply => reply.1.result) =
      some (.ok (.optimal ⟨-4, [0, 2, 0], [1], ⟨1, 1⟩⟩)) := by decide +kernel
  rw [hsolve, Option.map_some, Option.some.injEq] at hresult
  have hdata : Problem.ofRows [[1, 1, 1], [1, 1, 1]] [2, 2] [1, 2, 0] .maximize = .ok p' := by
    rw [← hp]
    congr 1
  refine ⟨p', hdata, answer, answer', state, hsolve, hsolve', hresult, ?_⟩
  rw [hresult', hresult]
  norm_num [Except.map, Outcome.mapObjective]

end Engine

end SimplexMethod
