import Mathlib.Tactic
import SimplexMethod.Proofs.TwoPhase.Account

/-!
# Listening while a solve goes on

An engine runs the method first and plays the record of the run to its listener. Here the listener
is called in the middle of the loops instead, at each start, pivot and end of a phase, and takes its
state from call to call (`Attended`). Both are the same, at every exit of every loop
(`Engine.solveAttended?_eq`): a loop that is attended goes as it does unattended, and what its
listener has made of it is what it makes of the record of the walk so far
(`run_descendAttended`, `run_expelAttended`).

So listeners cannot change what a solve comes to, and an engine keeps nothing from one program to
the next but the state of its listener (`Engine.solveAll?_independent`).
-/

set_option autoImplicit false

namespace SimplexMethod

variable {F σ : Type}

/-! ## Attendance -/

/-- What a listener has made of a solve so far: the log, and its own state. -/
structure Attendance (F σ : Type) where
  log : List (Entry F)
  state : σ

/-- A part of a solve that a listener attends. -/
abbrev Attended (F σ : Type) := StateT (Attendance F σ) Checked

namespace Listener

variable (listener : Listener F σ) (a : Attendance F σ)

/-- What comes up goes to the log, or is heard and remarked on. -/
def attend : Occurrence F → Attendance F σ
  | .logged entry => { a with log := a.log ++ [entry] }
  | .noticed notice => ⟨a.log ++ listener.remarks notice, listener.hear a.state notice⟩

/-- Attends to one thing after the other. -/
def attendAll (record : List (Occurrence F)) : Attendance F σ := record.foldl listener.attend a

/-- Attending to a record makes the log of the record and the state after its notices. -/
theorem attendAll_eq (record : List (Occurrence F)) : listener.attendAll a record =
    ⟨a.log ++ listener.log record, listener.listen a.state (notices record)⟩ := by
  induction record generalizing a with
  | nil => simp [attendAll, Listener.log, listen, notices]
  | cons occurrence record ih =>
    rw [attendAll, List.foldl_cons, ← attendAll, ih]
    cases occurrence <;> simp [attend, Listener.log, listen, notices]

@[simp]
theorem attendAll_nil : listener.attendAll a [] = a := rfl

@[simp]
theorem attendAll_cons (occurrence : Occurrence F) (record : List (Occurrence F)) :
    listener.attendAll a (occurrence :: record) =
      listener.attendAll (listener.attend a occurrence) record := rfl

@[simp]
theorem attendAll_append (first second : List (Occurrence F)) :
    listener.attendAll a (first ++ second) =
      listener.attendAll (listener.attendAll a first) second := List.foldl_append

/-- Brings up one thing after the other. -/
def bringUp (record : List (Occurrence F)) : Attended F σ Unit :=
  modify fun a => listener.attendAll a record

@[simp]
theorem run_bringUp (record : List (Occurrence F)) :
    (listener.bringUp record).run a = some ((), listener.attendAll a record) := rfl

end Listener

/-- What is read in a part of a solve is not attended to. -/
theorem run_bind_checked {α β : Type} (m : Checked α) (f : α → Attended F σ β)
    (a : Attendance F σ) : (liftM m >>= f).run a = m.bind fun x => (f x).run a := by
  cases m <;> rfl

/-! ## Records of parts -/

theorem Walk.record_step (w : Walk F) (phase : Phase) (step : Step F) :
    (⟨w.start, step :: w.steps⟩ : Walk F).record phase = w.record phase ++
      [.logged (.pivoted phase (w.pivotCount + 1) step.pivot),
        .noticed (.pivoted step.pivot ⟨phase, w.pivotCount + 1, step.tableau⟩)] := by
  simp [record, List.zipIdx_append, pivotCount]

/-- What comes up at the end of a descent. -/
def Descent.record (options : Options F) (phase : Phase) : Descent F → List (Occurrence F)
  | limit => [.logged (.pivotLimit phase options.pivotLimit)]
  | _ => []

/-- What comes up when rows are done: they may have been given up. -/
def expelRecord (options : Options F) : Option (List Nat) → List (Occurrence F)
  | none => [.logged (.pivotLimit .one options.pivotLimit)]
  | some _ => []

/-- What comes up in a phase. -/
def Stage.record {α : Type} (stage : Stage F α) (options : Options F) (phase : Phase) :
    List (Occurrence F) :=
  stage.walk.record phase ++
    match stage.outcome with
    | .error error => error.record options
    | .ok _ => [stage.walk.finish phase]

section Attended

variable [Scalar F] (listener : Listener F σ) (options : Options F) (rule : PivotRule)

/-! ## Attended loops -/

/-- A pivot that is logged and heard as soon as it is made. -/
def Walk.pivotAttended (w : Walk F) (phase : Phase) (entering row : Nat) :
    Attended F σ (Walk F) := do
  let (leaving, tableau) ← w.tableau.bringIn? entering row
  let pivot : Pivot := ⟨entering, leaving, row⟩
  listener.bringUp [.logged (.pivoted phase (w.pivotCount + 1) pivot),
    .noticed (.pivoted pivot ⟨phase, w.pivotCount + 1, tableau⟩)]
  return { w with steps := ⟨pivot, tableau⟩ :: w.steps }

/-- A descent that is attended. -/
def descendAttended (phase : Phase) : Nat → Walk F → Attended F σ (Walk F × Descent F)
  | 0, w => do
    match ← (w.tableau.move? rule options.tolerance : Checked (Move F)) with
    | .stay => return (w, .optimal)
    | .fall entering column => return (w, .unbounded entering column)
    | .pivot _ _ =>
      listener.bringUp [.logged (.pivotLimit phase options.pivotLimit)]
      return (w, .limit)
  | allowed + 1, w => do
    match ← (w.tableau.move? rule options.tolerance : Checked (Move F)) with
    | .stay => return (w, .optimal)
    | .fall entering column => return (w, .unbounded entering column)
    | .pivot entering row =>
      descendAttended phase allowed (← w.pivotAttended listener phase entering row)

/-- The expulsion of artificial variables that is attended. -/
def expelAttended : List Nat → Walk F → Attended F σ (Walk F × Option (List Nat))
  | [], w => return (w, some [])
  | row :: rows, w => do
    if w.tableau.IsArtificial (← (w.tableau.basic? row : Checked Nat)) then
      match ← (w.tableau.replacement? row options.tolerance : Checked (Option Nat)) with
      | some entering =>
        if w.pivotCount < options.pivotLimit then
          expelAttended rows (← w.pivotAttended listener .one entering row)
        else
          listener.bringUp [.logged (.pivotLimit .one options.pivotLimit)]
          return (w, none)
      | none =>
        let (w, redundant) ← expelAttended rows w
        return (w, redundant.map (row :: ·))
    else expelAttended rows w

/-! ## Attended phases -/

/-- Phase one, attended. -/
def phaseOneAttended (start : Tableau F) : Attended F σ (Stage F Feasibility) := do
  listener.bringUp [.noticed (.started ⟨.one, 0, start⟩)]
  let (w, ending) ←
    descendAttended listener options rule .one options.pivotLimit (.startingAt start)
  match ending with
  | .limit => return ⟨w, .error (.pivotLimit .one w.pivotCount)⟩
  | .unbounded _ _ => return ⟨w, .error .artificialUnbounded⟩
  | .optimal =>
    if options.tolerance < Scalar.abs (← (w.tableau.objective? : Checked F)) then
      listener.bringUp [w.finish .one]
      return ⟨w, .ok .infeasible⟩
    else if w.tableau.hasArtificialBasic then
      let (w, redundant) ← expelAttended listener options (List.range w.tableau.rowCount) w
      match redundant with
      | none => return ⟨w, .error (.pivotLimit .one w.pivotCount)⟩
      | some redundant =>
        listener.bringUp [w.finish .one]
        return ⟨w, .ok (.feasible redundant)⟩
    else
      listener.bringUp [w.finish .one]
      return ⟨w, .ok (.feasible [])⟩

/-- Phase two, attended. -/
def phaseTwoAttended (start : Tableau F) : Attended F σ (Stage F (Optimum F)) := do
  listener.bringUp [.noticed (.started ⟨.two, 0, start⟩)]
  let (w, ending) ←
    descendAttended listener options rule .two options.pivotLimit (.startingAt start)
  match ending with
  | .limit => return ⟨w, .error (.pivotLimit .two w.pivotCount)⟩
  | .unbounded entering column =>
    listener.bringUp [w.finish .two]
    let direction ← (w.tableau.direction? entering column : Checked (List F))
    let point ← (w.tableau.basicSolution? : Checked (List F))
    return ⟨w, .ok (.unbounded ⟨point, direction⟩)⟩
  | .optimal =>
    listener.bringUp [w.finish .two]
    let minimum ← (w.tableau.objective? : Checked F)
    let values ← (w.tableau.basicSolution? : Checked (List F))
    return ⟨w, .ok (.attained minimum values w.tableau.basis)⟩

/-- A run, attended. -/
def Problem.runAttended (p : Problem F) : Attended F σ (Run F) := do
  listener.bringUp [.logged (.solving p.constraintCount p.variableCount p.direction)]
  let start ← (p.artificialTableau? : Checked (Tableau F))
  let one ← phaseOneAttended listener options rule start
  match one.outcome with
  | .error error => return .abandoned one.walk error
  | .ok .infeasible =>
    listener.bringUp [.logged (.infeasible one.walk.pivotCount)]
    return .infeasible one.walk
  | .ok (.feasible redundant) =>
    listener.bringUp (if redundant.isEmpty then [] else [.logged (.redundant redundant)])
    let start ← (one.walk.tableau.withCosts? redundant p : Checked (Tableau F))
    let two ← phaseTwoAttended listener options rule start
    match two.outcome with
    | .error _ => return .entered one.walk redundant two
    | .ok optimum =>
      let pivots := ⟨one.walk.pivotCount, two.walk.pivotCount⟩
      listener.bringUp [.logged (.solved (optimum.outcome p pivots).status pivots)]
      return .entered one.walk redundant two

/-! ## Attending and playing the record -/

theorem run_pivotAttended (w : Walk F) (phase : Phase) (entering row : Nat)
    (a : Attendance F σ) :
    (w.pivotAttended listener phase entering row).run (listener.attendAll a (w.record phase)) =
      (w.pivot? entering row).map fun w' => (w', listener.attendAll a (w'.record phase)) := by
  rw [Walk.pivotAttended, Walk.pivot?, run_bind_checked]
  cases w.tableau.bringIn? entering row with
  | none => rfl
  | some reply =>
    have hrecord := w.record_step phase ⟨⟨entering, reply.1, row⟩, reply.2⟩
    simp only [Option.bind_eq_bind, Option.bind_some, Option.pure_def, Option.map_some, hrecord,
      Listener.attendAll_append]
    rfl

/-- A pivot that is attended, before anything else. -/
theorem run_bind_pivotAttended {β : Type} (w : Walk F) (phase : Phase) (entering row : Nat)
    (f : Walk F → Attended F σ β) (a : Attendance F σ) :
    (w.pivotAttended listener phase entering row >>= f).run
        (listener.attendAll a (w.record phase)) =
      (w.pivot? entering row).bind fun w' =>
        (f w').run (listener.attendAll a (w'.record phase)) := by
  rw [StateT.run_bind, run_pivotAttended]
  cases w.pivot? entering row <;> rfl

/-- A descent that is attended goes as it does unattended. The induction is on the pivots that are
allowed. -/
theorem run_descendAttended (phase : Phase) (allowed : Nat) (w : Walk F) (a : Attendance F σ) :
    (descendAttended listener options rule phase allowed w).run
        (listener.attendAll a (w.record phase)) =
      (descend? rule options.tolerance allowed w).map fun (w', ending) =>
        ((w', ending), listener.attendAll a (w'.record phase ++ ending.record options phase)) := by
  induction allowed generalizing w with
  | zero =>
    rw [descendAttended, descend?, run_bind_checked]
    cases w.tableau.move? rule options.tolerance with
    | none => rfl
    | some move => cases move <;> simp [Descent.record]
  | succ allowed ih =>
    rw [descendAttended, descend?, run_bind_checked]
    cases w.tableau.move? rule options.tolerance with
    | none => rfl
    | some move =>
      cases move with
      | stay => simp [Descent.record]
      | fall entering column => simp [Descent.record]
      | pivot entering row =>
        simp only [Option.bind_eq_bind, Option.bind_some, run_bind_pivotAttended, ih,
          Option.map_bind]
        rfl

/-- Expelling goes attended as it does unattended. The induction is on the rows. -/
theorem run_expelAttended (rows : List Nat) (w : Walk F) (a : Attendance F σ) :
    (expelAttended listener options rows w).run (listener.attendAll a (w.record .one)) =
      (expel? options rows w).map fun (w', result) =>
        ((w', result), listener.attendAll a (w'.record .one ++ expelRecord options result)) := by
  induction rows generalizing w with
  | nil => simp [expelAttended, expel?, expelRecord]
  | cons row rows ih =>
    rw [expelAttended, expel?, run_bind_checked]
    cases w.tableau.basic? row with
    | none => rfl
    | some basic =>
      simp only [Option.bind_eq_bind, Option.bind_some]
      split
      · rw [run_bind_checked]
        cases w.tableau.replacement? row options.tolerance with
        | none => rfl
        | some choice =>
          simp only [Option.bind_some]
          cases choice with
          | none =>
            dsimp only
            rw [StateT.run_bind, ih]
            cases expel? options rows w with
            | none => rfl
            | some reply =>
              obtain ⟨w', result⟩ := reply
              cases result <;> rfl
          | some entering =>
            dsimp only
            split
            · simp only [run_bind_pivotAttended, ih, Option.map_bind]
              rfl
            · simp [expelRecord]
      · exact ih w

/-- Phase one goes attended as it does unattended. -/
theorem run_phaseOneAttended (start : Tableau F) (a : Attendance F σ) :
    (phaseOneAttended listener options rule start).run a =
      (phaseOne? options rule start).map fun stage =>
        (stage, listener.attendAll a (stage.record options .one)) := by
  -- That the phase has started is the record of a walk without steps.
  have hdescend : (descendAttended listener options rule .one options.pivotLimit
      (.startingAt start)).run (listener.attendAll a [.noticed (.started ⟨.one, 0, start⟩)]) = _ :=
    run_descendAttended listener options rule .one options.pivotLimit (.startingAt start) a
  rw [phaseOneAttended, phaseOne?, StateT.run_bind, Listener.run_bringUp]
  simp only [Option.bind_eq_bind, Option.bind_some]
  rw [StateT.run_bind, hdescend]
  cases descend? rule options.tolerance options.pivotLimit (.startingAt start) with
  | none => rfl
  | some reply =>
    obtain ⟨w, ending⟩ := reply
    simp only [Option.bind_eq_bind, Option.map_some, Option.bind_some]
    cases ending with
    | limit => rfl
    | unbounded entering column => rfl
    | optimal =>
      simp only [Descent.record, List.append_nil, run_bind_checked]
      cases w.tableau.objective? with
      | none => rfl
      | some objective =>
        simp only [Option.bind_some]
        split
        · simp [Stage.record]
        · split
          · rw [StateT.run_bind, run_expelAttended]
            cases expel? options (List.range w.tableau.rowCount) w with
            | none => rfl
            | some reply =>
              obtain ⟨w', result⟩ := reply
              cases result with
              | none => rfl
              | some redundant => simp [Stage.record, expelRecord]
          · simp [Stage.record]

/-- Phase two goes attended as it does unattended. -/
theorem run_phaseTwoAttended (start : Tableau F) (a : Attendance F σ) :
    (phaseTwoAttended listener options rule start).run a =
      (phaseTwo? options rule start).map fun stage =>
        (stage, listener.attendAll a (stage.record options .two)) := by
  have hdescend : (descendAttended listener options rule .two options.pivotLimit
      (.startingAt start)).run (listener.attendAll a [.noticed (.started ⟨.two, 0, start⟩)]) = _ :=
    run_descendAttended listener options rule .two options.pivotLimit (.startingAt start) a
  rw [phaseTwoAttended, phaseTwo?, StateT.run_bind, Listener.run_bringUp]
  simp only [Option.bind_eq_bind, Option.bind_some]
  rw [StateT.run_bind, hdescend]
  cases descend? rule options.tolerance options.pivotLimit (.startingAt start) with
  | none => rfl
  | some reply =>
    obtain ⟨w, ending⟩ := reply
    simp only [Option.bind_eq_bind, Option.map_some, Option.bind_some]
    cases ending with
    | limit => rfl
    | unbounded entering column =>
      cases hdirection : w.tableau.direction? entering column with
      | none => simp [Descent.record, hdirection]
      | some direction =>
        cases w.tableau.basicSolution? with
        | none => simp [Descent.record, hdirection]
        | some point => simp [Descent.record, hdirection, Stage.record]
    | optimal =>
      cases w.tableau.objective? with
      | none => simp [Descent.record]
      | some minimum =>
        cases w.tableau.basicSolution? with
        | none => simp [Descent.record]
        | some values => simp [Descent.record, Stage.record]

/-- A run goes attended as it does unattended, and its record is attended to. -/
theorem run_runAttended (p : Problem F) (a : Attendance F σ) :
    (p.runAttended listener options rule).run a =
      (p.run? options rule).map fun run =>
        (run, listener.attendAll a (run.record p options)) := by
  rw [Problem.runAttended, p.run?_eq, Problem.runFrom?, StateT.run_bind, Listener.run_bringUp]
  simp only [Option.bind_eq_bind, Option.bind_some, run_bind_checked, p.artificialTableau?_eq]
  rw [StateT.run_bind, run_phaseOneAttended]
  cases phaseOne? options rule p.artificialTableau with
  | none => rfl
  | some one =>
    obtain ⟨one, outcome⟩ := one
    simp only [Option.bind_eq_bind, Option.map_some, Option.bind_some]
    rcases outcome with error | redundant | _
    · rfl
    · dsimp only
      rw [StateT.run_bind, Listener.run_bringUp]
      simp only [Option.bind_eq_bind, Option.bind_some, run_bind_checked]
      cases one.tableau.withCosts? redundant p with
      | none => rfl
      | some start =>
        simp only [Option.bind_some]
        rw [StateT.run_bind, run_phaseTwoAttended]
        cases phaseTwo? options rule start with
        | none => rfl
        | some two =>
          obtain ⟨two, error | optimum⟩ := two
          · simp [Stage.record, Run.record]
          · simp [Stage.record, Run.record]
    · simp [Stage.record, Run.record]

end Attended

/-! ## Engines -/

namespace Listener

variable {τ : Type} {part : τ → σ} {replace : σ → τ → τ}

/-- A listener at work on a part hears what it would hear by itself. -/
theorem part_listen_onPart (listener : Listener F σ)
    (hpart : ∀ state whole, part (replace state whole) = state) (whole : τ)
    (heard : List (Notice F)) :
    part ((listener.onPart part replace).listen whole heard) =
      listener.listen (part whole) heard := by
  induction heard generalizing whole with
  | nil => rfl
  | cons notice heard ih =>
    rw [listen, List.foldl_cons, ← listen, ih]
    exact congrArg (fun state => heard.foldl listener.hear state) (hpart _ _)

end Listener

namespace Engine

variable [Scalar F]

/-- Solves a program while the listener attends. -/
def solveAttended? (engine : Engine F σ) (p : Problem F) : Checked (Answer F × Engine F σ) := do
  let (run, a) ←
    (p.runAttended engine.listener engine.options engine.rule).run ⟨[], engine.state⟩
  return (⟨run.result p, a.log⟩, { engine with state := a.state })

/-- It makes no difference whether the listener attends or is played the record. -/
theorem solveAttended?_eq (engine : Engine F σ) (p : Problem F) :
    engine.solveAttended? p = engine.solve? p := by
  rw [solveAttended?, solve?, run_runAttended]
  simp only [Listener.attendAll_eq]
  cases p.run? engine.options engine.rule <;> rfl

/-- Solves programs in turn while the listener attends. -/
def solveAllAttended? (engine : Engine F σ) :
    List (Problem F) → Checked (List (Answer F) × Engine F σ)
  | [] => some ([], engine)
  | p :: rest => do
    let (answer, engine) ← engine.solveAttended? p
    let (answers, engine) ← engine.solveAllAttended? rest
    return (answer :: answers, engine)

theorem solveAllAttended?_eq (engine : Engine F σ) (problems : List (Problem F)) :
    engine.solveAllAttended? problems = engine.solveAll? problems := by
  induction problems generalizing engine with
  | nil => rfl
  | cons p rest ih => simp only [solveAllAttended?, solveAll?, solveAttended?_eq, ih]

variable {options : Options F} {rule : PivotRule}

/-- The answers and the last state of an engine that solves programs in turn. The induction is on
the programs; the engine that is left by one of them differs in its state only. -/
theorem solveAll?_of_runs {runOf : Problem F → Run F}
    (hrun : ∀ p, p.run? options rule = some (runOf p)) (listener : Listener F σ) (state : σ)
    (problems : List (Problem F)) :
    (Engine.mk options rule listener state).solveAll? problems =
      some (problems.map fun p =>
          ⟨(runOf p).result p, listener.log ((runOf p).record p options)⟩,
        ⟨options, rule, listener,
          listener.listen state (problems.flatMap fun p => (runOf p).told)⟩) := by
  induction problems generalizing state with
  | nil => rfl
  | cons p rest ih =>
    rw [solveAll?, solve?_of_run? (hrun p)]
    simp only [Option.bind_eq_bind, Option.bind_some, ih, List.map_cons, List.flatMap_cons,
      Listener.listen, List.foldl_append, Option.pure_def]

/-- Engines carry nothing from one program to the next but the states of their listeners, and these
cannot change what a solve comes to. With the result and the events of a program being those of a
fresh engine, every engine gives the results of the programs that it solves in turn, and a history
gets their events one after the other, after those it starts with. It makes no difference whether a
listener attends the solves or is played their records, or whether it works on a part of something
larger. -/
theorem solveAll?_independent (options : Options F) (rule : PivotRule) :
    ∃ (result : Problem F → Except SolveError (Outcome F)) (events : Problem F → List Event),
      (∀ p, ∃ log, (Engine.mk options rule .silent ()).solve? p =
        some (⟨result p, log⟩, ⟨options, rule, .silent, ()⟩)) ∧
      (∀ p, ∃ answer, (Engine.mk options rule .history ∅).solve? p =
        some (answer, ⟨options, rule, .history, ⟨(events p).toArray⟩⟩)) ∧
      (∀ {σ : Type} (listener : Listener F σ) (state : σ) (problems : List (Problem F)),
        ∃ answers state',
          (Engine.mk options rule listener state).solveAll? problems =
            some (answers, ⟨options, rule, listener, state'⟩) ∧
          (Engine.mk options rule listener state).solveAllAttended? problems =
            some (answers, ⟨options, rule, listener, state'⟩) ∧
          answers.map Answer.result = problems.map result ∧
          ∀ {τ : Type} (part : τ → σ) (replace : σ → τ → τ) (whole : τ),
            (∀ state whole, part (replace state whole) = state) → part whole = state →
            ∃ whole', (Engine.mk options rule (listener.onPart part replace) whole).solveAll?
                problems =
              some (answers, ⟨options, rule, listener.onPart part replace, whole'⟩) ∧
              part whole' = state') ∧
      ∀ (history : History) (problems : List (Problem F)), ∃ answers,
        (Engine.mk options rule .history history).solveAll? problems = some (answers,
          ⟨options, rule, .history,
            ⟨history.events ++ (problems.flatMap events).toArray⟩⟩) := by
  choose runOf hrun using fun p : Problem F => p.exists_run? options rule
  refine ⟨fun p => (runOf p).result p, fun p => (runOf p).told.map Notice.event, fun p => ?_,
    fun p => ?_, fun listener state problems => ?_, fun history problems => ?_⟩
  · exact ⟨_, solve?_of_run? (hrun p) .silent ()⟩
  · have hfresh := solve?_of_run? (hrun p) .history ∅
    rw [Listener.listen_history_empty] at hfresh
    exact ⟨_, hfresh⟩
  · have hplayed := solveAll?_of_runs hrun listener state problems
    refine ⟨_, _, hplayed, (solveAllAttended?_eq _ _).trans hplayed, ?_,
      fun part replace whole hpart hwhole => ?_⟩
    · rw [List.map_map]
      rfl
    · refine ⟨_, solveAll?_of_runs hrun (listener.onPart part replace) whole problems, ?_⟩
      rw [listener.part_listen_onPart hpart, hwhole]
  · have hplayed := solveAll?_of_runs hrun .history history problems
    rw [Listener.listen_history, List.map_flatMap] at hplayed
    exact ⟨_, hplayed⟩

end Engine

end SimplexMethod
