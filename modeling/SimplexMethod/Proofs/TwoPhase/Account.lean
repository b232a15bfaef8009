import Mathlib.Tactic
import SimplexMethod.Proofs.TwoPhase.Bases
import SimplexMethod.TwoPhase.Engine

/-!
# The account of a solve

The notices of a solve are a full account of it, whatever the scalars are (`Engine.solve?_account`).
A phase tells of its start, of its pivots in order, and of its end unless it was given up; phase two
is told of only when phase one found a feasible basis (`Problem.Account`). Nothing that is not told
is needed to go through the solve again: making the pivots of the notices one after the other gives
the walks of both phases, with all tableaus (`Walk.replay?_pivots`), and the redundant rows, which
are left out between the phases, are those in which an artificial variable is left
(`Problem.redundant_eq_of_run?`).

On the bases alone, which is what a history keeps, each event follows from the one before it
(`Event.Follows`, `Problem.Account.isChain`).
-/

set_option autoImplicit false

namespace SimplexMethod

variable {F : Type}

open Tableau

/-! ## Making pivots again -/

/-- The pivots of a walk in the order in which they were made. -/
def Walk.pivots (w : Walk F) : List Pivot := w.steps.reverse.map Step.pivot

/-- Continues a walk by bringing in the entering columns of the pivots in their rows. -/
def Walk.replay? [Scalar F] (w : Walk F) (pivots : List Pivot) : Checked (Walk F) :=
  pivots.foldlM (fun w pivot => w.pivot? pivot.entering pivot.row) w

/-- The walk makes no more pivots than are allowed, and making them again from the tableau gives the
walk, with the same columns leaving and the same tableaus. -/
structure Walk.Replays [Scalar F] (w : Walk F) (start : Tableau F) (limit : Nat) : Prop where
  replay?_eq : (startingAt start).replay? w.pivots = some w
  pivotCount_le : w.pivotCount ≤ limit

/-- A legal walk can be gone again. -/
theorem Walk.replay?_pivots [Scalar F] {w : Walk F} (h : w.Legal) :
    (startingAt w.start).replay? w.pivots = some w := by
  induction h with
  | startingAt t => rfl
  | @step w pivot t hlegal hexchanges ih =>
    have hpivots : (⟨w.start, ⟨pivot, t⟩ :: w.steps⟩ : Walk F).pivots = w.pivots ++ [pivot] := by
      simp [pivots]
    have hstep : w.pivot? pivot.entering pivot.row =
        some ⟨w.start, ⟨pivot, t⟩ :: w.steps⟩ := by
      rw [pivot?, hexchanges.bringIn?_eq]
      rfl
    rw [replay?] at ih
    rw [hpivots, replay?, List.foldlM_append, ih]
    exact (Option.bind_some ..).trans (by rw [List.foldlM_cons, hstep]; rfl)

theorem Stage.Lawful.replays [Scalar F] {α : Type} {stage : Stage F α} {phase : Phase}
    {start : Tableau F} {limit : Nat} (h : stage.Lawful phase start limit) :
    stage.walk.Replays start limit :=
  ⟨h.start_eq ▸ Walk.replay?_pivots h.legal, h.pivotCount_le⟩

/-! ## What is told of a run -/

namespace Walk

variable {w : Walk F} {phase : Phase}

/-- What is told of the walk of a phase: its start, and its pivots with their numbers. -/
def told (w : Walk F) (phase : Phase) : List (Notice F) :=
  .started ⟨phase, 0, w.start⟩ ::
    w.steps.reverse.zipIdx.map fun (step, made) =>
      .pivoted step.pivot ⟨phase, made + 1, step.tableau⟩

/-- What is told when a phase ends. -/
def ended (w : Walk F) (phase : Phase) : Notice F := .finished ⟨phase, w.pivotCount, w.tableau⟩

theorem told_step (step : Step F) :
    (⟨w.start, step :: w.steps⟩ : Walk F).told phase =
      w.told phase ++ [.pivoted step.pivot ⟨phase, w.pivotCount + 1, step.tableau⟩] := by
  simp [told, List.zipIdx_append, pivotCount]

/-- The notices of a walk, which also makes log entries, are what is told of it. -/
theorem notices_record : notices (w.record phase) = w.told phase := by
  simp only [notices, record, told, List.filterMap_cons, List.filterMap_flatMap]
  rw [List.map_eq_flatMap]
  rfl

/-- What is told of a walk shows its tableaus. -/
theorem All.of_mem_told {P : Tableau F → Prop} (hw : w.All P) {notice : Notice F}
    (hmem : notice ∈ w.told phase) : P notice.moment.tableau := by
  rcases List.mem_cons.1 hmem with rfl | hmem
  · exact hw.1
  · obtain ⟨⟨step, made⟩, hstep, rfl⟩ := List.mem_map.1 hmem
    exact hw.2 step (List.mem_reverse.1 (List.fst_mem_of_mem_zipIdx hstep))

end Walk

theorem notices_append (first second : List (Occurrence F)) :
    notices (first ++ second) = notices first ++ notices second :=
  List.filterMap_append

/-- Nothing is told when a phase is given up. -/
theorem SolveError.notices_record (options : Options F) (error : SolveError) :
    notices (error.record options) = [] := by
  cases error <;> rfl

/-- What is told of a run. -/
def Run.told : Run F → List (Notice F)
  | abandoned one _ => one.told .one
  | infeasible one => one.told .one ++ [one.ended .one]
  | entered one _ two =>
    one.told .one ++ [one.ended .one] ++ two.walk.told .two ++
      match two.outcome with
      | .error _ => []
      | .ok _ => [two.walk.ended .two]

/-- What is told of a run shows the tableaus of its walks. -/
theorem Run.of_mem_told {P : Tableau F → Prop} {run : Run F}
    (hrun : ∀ phase w, (phase, w) ∈ run.walks → w.All P) {notice : Notice F}
    (hmem : notice ∈ run.told) : P notice.moment.tableau := by
  have hone {one : Walk F} (hw : one.All P) (h : notice ∈ one.told .one ++ [one.ended .one]) :
      P notice.moment.tableau := by
    rcases List.mem_append.1 h with h | h
    · exact hw.of_mem_told h
    · rw [List.mem_singleton.1 h]
      exact hw.tableau
  cases run with
  | abandoned one error => exact (hrun .one one (List.mem_singleton_self _)).of_mem_told hmem
  | infeasible one => exact hone (hrun .one one (List.mem_singleton_self _)) hmem
  | entered one redundant two =>
    have htwo := hrun .two two.walk (List.mem_pair.2 (Or.inr rfl))
    rcases List.mem_append.1 hmem with hmem | hmem
    · rcases List.mem_append.1 hmem with hmem | hmem
      · exact hone (hrun .one one List.mem_cons_self) hmem
      · exact htwo.of_mem_told hmem
    · cases hended : two.outcome with
      | error error =>
        rw [hended] at hmem
        exact absurd hmem List.not_mem_nil
      | ok optimum =>
        rw [hended] at hmem
        rw [List.mem_singleton.1 hmem]
        exact htwo.tableau

/-- The notices of a run are what is told of it. -/
theorem Run.notices_record [Scalar F] (run : Run F) (p : Problem F) (options : Options F) :
    notices (run.record p options) = run.told := by
  cases run with
  | abandoned one error =>
    show notices (one.record .one ++ error.record options) = _
    rw [notices_append, Walk.notices_record, SolveError.notices_record, List.append_nil, told]
  | infeasible one =>
    show notices (one.record .one ++ _) = _
    rw [notices_append, Walk.notices_record]
    rfl
  | entered one redundant two =>
    -- That rows are redundant is logged, but not told.
    have hlogged : notices (if redundant.isEmpty then ([] : List (Occurrence F))
        else [.logged (.redundant redundant)]) = [] := by
      split <;> rfl
    show notices (one.record .one ++ [one.finish .one] ++ _ ++ two.walk.record .two ++ _) = _
    simp only [notices_append, Walk.notices_record, hlogged, List.append_nil, told]
    congr 1
    cases two.outcome with
    | error error => exact SolveError.notices_record options error
    | ok optimum => rfl

/-! ## Accounts -/

namespace Problem

variable [Scalar F] {p : Problem F} {options : Options F} {rule : PivotRule}

/-- The notices are those of a solve with the result: they can be replayed from the tableau of the
artificial problem, and through the tableau of the program between the phases. -/
inductive Account (p : Problem F) (limit : Nat) :
    Except SolveError (Outcome F) → List (Notice F) → Prop where
  /-- Phase one was given up. -/
  | abandoned {one : Walk F} {error : SolveError} (first : one.Replays p.artificialTableau limit)
      (error_eq : error = .pivotLimit .one one.pivotCount ∨ error = .artificialUnbounded) :
      Account p limit (.error error) (one.told .one)
  /-- Phase one ended, and there is no phase two. -/
  | infeasible {one : Walk F} (first : one.Replays p.artificialTableau limit) :
      Account p limit (.ok .infeasible) (one.told .one ++ [one.ended .one])
  /-- Phase one ended, and phase two was given up. -/
  | limited {one two : Walk F} {start : Tableau F} (first : one.Replays p.artificialTableau limit)
      (withCosts?_eq : one.tableau.withCosts?
        (artificialPlaces p.variableCount one.tableau.basis) p = some start)
      (second : two.Replays start limit) :
      Account p limit (.error (.pivotLimit .two two.pivotCount))
        (one.told .one ++ [one.ended .one] ++ two.told .two)
  /-- Both phases ended, and a solution tells how many pivots they made. -/
  | solved {one two : Walk F} {start : Tableau F} {outcome : Outcome F}
      (first : one.Replays p.artificialTableau limit)
      (withCosts?_eq : one.tableau.withCosts?
        (artificialPlaces p.variableCount one.tableau.basis) p = some start)
      (second : two.Replays start limit) (ne_infeasible : outcome ≠ .infeasible)
      (pivots_eq : ∀ s, outcome = .optimal s → s.pivots = ⟨one.pivotCount, two.pivotCount⟩) :
      Account p limit (.ok outcome)
        (one.told .one ++ [one.ended .one] ++ two.told .two ++ [two.ended .two])

/-- What is told of a run is an account of it. -/
theorem account_of_run? {run : Run F} (h : p.run? options rule = some run) :
    p.Account options.pivotLimit (run.result p) run.told := by
  cases proceeds_of_run? h with
  | abandoned hone =>
    have hlawful := lawful_of_phaseOne? wellFormed_artificialTableau hone
    exact .abandoned hlawful.replays ((hlawful.error_eq _ rfl).imp_right And.right)
  | infeasible hone =>
    exact .infeasible (lawful_of_phaseOne? wellFormed_artificialTableau hone).replays
  | @entered one redundant start two hone hstart htwo =>
    have hfirst := (lawful_of_phaseOne? wellFormed_artificialTableau hone).replays
    have hlawful := lawful_of_phaseTwo? (fits_of_withCosts? hone hstart).wellFormed htwo
    rw [redundant_eq_of_run? h] at hstart
    obtain ⟨two, error | optimum⟩ := two
    · have herror : error = .pivotLimit .two two.pivotCount :=
        (hlawful.error_eq error rfl).resolve_right fun h => by cases h.1
      subst herror
      have htold : (Run.entered one redundant ⟨two, .error (.pivotLimit .two two.pivotCount)⟩).told =
          one.told .one ++ [one.ended .one] ++ two.told .two := List.append_nil _
      rw [htold]
      exact .limited hfirst hstart hlawful.replays
    · refine .solved hfirst hstart hlawful.replays ?_ ?_
      · cases optimum <;> nofun
      · cases optimum with
        | unbounded ray => nofun
        | attained minimum values basis =>
          rintro s ⟨⟩
          rfl

end Problem

/-! ## Histories -/

/-- The second event comes right after the first one in the history of a solve of a program with the
given number of variables. A pivot changes the basis in its row, the end of a phase leaves it as it
is, and phase two starts without the rows in which artificial variables are left. -/
inductive Event.Follows (variableCount : Nat) : Event → Event → Prop where
  | pivoted {phase : Phase} {step : Nat} {latest : Option Pivot} {basis : List Nat} {pivot : Pivot}
      (leaves : basis[pivot.row]? = some pivot.leaving) :
      Follows variableCount ⟨phase, step, latest, basis⟩
        ⟨phase, step + 1, some pivot, basis.set pivot.row pivot.entering⟩
  | finished {phase : Phase} {step : Nat} {latest : Option Pivot} {basis : List Nat} :
      Follows variableCount ⟨phase, step, latest, basis⟩ ⟨phase, step, none, basis⟩
  | restarted {step : Nat} {basis : List Nat} :
      Follows variableCount ⟨.one, step, none, basis⟩
        ⟨.two, 0, none, removePositions (artificialPlaces variableCount basis) basis⟩

namespace Walk

variable {w w' : Walk F} {phase : Phase}

/-- The last event of a walk shows the basis that it has reached. -/
theorem getLast?_told (w : Walk F) (phase : Phase) :
    ∃ latest, ((w.told phase).map Notice.event).getLast? =
      some ⟨phase, w.pivotCount, latest, w.tableau.basis⟩ := by
  obtain ⟨start, steps⟩ := w
  cases steps with
  | nil => exact ⟨none, rfl⟩
  | cons step steps =>
    refine ⟨some step.pivot, ?_⟩
    rw [told_step (w := ⟨start, steps⟩), List.map_append]
    exact List.getLast?_concat

/-- A chain of events is longer by one when the new event comes right after the last event of a
walk. -/
theorem isChain_told_append {n : Nat} {event : Event}
    (hw : List.IsChain (Event.Follows n) ((w.told phase).map Notice.event))
    (hnext : ∀ latest,
      Event.Follows n ⟨phase, w.pivotCount, latest, w.tableau.basis⟩ event) :
    List.IsChain (Event.Follows n) ((w.told phase).map Notice.event ++ [event]) := by
  obtain ⟨latest, hlast⟩ := w.getLast?_told phase
  refine List.isChain_append.2 ⟨hw, List.isChain_singleton _, ?_⟩
  rw [hlast]
  rintro _ ⟨⟩ _ ⟨⟩
  exact hnext latest

/-- The events of a walk stay a chain when pivots are made. The induction is on the pivots. -/
theorem isChain_told_of_replay? [Scalar F] {n : Nat} {pivots : List Pivot}
    (hw : List.IsChain (Event.Follows n) ((w.told phase).map Notice.event))
    (h : w.replay? pivots = some w') :
    List.IsChain (Event.Follows n) ((w'.told phase).map Notice.event) := by
  induction pivots generalizing w with
  | nil =>
    cases Option.some.inj h
    exact hw
  | cons pivot pivots ih =>
    rw [replay?, List.foldlM_cons] at h
    obtain ⟨next, hpivot, hrest⟩ := Option.bind_eq_some_iff.1 h
    refine ih ?_ hrest
    obtain ⟨leaving, t, hbring, rfl⟩ := pivot?_eq_some hpivot
    obtain ⟨hleaves, hbasis⟩ := basis_of_bringIn? hbring
    rw [told_step, List.map_append]
    refine isChain_told_append hw fun latest => ?_
    have hfollows : Event.Follows n ⟨phase, w.pivotCount, latest, w.tableau.basis⟩
        ⟨phase, w.pivotCount + 1, some ⟨pivot.entering, leaving, pivot.row⟩,
          w.tableau.basis.set pivot.row pivot.entering⟩ := .pivoted hleaves
    rwa [← hbasis] at hfollows

theorem start_of_replay? [Scalar F] {pivots : List Pivot} (h : w.replay? pivots = some w') :
    w'.start = w.start := by
  induction pivots generalizing w with
  | nil =>
    cases Option.some.inj h
    rfl
  | cons pivot pivots ih =>
    rw [replay?, List.foldlM_cons] at h
    obtain ⟨next, hpivot, hrest⟩ := Option.bind_eq_some_iff.1 h
    have hnext := ih hrest
    obtain ⟨leaving, t, -, rfl⟩ := pivot?_eq_some hpivot
    exact hnext

theorem Replays.isChain [Scalar F] {start : Tableau F} {limit n : Nat} (h : w.Replays start limit) :
    List.IsChain (Event.Follows n) ((w.told phase).map Notice.event) :=
  isChain_told_of_replay? (List.isChain_singleton _) h.replay?_eq

end Walk

namespace Problem

variable [Scalar F] {p : Problem F} {limit : Nat} {one two : Walk F}

/-- The events of a phase that was not given up are a chain. -/
theorem isChain_ended {start : Tableau F} {phase : Phase} (h : one.Replays start limit) :
    List.IsChain (Event.Follows p.variableCount)
      ((one.told phase ++ [one.ended phase]).map Notice.event) := by
  rw [List.map_append]
  exact Walk.isChain_told_append h.isChain fun latest => .finished

/-- Phase two goes on from the basis of phase one, without the rows in which artificial variables
are left. -/
theorem isChain_entered {start : Tableau F} {later : List Event}
    (hfirst : one.Replays p.artificialTableau limit)
    (hstart : one.tableau.withCosts? (artificialPlaces p.variableCount one.tableau.basis) p =
      some start)
    (hlater : List.IsChain (Event.Follows p.variableCount) (⟨.two, 0, none, start.basis⟩ :: later)) :
    List.IsChain (Event.Follows p.variableCount)
      ((one.told .one ++ [one.ended .one]).map Notice.event ++
        ⟨.two, 0, none, start.basis⟩ :: later) := by
  refine List.isChain_append.2 ⟨isChain_ended hfirst, hlater, ?_⟩
  rw [List.map_append, List.map_singleton, List.getLast?_concat]
  rintro _ ⟨⟩ _ ⟨⟩
  rw [basis_of_withCosts? hstart]
  exact .restarted

/-- In an account, each event follows from the one before it. -/
theorem Account.isChain {result : Except SolveError (Outcome F)} {heard : List (Notice F)}
    (h : p.Account limit result heard) :
    List.IsChain (Event.Follows p.variableCount) (heard.map Notice.event) := by
  cases h with
  | abandoned hfirst => exact hfirst.isChain
  | infeasible hfirst => exact isChain_ended hfirst
  | limited hfirst hstart hsecond =>
    rw [List.map_append]
    obtain rfl := Walk.start_of_replay? hsecond.replay?_eq
    exact isChain_entered hfirst hstart hsecond.isChain
  | solved hfirst hstart hsecond =>
    rw [List.append_assoc, List.map_append]
    obtain rfl := Walk.start_of_replay? hsecond.replay?_eq
    exact isChain_entered hfirst hstart (isChain_ended hsecond)

end Problem

/-- A history is made longer by the events that are heard. -/
theorem Listener.listen_history (history : History) (heard : List (Notice F)) :
    Listener.history.listen history heard =
      ⟨history.events ++ (heard.map Notice.event).toArray⟩ := by
  induction heard generalizing history with
  | nil => simp [listen]
  | cons notice heard ih =>
    rw [listen, List.foldl_cons, ← listen, ih]
    simp [Listener.history, History.push]

/-- An empty history becomes that of what is heard. -/
theorem Listener.listen_history_empty (heard : List (Notice F)) :
    Listener.history.listen ∅ heard = ⟨(heard.map Notice.event).toArray⟩ :=
  (listen_history ∅ heard).trans (congrArg History.mk Array.empty_append)

/-- What an engine answers is the result of the run, and its listener hears what is told of it. -/
theorem Engine.solve?_of_run? [Scalar F] {options : Options F} {rule : PivotRule} {p : Problem F}
    {run : Run F} (h : p.run? options rule = some run) {σ : Type} (listener : Listener F σ)
    (state : σ) :
    (Engine.mk options rule listener state).solve? p =
      some (⟨run.result p, listener.log (run.record p options)⟩,
        ⟨options, rule, listener, listener.listen state run.told⟩) := by
  simp only [solve?, h, Option.bind_eq_bind, Option.bind_some, run.notices_record]
  rfl

/-- A solve has a result and notices that depend on the settings and the program alone. Every
listener hears these notices, a history gets their events, and they are an account of the solve in
which each event follows from the one before it. The rows that are left out between the phases are
those that were found redundant. -/
theorem Engine.solve?_account [Scalar F] (options : Options F) (rule : PivotRule) (p : Problem F) :
    ∃ result heard,
      (∀ {σ : Type} (listener : Listener F σ) (state : σ), ∃ log,
        (Engine.mk options rule listener state).solve? p =
          some (⟨result, log⟩, ⟨options, rule, listener, listener.listen state heard⟩)) ∧
      (∀ history : History, Listener.history.listen history heard =
        ⟨history.events ++ (heard.map Notice.event).toArray⟩) ∧
      p.Account options.pivotLimit result heard ∧
      List.IsChain (Event.Follows p.variableCount) (heard.map Notice.event) ∧
      ∀ one redundant two, p.run? options rule = some (.entered one redundant two) →
        redundant = artificialPlaces p.variableCount one.tableau.basis := by
  obtain ⟨run, hrun⟩ := p.exists_run? options rule
  have haccount := Problem.account_of_run? hrun
  refine ⟨run.result p, run.told, fun listener state => ⟨listener.log (run.record p options), ?_⟩,
    fun history => Listener.listen_history history _, haccount, haccount.isChain,
    fun one redundant two => Problem.redundant_eq_of_run?⟩
  simp only [solve?, hrun, Option.bind_eq_bind, Option.bind_some, run.notices_record]
  rfl

end SimplexMethod
