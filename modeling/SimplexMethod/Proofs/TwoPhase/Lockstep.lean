import Mathlib.Tactic
import SimplexMethod.Proofs.TwoPhase.Attendance

/-!
# Walks in lockstep

A map of tableaus keeps pace when the method does the same at a well-formed tableau and at the one
that the map makes of it: the moves, the replacements of artificial variables and the test at the
end of phase one come out the same, and a pivot can be made before the map or after it
(`Tableau.KeepsPace`). The loops of the method can then be run before the map or after it as well,
and phase one with them (`descend?_map`, `expel?_map`, `phaseOne?_map`). Nothing depends here on
what the scalars are.
-/

set_option autoImplicit false

namespace SimplexMethod

variable {F : Type}

open Tableau

namespace Walk

variable {f : Tableau F → Tableau F} {w : Walk F}

/-- The walk with the map of each of its tableaus. -/
def map (f : Tableau F → Tableau F) (w : Walk F) : Walk F :=
  ⟨f w.start, w.steps.map fun step => { step with tableau := f step.tableau }⟩

@[simp]
theorem map_startingAt {t : Tableau F} : (startingAt t).map f = startingAt (f t) := rfl

@[simp]
theorem tableau_map : (w.map f).tableau = f w.tableau := by
  obtain ⟨start, steps⟩ := w
  cases steps <;> rfl

@[simp]
theorem pivotCount_map : (w.map f).pivotCount = w.pivotCount := List.length_map _

end Walk

section Lockstep

variable [Scalar F]

/-- The method does the same at a tableau and at the one that the map makes of it. -/
structure Tableau.KeepsPace (f : Tableau F → Tableau F) (rule : PivotRule) (tolerance : F) :
    Prop where
  basis_eq : ∀ t, (f t).basis = t.basis
  structuralCount_eq : ∀ t, (f t).structuralCount = t.structuralCount
  wellFormed : ∀ {t}, t.WellFormed → (f t).WellFormed
  bringIn_eq : ∀ {t entering row}, t.WellFormed → entering < t.columnCount → row < t.rowCount →
    (f t).bringIn entering row = f (t.bringIn entering row)
  move_eq : ∀ {t}, t.WellFormed → (f t).move rule tolerance = t.move rule tolerance
  replacement_eq : ∀ t row, (f t).replacement row tolerance = t.replacement row tolerance
  objective_iff : ∀ t,
    tolerance < Scalar.abs (f t).objective ↔ tolerance < Scalar.abs t.objective

variable {f : Tableau F → Tableau F} {rule : PivotRule} {tolerance : F} {w : Walk F}

namespace Tableau.KeepsPace

variable {t : Tableau F}

theorem rowCount_eq (hf : KeepsPace f rule tolerance) : (f t).rowCount = t.rowCount :=
  congrArg List.length (hf.basis_eq t)

theorem basic_eq (hf : KeepsPace f rule tolerance) (i : Nat) : (f t).basic i = t.basic i := by
  rw [basic, hf.basis_eq, basic]

theorem isArtificial_iff (hf : KeepsPace f rule tolerance) (j : Nat) :
    (f t).IsArtificial j ↔ t.IsArtificial j := by
  rw [IsArtificial, hf.structuralCount_eq, IsArtificial]

theorem hasArtificialBasic_eq (hf : KeepsPace f rule tolerance) :
    (f t).hasArtificialBasic = t.hasArtificialBasic := by
  rw [hasArtificialBasic, hasArtificialBasic, hf.basis_eq]
  simp only [hf.isArtificial_iff]

theorem wellFormed_map (hf : KeepsPace f rule tolerance) (hw : w.tableau.WellFormed) :
    (w.map f).tableau.WellFormed := by
  rw [Walk.tableau_map]
  exact hf.wellFormed hw

theorem move?_map (hf : KeepsPace f rule tolerance) (hw : w.tableau.WellFormed) :
    (w.map f).tableau.move? rule tolerance = some (w.tableau.move rule tolerance) := by
  rw [(hf.wellFormed_map hw).move?_eq, Walk.tableau_map, hf.move_eq hw]

theorem pivot_map (hf : KeepsPace f rule tolerance) (hw : w.tableau.WellFormed)
    {entering row : Nat} (hentering : entering < w.tableau.structuralCount)
    (hrow : row < w.tableau.rowCount) :
    (w.map f).pivot entering row = (w.pivot entering row).map f := by
  rw [Walk.pivot, Walk.tableau_map, hf.basic_eq,
    hf.bringIn_eq hw (hentering.trans_le structuralCount_le) hrow]
  rfl

theorem pivot?_map (hf : KeepsPace f rule tolerance) (hw : w.tableau.WellFormed)
    {entering row : Nat} (hentering : entering < w.tableau.structuralCount)
    (hrow : row < w.tableau.rowCount) :
    (w.map f).pivot? entering row = some ((w.pivot entering row).map f) := by
  rw [← hf.pivot_map hw hentering hrow]
  refine Walk.pivot?_eq (hf.wellFormed_map hw) ?_ ?_
  · rw [Walk.tableau_map]
    exact hentering.trans_le ((hf.structuralCount_eq _).ge.trans structuralCount_le)
  · rwa [Walk.tableau_map, hf.rowCount_eq]

end Tableau.KeepsPace

/-- A descent can be made before the map or after it. -/
theorem descend?_map (hf : KeepsPace f rule tolerance) (allowed : Nat)
    (hw : w.tableau.WellFormed) : descend? rule tolerance allowed (w.map f) =
      (descend? rule tolerance allowed w).map fun found => (found.1.map f, found.2) := by
  induction allowed generalizing w with
  | zero =>
    rw [descend?, descend?, hf.move?_map hw, hw.move?_eq]
    cases w.tableau.move rule tolerance <;> rfl
  | succ allowed ih =>
    rw [descend?, descend?, hf.move?_map hw, hw.move?_eq]
    cases hchoice : w.tableau.move rule tolerance with
    | stay => rfl
    | fall entering column => rfl
    | pivot entering row =>
      obtain ⟨hentering, hnew, hrow⟩ := hw.pivot_bounds hchoice
      have hlt := hentering.trans_le structuralCount_le
      simp only [Option.bind_eq_bind, Option.bind_some, hf.pivot?_map hw hentering hrow,
        Walk.pivot?_eq hw hlt hrow]
      exact ih (hw.bringIn hlt hnew hrow)

/-- Artificial variables can be expelled before the map or after it. -/
theorem expel?_map {options : Options F} (hf : KeepsPace f rule options.tolerance)
    {rows : List Nat} (hw : w.tableau.WellFormed) (hrows : ∀ row ∈ rows, row < w.tableau.rowCount) :
    expel? options rows (w.map f) =
      (expel? options rows w).map fun found => (found.1.map f, found.2) := by
  induction rows generalizing w with
  | nil => rfl
  | cons row rows ih =>
    obtain ⟨hrow, hrest⟩ := List.forall_mem_cons.1 hrows
    rw [expel?_cons hw hrow,
      expel?_cons (hf.wellFormed_map hw) (by rwa [Walk.tableau_map, hf.rowCount_eq])]
    simp only [Walk.tableau_map, Walk.pivotCount_map, hf.basic_eq, hf.isArtificial_iff,
      hf.replacement_eq]
    split
    · cases hchoice : w.tableau.replacement row options.tolerance with
      | some entering =>
        obtain ⟨hentering, hnew, -⟩ := hw.replacement_bounds hchoice
        dsimp only
        split
        · rw [hf.pivot_map hw hentering hrow]
          exact ih (hw.bringIn (hentering.trans_le structuralCount_le) hnew hrow)
            (by rwa [Walk.tableau_pivot, bringIn_rowCount])
        · rfl
      | none =>
        dsimp only
        rw [ih hw hrest, Option.map_map, Option.map_map]
        rfl
    · exact ih hw hrest

/-- Phase one can be gone through before the map or after it, and comes to the same. -/
theorem phaseOne?_map {options : Options F} (hf : KeepsPace f rule options.tolerance)
    {start : Tableau F} (hstart : start.WellFormed) : phaseOne? options rule (f start) =
      (phaseOne? options rule start).map fun stage => ⟨stage.walk.map f, stage.outcome⟩ := by
  obtain ⟨w, ending, hdescend⟩ := exists_descend? rule options.tolerance options.pivotLimit
    (w := .startingAt start) hstart
  have hw := (shaped_of_descend? (Walk.all_startingAt hstart.shaped) hdescend).tableau.wellFormed
  have hdescend' := descend?_map hf options.pivotLimit (w := .startingAt start) hstart
  rw [Walk.map_startingAt, hdescend] at hdescend'
  rw [phaseOne?, phaseOne?, hdescend, hdescend']
  simp only [Option.bind_eq_bind, Option.map_some, Option.bind_some]
  cases ending with
  | limit => rw [Walk.pivotCount_map]; rfl
  | unbounded entering column => rfl
  | optimal =>
    simp only [Walk.tableau_map, (hf.wellFormed hw).objective?_eq, hw.objective?_eq,
      Option.bind_some, hf.objective_iff, hf.hasArtificialBasic_eq, hf.rowCount_eq]
    split
    · rfl
    · split
      · obtain ⟨w', result, hexpel⟩ := exists_expel? options hw fun row hrow =>
          List.mem_range.1 hrow
        rw [expel?_map hf hw fun row hrow => List.mem_range.1 hrow, hexpel]
        simp only [Option.map_some, Option.bind_some]
        cases result with
        | none => rw [Walk.pivotCount_map]; rfl
        | some redundant => rfl
      · rfl

end Lockstep

/-! ## Records -/

/-- Something that comes up in a run, with the event in place of a notice. -/
def Occurrence.traced : Occurrence F → Entry F ⊕ Event
  | logged entry => .inl entry
  | noticed notice => .inr notice.event

theorem map_event_notices (record : List (Occurrence F)) :
    (notices record).map Notice.event =
      (record.map Occurrence.traced).filterMap Sum.getRight? := by
  rw [notices, List.map_filterMap, List.filterMap_map]
  refine List.filterMap_congr fun occurrence _ => ?_
  cases occurrence <;> rfl

/-- Without remarks, the log has the entries of the run itself. -/
theorem Listener.log_eq_filterMap {σ : Type} (listener : Listener F σ)
    (hremarks : ∀ notice, listener.remarks notice = []) (record : List (Occurrence F)) :
    listener.log record = (record.map Occurrence.traced).filterMap Sum.getLeft? := by
  induction record with
  | nil => rfl
  | cons occurrence record ih =>
    rw [Listener.log, List.flatMap_cons, ← Listener.log, ih]
    cases occurrence with
    | logged entry => rfl
    | noticed notice =>
      dsimp only
      rw [hremarks, List.nil_append]
      rfl

namespace Walk

variable {f : Tableau F → Tableau F}

/-- On a walk through other tableaus with the same bases, the same comes up. -/
theorem record_map (hbasis : ∀ t, (f t).basis = t.basis) (w : Walk F) (phase : Phase) :
    ((w.map f).record phase).map Occurrence.traced = (w.record phase).map Occurrence.traced := by
  obtain ⟨start, steps⟩ := w
  induction steps with
  | nil =>
    simp [map, record, Occurrence.traced, Notice.event, Notice.moment, Moment.basis, hbasis,
      Notice.pivot?]
  | cons step steps ih =>
    have hmap : (⟨start, step :: steps⟩ : Walk F).map f =
        ⟨(map f ⟨start, steps⟩).start,
          { step with tableau := f step.tableau } :: (map f ⟨start, steps⟩).steps⟩ := rfl
    rw [hmap, record_step, record_step (w := ⟨start, steps⟩), List.map_append, List.map_append, ih,
      pivotCount_map]
    simp [Occurrence.traced, Notice.event, Notice.moment, Moment.basis, hbasis, Notice.pivot?]

theorem traced_finish_map (hbasis : ∀ t, (f t).basis = t.basis) (w : Walk F) (phase : Phase) :
    ((w.map f).finish phase).traced = (w.finish phase).traced := by
  simp [finish, Occurrence.traced, Notice.event, Notice.moment, Moment.basis, hbasis,
    Notice.pivot?]

end Walk

end SimplexMethod
