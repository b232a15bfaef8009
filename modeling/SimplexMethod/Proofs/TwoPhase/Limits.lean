import Mathlib.Tactic
import SimplexMethod.Proofs.TwoPhase.Account

/-!
# Pivot limits

A pivot limit does nothing but cut a solve short (`Engine.solve?_truncated`). When a phase is given
up at the limit, it has made exactly so many pivots, and with a larger limit it makes the same ones
before it goes on. When no phase is given up at the limit, a larger one makes no difference.

The descent of phase one and the expulsion of artificial variables after it use up the same limit,
and either of them may be the one that is stopped. So both loops, and from them both phases, are
compared in the same way (`CutShort`): either nothing was given up and the larger limit leads to the
same, or the walk has made all of its pivots and the walk under the larger limit begins with it
(`Walk.Begins`).
-/

set_option autoImplicit false

namespace SimplexMethod

variable {F : Type}

open Tableau

/-! ## Beginnings of walks -/

namespace Walk

variable {w w' w'' : Walk F} {phase : Phase}

/-- The second walk begins with the first one. -/
structure Begins (w w' : Walk F) : Prop where
  start_eq : w'.start = w.start
  steps : w.steps <:+ w'.steps

namespace Begins

theorem refl (w : Walk F) : w.Begins w := ⟨rfl, List.suffix_rfl⟩

theorem trans (h : w.Begins w') (h' : w'.Begins w'') : w.Begins w'' :=
  ⟨h'.start_eq.trans h.start_eq, h.steps.trans h'.steps⟩

theorem pivot? [Scalar F] {entering row : Nat} (h : w.Begins w')
    (hpivot : w'.pivot? entering row = some w'') : w.Begins w'' := by
  obtain ⟨leaving, t, -, rfl⟩ := pivot?_eq_some hpivot
  exact ⟨h.start_eq, h.steps.trans (List.suffix_cons _ _)⟩

/-- What is told of a walk begins with what is told of its beginning. -/
theorem told (h : w.Begins w') : w.told phase <+: w'.told phase := by
  obtain ⟨start, steps⟩ := w'
  obtain ⟨rfl, later, rfl⟩ := h
  induction later with
  | nil => exact List.prefix_rfl
  | cons step later ih =>
    rw [List.cons_append, told_step (w := ⟨w.start, later ++ w.steps⟩)]
    exact ih.trans (List.prefix_append _ _)

end Begins

/-- The events of a walk are of its phase. -/
theorem filter_told_of_ne {other : Phase} (hne : phase ≠ other) :
    ((w.told phase).map Notice.event).filter (·.phase = other) = [] := by
  rw [List.filter_eq_nil_iff]
  intro event hevent
  obtain ⟨notice, hnotice, rfl⟩ := List.mem_map.1 hevent
  rcases List.mem_cons.1 hnotice with rfl | hnotice
  · exact fun h => hne (of_decide_eq_true h)
  · obtain ⟨⟨step, made⟩, -, rfl⟩ := List.mem_map.1 hnotice
    exact fun h => hne (of_decide_eq_true h)

/-- The events of a walk that are of its phase show the pivots of the walk. -/
theorem filterMap_pivot_told :
    (((w.told phase).map Notice.event).filter (·.phase = phase)).filterMap Event.pivot =
      w.pivots := by
  obtain ⟨start, steps⟩ := w
  induction steps with
  | nil => simp [told, Notice.event, Notice.moment, Notice.pivot?, pivots]
  | cons step steps ih =>
    rw [told_step (w := ⟨start, steps⟩), List.map_append, List.filter_append,
      List.filterMap_append, ih]
    simp [Notice.event, Notice.moment, Notice.pivot?, pivots]

end Walk

/-- The history of a run shows the pivots of its walks. -/
theorem Run.pivots_told {run : Run F} {phase : Phase} {w : Walk F} (hw : (phase, w) ∈ run.walks) :
    (History.mk (run.told.map Notice.event).toArray).pivots phase = w.pivots := by
  -- The end of a phase is no pivot, and neither phase tells of the other.
  cases run with
  | abandoned one error =>
    cases List.mem_singleton.1 hw
    exact Walk.filterMap_pivot_told
  | infeasible one =>
    cases List.mem_singleton.1 hw
    simp [History.pivots, told, Walk.filterMap_pivot_told, Walk.ended, Notice.event, Notice.moment,
      Notice.pivot?]
  | entered one redundant two =>
    obtain ⟨two, error | optimum⟩ := two <;>
      rcases List.mem_pair.1 hw with heq | heq <;> cases heq <;>
      simp [History.pivots, told, Walk.filterMap_pivot_told, Walk.filter_told_of_ne, Walk.ended,
        Notice.event, Notice.moment, Notice.pivot?]

/-! ## Two limits -/

/-- What a loop or a phase comes to under a limit, compared with what it comes to under a larger
one. -/
inductive CutShort {β : Type} (limit : Nat) (GivenUp : β → Prop) (w : Walk F) (b : β) (w' : Walk F)
    (b' : β) : Prop where
  /-- It was not given up, and is the same. -/
  | same (finished : ¬ GivenUp b) (walk_eq : w = w') (eq : b = b')
  /-- It was given up when all pivots were made, and goes on from there. -/
  | cut (givenUp : GivenUp b) (pivotCount_eq : w.pivotCount = limit) (begins : w.Begins w')

section Loops

variable [Scalar F] {rule : PivotRule} {tolerance : F} {allowed more limit larger : Nat}
  {w w' w'' : Walk F}

/-- A descent that does not move is the same under every limit. -/
theorem descend?_of_settled {move : Move F} (hmove : w.tableau.move? rule tolerance = some move)
    (hsettled : ∀ entering row, move ≠ .pivot entering row) :
    ∃ ending, ending ≠ .limit ∧ ∀ allowed, descend? rule tolerance allowed w = some (w, ending) := by
  cases move with
  | stay =>
    refine ⟨.optimal, by rintro ⟨⟩, fun allowed => ?_⟩
    cases allowed <;> rw [descend?, hmove] <;> rfl
  | fall entering column =>
    refine ⟨.unbounded entering column, by rintro ⟨⟩, fun allowed => ?_⟩
    cases allowed <;> rw [descend?, hmove] <;> rfl
  | pivot entering row => exact absurd rfl (hsettled entering row)

/-- A descent begins with the walk that it continues. -/
theorem begins_of_descend? {ending : Descent F}
    (h : descend? rule tolerance allowed w = some (w', ending)) : w.Begins w' :=
  descend?_keeps (fun hw _ hpivot => hw.pivot? hpivot) (.refl w) h

theorem cutShort_of_settled {ending ending' : Descent F} {move : Move F}
    (hmove : w.tableau.move? rule tolerance = some move)
    (hsettled : ∀ entering row, move ≠ .pivot entering row)
    (h : descend? rule tolerance allowed w = some (w', ending))
    (h' : descend? rule tolerance more w = some (w'', ending')) :
    CutShort limit (· = .limit) w' ending w'' ending' := by
  obtain ⟨ending, hending, heq⟩ := descend?_of_settled hmove hsettled
  cases (heq allowed).symm.trans h
  cases (heq more).symm.trans h'
  exact .same hending rfl rfl

/-- A descent is given up when all pivots that are allowed are made. The induction is on these. -/
theorem cutShort_of_descend? {ending ending' : Descent F} (hle : allowed ≤ more)
    (h : descend? rule tolerance allowed w = some (w', ending))
    (h' : descend? rule tolerance more w = some (w'', ending')) :
    CutShort (w.pivotCount + allowed) (· = .limit) w' ending w'' ending' := by
  induction allowed generalizing w more with
  | zero =>
    have hnext := h
    rw [descend?] at hnext
    obtain ⟨move, hmove, hnext⟩ := Option.bind_eq_some_iff.1 hnext
    cases move with
    | stay => exact cutShort_of_settled hmove (by rintro _ _ ⟨⟩) h h'
    | fall entering column => exact cutShort_of_settled hmove (by rintro _ _ ⟨⟩) h h'
    | pivot entering row =>
      cases Option.some.inj hnext
      exact .cut rfl rfl (begins_of_descend? h')
  | succ allowed ih =>
    have hnext := h
    rw [descend?] at hnext
    obtain ⟨move, hmove, hnext⟩ := Option.bind_eq_some_iff.1 hnext
    cases move with
    | stay => exact cutShort_of_settled hmove (by rintro _ _ ⟨⟩) h h'
    | fall entering column => exact cutShort_of_settled hmove (by rintro _ _ ⟨⟩) h h'
    | pivot entering row =>
      obtain ⟨next, hpivot, hnext⟩ := Option.bind_eq_some_iff.1 hnext
      obtain ⟨more, rfl⟩ := Nat.exists_eq_add_of_le' (Nat.one_le_of_lt hle)
      rw [descend?, hmove] at h'
      simp only [Option.bind_eq_bind, Option.bind_some, hpivot] at h'
      have hcut := ih (Nat.le_of_succ_le_succ hle) hnext h'
      obtain ⟨leaving, t, -, rfl⟩ := Walk.pivot?_eq_some hpivot
      rwa [Walk.pivotCount, List.length_cons, Nat.add_right_comm] at hcut

/-- Expelling begins with the walk that it continues. -/
theorem begins_of_expel? {options : Options F} {rows : List Nat} {result : Option (List Nat)}
    (hw : w.tableau.WellFormed) (hrows : ∀ row ∈ rows, row < w.tableau.rowCount)
    (h : expel? options rows w = some (w', result)) : w.Begins w' := by
  have hkept := expel?_keeps (Q := fun v => v.tableau.WellFormed ∧ w.Begins v) (fun hv => hv.1)
    ?_ ⟨hw, .refl w⟩ hrows h
  · exact hkept.2
  · rintro v row entering ⟨hv, hbegins⟩ hrow - hchoice -
    obtain ⟨hentering, hnew, -⟩ := hv.replacement_bounds hchoice
    have hlt := hentering.trans_le structuralCount_le
    exact ⟨hv.bringIn hlt hnew hrow, hbegins.pivot? (Walk.pivot?_eq hv hlt hrow)⟩

/-- Expelling is given up when the walk has made all pivots that are allowed. The induction is on
the rows. -/
theorem cutShort_of_expel? {rows : List Nat} {result result' : Option (List Nat)}
    (hle : limit ≤ larger) (hw : w.tableau.WellFormed)
    (hrows : ∀ row ∈ rows, row < w.tableau.rowCount) (hcount : w.pivotCount ≤ limit)
    (h : expel? ⟨limit, tolerance⟩ rows w = some (w', result))
    (h' : expel? ⟨larger, tolerance⟩ rows w = some (w'', result')) :
    CutShort limit (· = none) w' result w'' result' := by
  induction rows generalizing w result result' with
  | nil =>
    cases Option.some.inj h
    cases Option.some.inj h'
    exact .same (by rintro ⟨⟩) rfl rfl
  | cons row rows ih =>
    have hbegins := begins_of_expel? hw hrows h'
    obtain ⟨hrow, hrest⟩ := List.forall_mem_cons.1 hrows
    rw [expel?_cons hw hrow] at h h'
    by_cases hart : w.tableau.IsArtificial (w.tableau.basic row)
    · rw [if_pos hart] at h h'
      dsimp only at h h'
      cases hchoice : w.tableau.replacement row tolerance with
      | some entering =>
        rw [hchoice] at h h'
        dsimp only at h h'
        split at h
        · next hallowed =>
          rw [if_pos (hallowed.trans_le hle)] at h'
          obtain ⟨hlt, hnew, -⟩ := hw.replacement_bounds hchoice
          have hnext : (w.pivot entering row).tableau.WellFormed :=
            hw.bringIn (hlt.trans_le structuralCount_le) hnew hrow
          exact ih hnext (by rwa [Walk.tableau_pivot, bringIn_rowCount]) hallowed h h'
        · next hused =>
          cases Option.some.inj h
          exact .cut rfl (hcount.antisymm (not_lt.1 hused)) hbegins
      | none =>
        rw [hchoice] at h h'
        obtain ⟨⟨next, collected⟩, hnext, h⟩ := Option.map_eq_some_iff.1 h
        obtain ⟨⟨next', collected'⟩, hnext', h'⟩ := Option.map_eq_some_iff.1 h'
        cases h
        cases h'
        cases ih hw hrest hcount hnext hnext' with
        | same hfinished hwalk heq => exact .same (by simpa using hfinished) hwalk (by rw [heq])
        | cut hgivenUp hcount hbegins => exact .cut (by simpa using hgivenUp) hcount hbegins
    · rw [if_neg hart] at h h'
      exact ih hw hrest hcount h h'

end Loops

/-! ## Phases -/

/-- Given up at a pivot that is not allowed. -/
def Limited {α : Type} (result : Except SolveError α) : Prop :=
  ∃ phase pivots, result = .error (.pivotLimit phase pivots)

theorem not_limited_ok {α : Type} {found : α} : ¬ Limited (.ok found) := by
  rintro ⟨phase, pivots, ⟨⟩⟩

theorem not_limited_artificialUnbounded {α : Type} :
    ¬ Limited (.error .artificialUnbounded : Except SolveError α) := by
  rintro ⟨phase, pivots, ⟨⟩⟩

section Phases

variable [Scalar F] {rule : PivotRule} {tolerance : F} {limit larger : Nat} {start : Tableau F}

/-- Phase one begins with its descent. -/
theorem PhaseOne.Concludes.begins {options : Options F} {w : Walk F} {ending : Descent F}
    {stage : Stage F Feasibility} (h : PhaseOne.Concludes options w ending stage)
    (hw : w.tableau.WellFormed) : w.Begins stage.walk := by
  have hrows : ∀ row ∈ List.range w.tableau.rowCount, row < w.tableau.rowCount :=
    fun row hrow => List.mem_range.1 hrow
  cases h with
  | limited => exact .refl w
  | unbounded => exact .refl w
  | infeasible => exact .refl w
  | structural => exact .refl w
  | cutShort _ _ hexpel => exact begins_of_expel? hw hrows hexpel
  | expelled _ _ hexpel => exact begins_of_expel? hw hrows hexpel

theorem cutShort_of_phaseOne? {one one' : Stage F Feasibility} (hle : limit ≤ larger)
    (hstart : start.WellFormed) (h : phaseOne? ⟨limit, tolerance⟩ rule start = some one)
    (h' : phaseOne? ⟨larger, tolerance⟩ rule start = some one') :
    CutShort limit Limited one.walk one.outcome one'.walk one'.outcome := by
  obtain ⟨w', ending', hdescend', hconcludes'⟩ := concludes_of_phaseOne? h'
  rw [phaseOne?] at h h'
  obtain ⟨⟨w, ending⟩, hdescend, h⟩ := Option.bind_eq_some_iff.1 h
  rw [hdescend'] at h'
  obtain ⟨-, -, hcount, hw⟩ := legal_of_descend?_startingAt hstart hdescend
  obtain ⟨-, -, -, hw'⟩ := legal_of_descend?_startingAt hstart hdescend'
  cases cutShort_of_descend? hle hdescend hdescend' with
  | cut hlimit hpivots hbegins =>
    subst hlimit
    cases Option.some.inj h
    exact .cut ⟨_, _, rfl⟩ (hpivots.trans (Nat.zero_add _)) (hbegins.trans (hconcludes'.begins hw'))
  | same hlimit hwalk heq =>
    subst hwalk heq
    -- From the same end of the descent on, both go the same way until the limit is reached.
    cases ending with
    | limit => exact absurd rfl hlimit
    | unbounded entering column =>
      cases Option.some.inj h
      cases Option.some.inj h'
      exact .same not_limited_artificialUnbounded rfl rfl
    | optimal =>
      obtain ⟨objective, hobjective, h⟩ := Option.bind_eq_some_iff.1 h
      simp only [Option.bind_eq_bind, Option.bind_some, hobjective] at h'
      split at h
      · next hlarge =>
        rw [if_pos hlarge] at h'
        cases Option.some.inj h
        cases Option.some.inj h'
        exact .same not_limited_ok rfl rfl
      · next hsmall =>
        rw [if_neg hsmall] at h'
        split at h
        · next hbasic =>
          rw [if_pos hbasic] at h'
          obtain ⟨⟨v, result⟩, hexpel, h⟩ := Option.bind_eq_some_iff.1 h
          obtain ⟨⟨v', result'⟩, hexpel', h'⟩ := Option.bind_eq_some_iff.1 h'
          have hrows : ∀ row ∈ List.range w.tableau.rowCount, row < w.tableau.rowCount :=
            fun row hrow => List.mem_range.1 hrow
          cases cutShort_of_expel? hle hw hrows hcount hexpel hexpel' with
          | cut hnone hpivots hbegins =>
            subst hnone
            cases Option.some.inj h
            cases result' <;> cases Option.some.inj h' <;> exact .cut ⟨_, _, rfl⟩ hpivots hbegins
          | same hfinished hwalk heq =>
            subst hwalk heq
            cases result with
            | none => exact absurd rfl hfinished
            | some redundant =>
              cases Option.some.inj h
              cases Option.some.inj h'
              exact .same not_limited_ok rfl rfl
        · next hbasic =>
          rw [if_neg hbasic] at h'
          cases Option.some.inj h
          cases Option.some.inj h'
          exact .same not_limited_ok rfl rfl

theorem cutShort_of_phaseTwo? {two two' : Stage F (Optimum F)} (hle : limit ≤ larger)
    (h : phaseTwo? ⟨limit, tolerance⟩ rule start = some two)
    (h' : phaseTwo? ⟨larger, tolerance⟩ rule start = some two') :
    CutShort limit Limited two.walk two.outcome two'.walk two'.outcome := by
  obtain ⟨w, ending, hdescend, hconcludes⟩ := concludes_of_phaseTwo? h
  obtain ⟨w', ending', hdescend', hconcludes'⟩ := concludes_of_phaseTwo? h'
  cases cutShort_of_descend? hle hdescend hdescend' with
  | cut hlimit hpivots hbegins =>
    subst hlimit
    cases hconcludes
    refine .cut ⟨_, _, rfl⟩ (hpivots.trans (Nat.zero_add _)) ?_
    cases hconcludes' <;> exact hbegins
  | same hlimit hwalk heq =>
    subst hwalk heq
    -- What is found depends on the last tableau only.
    cases hconcludes with
    | limited => exact absurd rfl hlimit
    | unbounded hdirection hpoint =>
      cases hconcludes' with
      | unbounded hdirection' hpoint' =>
        cases hdirection.symm.trans hdirection'
        cases hpoint.symm.trans hpoint'
        exact .same not_limited_ok rfl rfl
    | attained hminimum hvalues =>
      cases hconcludes' with
      | attained hminimum' hvalues' =>
        cases hminimum.symm.trans hminimum'
        cases hvalues.symm.trans hvalues'
        exact .same not_limited_ok rfl rfl

end Phases

/-! ## Runs -/

theorem limited_map_iff {α β : Type} {f : α → β} {result : Except SolveError α} :
    Limited (result.map f) ↔ Limited result := by
  cases result <;> simp [Limited, Except.map]

/-- A run under a limit, compared with the run under a larger one. -/
inductive Problem.Truncates [Scalar F] (p : Problem F) (limit : Nat) (run longer : Run F) :
    Prop where
  /-- The limit was not met, and the runs are the same. -/
  | same (unlimited : ¬ Limited (run.result p)) (eq : longer = run)
  /-- A phase was given up when all its pivots were made, and the other run goes on from there. -/
  | cut {phase : Phase} {w : Walk F} (result_eq : run.result p = .error (.pivotLimit phase limit))
      (walk : (phase, w) ∈ run.walks) (pivotCount_eq : w.pivotCount = limit)
      (told : run.told <+: longer.told)

section Runs

variable [Scalar F] {p : Problem F} {options : Options F} {rule : PivotRule} {tolerance : F}
  {limit larger : Nat}

/-- What is told of a run begins with the walk of phase one. -/
theorem Problem.told_of_run? {run : Run F} {one : Stage F Feasibility}
    (hone : phaseOne? options rule p.artificialTableau = some one)
    (h : p.run? options rule = some run) : one.walk.told .one <+: run.told := by
  cases proceeds_of_run? h with
  | abandoned hone' =>
    cases hone.symm.trans hone'
    exact List.prefix_rfl
  | infeasible hone' =>
    cases hone.symm.trans hone'
    exact List.prefix_append _ _
  | entered hone' =>
    cases hone.symm.trans hone'
    simp only [Run.told, List.append_assoc]
    exact List.prefix_append _ _

/-- Runs that have phase one in common are truncated in phase two. -/
theorem Problem.truncates_of_phaseTwo? {one : Walk F} {redundant : List Nat} {start : Tableau F}
    {two two' : Stage F (Optimum F)} (hle : limit ≤ larger) (hstart : start.WellFormed)
    (h : phaseTwo? ⟨limit, tolerance⟩ rule start = some two)
    (h' : phaseTwo? ⟨larger, tolerance⟩ rule start = some two') :
    p.Truncates limit (.entered one redundant two) (.entered one redundant two') := by
  have hlawful := lawful_of_phaseTwo? hstart h
  cases cutShort_of_phaseTwo? hle h h' with
  | same hunlimited hwalk heq =>
    obtain ⟨two, outcome⟩ := two
    cases hwalk
    cases heq
    exact .same (mt limited_map_iff.1 hunlimited) rfl
  | cut hlimited hcount hbegins =>
    obtain ⟨two, outcome⟩ := two
    obtain ⟨phase, pivots, rfl⟩ := hlimited
    have herror := (hlawful.error_eq _ rfl).resolve_right fun hother => by cases hother.1
    rw [hcount] at herror
    refine .cut (congrArg Except.error herror) (List.mem_pair.2 (Or.inr rfl)) hcount ?_
    simp only [Run.told, List.append_nil, List.append_assoc, List.prefix_append_right_inj]
    exact hbegins.told.trans (List.prefix_append _ _)

/-- A run under a limit is truncated. -/
theorem Problem.truncates_of_run? {run longer : Run F} (hle : limit ≤ larger)
    (h : p.run? ⟨limit, tolerance⟩ rule = some run)
    (h' : p.run? ⟨larger, tolerance⟩ rule = some longer) : p.Truncates limit run longer := by
  have htold {one' : Stage F Feasibility}
      (hone' : phaseOne? ⟨larger, tolerance⟩ rule p.artificialTableau = some one') :
      one'.walk.told .one <+: longer.told := told_of_run? hone' h'
  rw [run?_eq, runFrom?] at h h'
  obtain ⟨⟨one, outcome⟩, hone, h⟩ := Option.bind_eq_some_iff.1 h
  obtain ⟨⟨one', outcome'⟩, hone', h'⟩ := Option.bind_eq_some_iff.1 h'
  have hlawful := lawful_of_phaseOne? wellFormed_artificialTableau hone
  cases cutShort_of_phaseOne? hle wellFormed_artificialTableau hone hone' with
  | cut hlimited hcount hbegins =>
    obtain ⟨phase, pivots, rfl⟩ := hlimited
    cases Option.some.inj h
    have herror := (hlawful.error_eq _ rfl).resolve_right fun hother => by cases hother.2
    rw [hcount] at herror
    exact .cut (congrArg Except.error herror) (List.mem_singleton_self _) hcount
      (hbegins.told.trans (htold hone'))
  | same hunlimited hwalk heq =>
    dsimp only at hunlimited hwalk heq
    subst hwalk heq
    cases outcome with
    | error error =>
      cases Option.some.inj h
      cases Option.some.inj h'
      refine .same (fun hlimited => hunlimited ?_) rfl
      obtain ⟨phase, pivots, heq⟩ := hlimited
      exact ⟨phase, pivots, congrArg Except.error (Except.error.inj heq)⟩
    | ok feasibility =>
      cases feasibility with
      | infeasible =>
        cases Option.some.inj h
        cases Option.some.inj h'
        exact .same not_limited_ok rfl
      | feasible redundant =>
        obtain ⟨start, hstart, h⟩ := Option.bind_eq_some_iff.1 h
        obtain ⟨two, htwo, h⟩ := Option.bind_eq_some_iff.1 h
        simp only [Option.bind_eq_bind, hstart, Option.bind_some] at h'
        obtain ⟨two', htwo', h'⟩ := Option.bind_eq_some_iff.1 h'
        cases Option.some.inj h
        cases Option.some.inj h'
        exact truncates_of_phaseTwo? hle (fits_of_withCosts? hone hstart).wellFormed htwo htwo'

/-- The limit comes up in a run when it is given up there, and nowhere else. -/
theorem Run.record_eq_of_not_limited (options' : Options F) {run : Run F}
    (h : ¬ Limited (run.result p)) : run.record p options = run.record p options' := by
  have herror {error : SolveError} (hne : ∀ phase pivots, error ≠ .pivotLimit phase pivots) :
      error.record options = error.record options' := by
    cases error with
    | pivotLimit phase pivots => exact absurd rfl (hne phase pivots)
    | artificialUnbounded => rfl
    | enumerationLimit bases => rfl
  cases run with
  | abandoned one error =>
    simp only [record]
    rw [herror]
    rintro phase pivots rfl
    exact h ⟨phase, pivots, rfl⟩
  | infeasible one => rfl
  | entered one redundant two =>
    obtain ⟨two, error | optimum⟩ := two
    · simp only [record]
      rw [herror]
      rintro phase pivots rfl
      exact h ⟨phase, pivots, rfl⟩
    · rfl

end Runs

namespace Engine

/-- A pivot limit only truncates. Unless a solve is given up at the limit, a larger limit leads to
the same answer, and every listener hears the same. If it is given up, then at exactly so many
pivots of a phase as are allowed, all of which are made and kept by a history, and what is heard is
the beginning of what is heard under the larger limit. -/
theorem solve?_truncated [Scalar F] (tolerance : F) (rule : PivotRule) (p : Problem F)
    {limit larger : Nat} (hle : limit ≤ larger) :
    ∃ result heard result' heard',
      (∀ {σ : Type} (listener : Listener F σ) (state : σ), ∃ log log',
        (Engine.mk ⟨limit, tolerance⟩ rule listener state).solve? p = some (⟨result, log⟩,
          ⟨⟨limit, tolerance⟩, rule, listener, listener.listen state heard⟩) ∧
        (Engine.mk ⟨larger, tolerance⟩ rule listener state).solve? p = some (⟨result', log'⟩,
          ⟨⟨larger, tolerance⟩, rule, listener, listener.listen state heard'⟩) ∧
        (¬ Limited result → log' = log)) ∧
      (¬ Limited result → result' = result ∧ heard' = heard) ∧
      ∀ phase pivots, result = .error (.pivotLimit phase pivots) →
        pivots = limit ∧
        (∃ run w, p.run? ⟨limit, tolerance⟩ rule = some run ∧ (phase, w) ∈ run.walks ∧
          w.pivotCount = limit ∧
          (Listener.history.listen ∅ heard).pivots phase = w.pivots) ∧
        heard <+: heard' := by
  obtain ⟨run, hrun⟩ := p.exists_run? ⟨limit, tolerance⟩ rule
  obtain ⟨longer, hlonger⟩ := p.exists_run? ⟨larger, tolerance⟩ rule
  have htruncates := Problem.truncates_of_run? hle hrun hlonger
  refine ⟨run.result p, run.told, longer.result p, longer.told, fun listener state =>
    ⟨listener.log (run.record p ⟨limit, tolerance⟩),
      listener.log (longer.record p ⟨larger, tolerance⟩), solve?_of_run? hrun listener state,
      solve?_of_run? hlonger listener state, fun hunlimited => ?_⟩,
    fun hunlimited => ?_, fun phase pivots hresult => ?_⟩
  · cases htruncates with
    | same _ heq => rw [heq, Run.record_eq_of_not_limited _ hunlimited]
    | cut hresult => exact absurd ⟨_, _, hresult⟩ hunlimited
  · cases htruncates with
    | same _ heq => exact heq ▸ ⟨rfl, rfl⟩
    | cut hresult => exact absurd ⟨_, _, hresult⟩ hunlimited
  · cases htruncates with
    | same hunlimited => exact absurd ⟨_, _, hresult⟩ hunlimited
    | cut hcut hw hcount htold =>
      cases hcut.symm.trans hresult
      refine ⟨rfl, ⟨run, _, hrun, hw, hcount, ?_⟩, htold⟩
      rw [Listener.listen_history_empty]
      exact Run.pivots_told hw

/-- A program whose only point is the origin: nothing is to be lowered, but two artificial variables
are to be expelled before the last row is redundant. -/
def pinned : Problem ℚ where
  constraints := ⟨[[-1, 0], [0, -1], [-1, -1]], 2⟩
  values := [0, 0, 0]
  minimizationCost := [5, 3]
  direction := .minimize
  rows_ne_nil := List.cons_ne_nil _ _
  columns_pos := Nat.zero_lt_two
  rectangular := by simp [RowMatrix.Rectangular]
  values_length := rfl
  cost_length := rfl

/-- An engine with a limit that keeps the history. -/
def limited (limit : Nat) : Engine ℚ History := ⟨⟨limit, 0⟩, .first, .history, ∅⟩

theorem solve?_truncated_pinned : ∃ (heard heard' : List (Notice ℚ)) (log log' : List (Entry ℚ)),
    (limited 1).solve? pinned = some (⟨.error (.pivotLimit .one 1), log⟩,
      { limited 1 with state := Listener.history.listen ∅ heard }) ∧
    (limited 5).solve? pinned = some (⟨.ok (.optimal ⟨0, [0, 0], [0, 1], ⟨2, 0⟩⟩), log'⟩,
      { limited 5 with state := Listener.history.listen ∅ heard' }) ∧
    ((Listener.history.listen ∅ heard).pivots .one).length = 1 ∧ heard <+: heard' := by
  obtain ⟨result, heard, result', heard', hsolve, -, hlimited⟩ :=
    solve?_truncated 0 .first pinned (show 1 ≤ 5 by decide)
  obtain ⟨log, log', hshort, hlong, -⟩ := hsolve .history ∅
  have hresult : ((limited 1).solve? pinned).map (fun reply => reply.1.result) =
      some (.error (.pivotLimit .one 1)) := by decide +kernel
  have hresult' : ((limited 5).solve? pinned).map (fun reply => reply.1.result) =
      some (.ok (.optimal ⟨0, [0, 0], [0, 1], ⟨2, 0⟩⟩)) := by decide +kernel
  rw [limited, hshort] at hresult
  rw [limited, hlong] at hresult'
  cases Option.some.inj hresult
  cases Option.some.inj hresult'
  obtain ⟨-, ⟨run, w, -, -, hcount, hpivots⟩, hprefix⟩ := hlimited .one 1 rfl
  refine ⟨heard, heard', log, log', hshort, hlong, ?_, hprefix⟩
  rw [hpivots, Walk.pivots, List.length_map, List.length_reverse]
  exact hcount

end Engine

end SimplexMethod
