import Mathlib.Tactic
import SimplexMethod.Proofs.TwoPhase.FeasibleBases
import SimplexMethod.Proofs.TwoPhase.ZeroLevel
import SimplexMethod.Proofs.TwoPhase.Account

/-!
# Degeneracy

Nothing keeps a descent from cycling, and the pivot limit is there to end it. Without tolerance only
degeneracy can bring this about (`Engine.solve?_degenerate`): a solve that is given up at a limit of
at least `(n + m).choose m` pivots has made one of them in a row whose value is zero.

A pivot lowers the objective if the value of its row is positive, and otherwise it leaves the
objective and the point as they are (`Tableau.Lowers`). The objective is determined by the set of
the basic variables (`Tableau.Canonical.objective_congr`), so a set that comes back on a walk has
brought nothing but pivots of the second kind. As there are fewer sets than tableaus on a long walk,
one of them does come back.
-/

set_option autoImplicit false

namespace SimplexMethod

open Tableau

/-! ## Positions on a walk -/

namespace Walk

variable {F : Type} {w v : Walk F} {R : Tableau F → Pivot → Tableau F → Prop} {k : Nat}
  {t t' : Tableau F} {pivot : Pivot}

/-- At the position on the walk, the pivot leads from the first tableau to the second one. -/
structure Passes (w : Walk F) (k : Nat) (t : Tableau F) (pivot : Pivot) (t' : Tableau F) :
    Prop where
  before : w.tableaus[k]? = some t
  pivot : w.pivots[k]? = some pivot
  after : w.tableaus[k + 1]? = some t'

theorem length_tableaus : w.tableaus.length = w.pivotCount + 1 := by
  simp [tableaus, pivotCount]

theorem length_pivots : w.pivots.length = w.pivotCount := by
  simp [pivots, pivotCount]

theorem tableaus_step (step : Step F) :
    (⟨w.start, step :: w.steps⟩ : Walk F).tableaus = w.tableaus ++ [step.tableau] := by
  simp [tableaus]

theorem pivots_step (step : Step F) :
    (⟨w.start, step :: w.steps⟩ : Walk F).pivots = w.pivots ++ [step.pivot] := by
  simp [pivots]

/-- The last tableau is the one that the walk has reached. -/
theorem tableaus_getElem?_pivotCount : w.tableaus[w.pivotCount]? = some w.tableau := by
  obtain ⟨start, steps⟩ := w
  cases steps with
  | nil => rfl
  | cons latest rest =>
    have hlen : (⟨start, rest⟩ : Walk F).tableaus.length = rest.length + 1 := length_tableaus
    rw [tableaus_step (w := ⟨start, rest⟩), pivotCount, List.length_cons, ← hlen]
    exact List.getElem?_concat_length

theorem exists_tableau (hk : k ≤ w.pivotCount) : ∃ t, w.tableaus[k]? = some t := by
  have hlt : k < w.tableaus.length := by rw [length_tableaus]; omega
  exact ⟨_, List.getElem?_eq_getElem hlt⟩

theorem exists_passes (hk : k < w.pivotCount) : ∃ t pivot t', w.Passes k t pivot t' := by
  obtain ⟨t, ht⟩ := exists_tableau hk.le
  obtain ⟨t', ht'⟩ := exists_tableau (w := w) (k := k + 1) hk
  have hlt : k < w.pivots.length := length_pivots (w := w) ▸ hk
  exact ⟨t, _, t', ht, List.getElem?_eq_getElem hlt, ht'⟩

/-- What relates all steps of a walk relates what any of its pivots leads from and to. -/
theorem LeadsTo.related {start : Tableau F} (h : (startingAt start).LeadsTo R w)
    (hpasses : w.Passes k t pivot t') : R t pivot t' := by
  induction h with
  | refl => exact absurd hpasses.pivot (by simp [pivots, startingAt])
  | @step v latest next _ hrelated ih =>
    obtain ⟨hbefore, hpivot, hafter⟩ := hpasses
    rw [tableaus_step ⟨latest, next⟩] at hbefore hafter
    rw [pivots_step ⟨latest, next⟩] at hpivot
    have hk : k < v.pivotCount + 1 := by
      have hlt := (List.getElem?_eq_some_iff.1 hpivot).1
      rwa [List.length_append, length_pivots] at hlt
    rw [List.getElem?_append_left (by rwa [length_tableaus])] at hbefore
    rcases Nat.lt_succ_iff_lt_or_eq.1 hk with hlt | rfl
    · rw [List.getElem?_append_left (by rwa [length_pivots])] at hpivot
      rw [List.getElem?_append_left (by rw [length_tableaus]; omega)] at hafter
      exact ih ⟨hbefore, hpivot, hafter⟩
    · -- The position is that of the latest step.
      rw [tableaus_getElem?_pivotCount, Option.some.injEq] at hbefore
      rw [← length_pivots, List.getElem?_concat_length, Option.some.injEq] at hpivot
      rw [← length_tableaus, List.getElem?_concat_length, Option.some.injEq] at hafter
      subst hbefore hpivot hafter
      exact hrelated

end Walk

/-! ## One pivot -/

/-- The pivot is an exchange that lowers the objective, unless the value of its row is zero: the
relative cost of the entering column is negative, and its entry is positive. -/
structure Tableau.Lowers (t : Tableau ℚ) (pivot : Pivot) (t' : Tableau ℚ) : Prop where
  exchanges : t.Exchanges pivot t'
  value_eq_zero_or : t.value pivot.row = 0 ∨
    t.relativeCost pivot.entering < 0 ∧ 0 < t.entry pivot.row pivot.entering

namespace Tableau.Lowers

variable {t t' : Tableau ℚ} {pivot : Pivot}

/-- The objective falls exactly when the value of the row is positive, and never rises. -/
theorem objective_le (h : t.Lowers pivot t') (hwell : t.WellFormed) (hvalues : t.ValuesNonneg) :
    t'.objective ≤ t.objective ∧ (t'.objective < t.objective ↔ 0 < t.value pivot.row) := by
  have hrow := h.exchanges.row_lt
  have hobjective : t'.objective = t.objective + t.relativeCost pivot.entering *
      (t.value pivot.row / t.entry pivot.row pivot.entering) := by
    rw [h.exchanges.eq_bringIn hwell, hwell.objective_bringIn hrow]
  rcases h.value_eq_zero_or with hzero | ⟨hcost, hentry⟩
  · rw [hzero, zero_div, mul_zero, add_zero] at hobjective
    rw [hobjective, hzero]
    exact ⟨le_rfl, by simp⟩
  · have hstep : 0 ≤ t.value pivot.row / t.entry pivot.row pivot.entering :=
      div_nonneg (hvalues _ hrow) hentry.le
    rw [hobjective]
    refine ⟨by linarith [mul_nonpos_of_nonpos_of_nonneg hcost.le hstep], ?_⟩
    rw [add_lt_iff_neg_left, mul_neg_iff, div_pos_iff_of_pos_right hentry]
    simp [hcost, hcost.not_gt]

/-- The basic solution stays unless the objective falls. -/
theorem point_eq (h : t.Lowers pivot t') (hwell : t.WellFormed) (hzero : t.value pivot.row = 0) :
    t'.point = t.point := by
  rw [h.exchanges.eq_bringIn hwell]
  exact hwell.point_bringIn_of_value_eq_zero h.exchanges.row_lt hzero

end Tableau.Lowers

/-! ## What the basic variables determine -/

namespace Tableau.Canonical

variable {t t' : Tableau ℚ} {W : Submodule ℚ (ℕ → ℚ)} {cost : ℕ → ℚ} {columns artificials : Nat}

/-- With the same basic variables, in whichever rows they are, the objective is the same. -/
theorem objective_congr (h : t.Canonical W cost columns artificials)
    (h' : t'.Canonical W cost columns artificials) (hbasis : ∀ j, j ∈ t.basis ↔ j ∈ t'.basis) :
    t'.objective = t.objective := by
  have hart (j : Nat) : t'.IsArtificial j ↔ t.IsArtificial j := by
    rw [IsArtificial, IsArtificial, h'.structuralCount_eq, h.structuralCount_eq]
  rw [objective, objective, h'.columnCount_eq, h.columnCount_eq,
    h.states.relativeCost_congr h'.states (fun j => (hbasis j).1) hart]

end Tableau.Canonical

/-! ## Walks -/

/-- The walk goes from one feasible basis of what is stated to the next, by pivots that lower the
objective or are made in rows whose value is zero. -/
structure Walk.Descending (w : Walk ℚ) (W : Submodule ℚ (ℕ → ℚ)) (cost : ℕ → ℚ)
    (columns artificials : Nat) : Prop where
  canonical : w.All (·.Canonical W cost columns artificials)
  lowers : (startingAt w.start).LeadsTo Lowers w

/-- No pivot of the walk raises the objective, and exactly those lower it that are made in a row
whose value is positive. From a tableau to another one with the same basic variables, all pivots are
made in rows whose value is zero, and all tableaus on the way have the same basic solution, with the
artificial variables and without them. -/
structure Walk.Degenerates (w : Walk ℚ) : Prop where
  objective_le : ∀ k t pivot t', w.Passes k t pivot t' → ∃ value before after,
    t.value? pivot.row = some value ∧ t.objective? = some before ∧ t'.objective? = some after ∧
      after ≤ before ∧ (after < before ↔ 0 < value)
  same_basis : ∀ first last t t', first ≤ last → w.tableaus[first]? = some t →
    w.tableaus[last]? = some t' → (∀ j, j ∈ t.basis ↔ j ∈ t'.basis) →
    (∀ k s pivot s', first ≤ k → k < last → w.Passes k s pivot s' →
      s.value? pivot.row = some 0) ∧
    ∃ solution, ∀ k s, first ≤ k → k ≤ last → w.tableaus[k]? = some s →
      s.basicSolution? = some solution ∧ s.point = t.point

namespace Walk.Descending

variable {w : Walk ℚ} {W : Submodule ℚ (ℕ → ℚ)} {cost : ℕ → ℚ} {columns artificials : Nat}
  {k first last : Nat} {t t' s s' : Tableau ℚ} {pivot : Pivot}

theorem canonical_of_tableaus (h : w.Descending W cost columns artificials)
    (ht : w.tableaus[k]? = some t) : t.Canonical W cost columns artificials :=
  forall_mem_tableaus_iff.2 h.canonical t (List.mem_of_getElem? ht)

theorem objective_le_of_passes (h : w.Descending W cost columns artificials)
    (hpasses : w.Passes k t pivot t') :
    t'.objective ≤ t.objective ∧ (t'.objective < t.objective ↔ 0 < t.value pivot.row) := by
  have ht := h.canonical_of_tableaus hpasses.before
  exact (h.lowers.related hpasses).objective_le ht.states.wellFormed ht.nonneg

/-- The objective does not rise from any tableau to a later one. The induction is on the position of
the later one. -/
theorem objective_antitone (h : w.Descending W cost columns artificials) (hle : first ≤ last)
    (ht : w.tableaus[first]? = some t) (ht' : w.tableaus[last]? = some t') :
    t'.objective ≤ t.objective := by
  induction last, hle using Nat.le_induction generalizing t' with
  | base =>
    rw [ht, Option.some.injEq] at ht'
    rw [ht']
  | succ last hle ih =>
    have hlt : last < w.pivotCount := by
      have hlt := (List.getElem?_eq_some_iff.1 ht').1
      rw [length_tableaus] at hlt
      omega
    obtain ⟨s, pivot, s', hpasses⟩ := exists_passes hlt
    obtain rfl := Option.some.inj (hpasses.after.symm.trans ht')
    exact (h.objective_le_of_passes hpasses).1.trans (ih hpasses.before)

/-- Between two tableaus with the same basic variables the objective cannot fall, because it does
not rise again. -/
theorem value_eq_zero (h : w.Descending W cost columns artificials)
    (ht : w.tableaus[first]? = some t) (ht' : w.tableaus[last]? = some t')
    (hbasis : ∀ j, j ∈ t.basis ↔ j ∈ t'.basis) (hfirst : first ≤ k) (hlast : k < last)
    (hpasses : w.Passes k s pivot s') : s.value pivot.row = 0 := by
  have hs := h.canonical_of_tableaus hpasses.before
  have hsame := (h.canonical_of_tableaus ht).objective_congr (h.canonical_of_tableaus ht') hbasis
  have hbefore := h.objective_antitone hfirst ht hpasses.before
  have hafter := h.objective_antitone hlast hpasses.after ht'
  obtain ⟨-, hiff⟩ := h.objective_le_of_passes hpasses
  have hnot : ¬ 0 < s.value pivot.row := fun hpos => by
    have := hiff.2 hpos
    linarith
  exact le_antisymm (not_lt.1 hnot) (hs.nonneg _ (h.lowers.related hpasses).exchanges.row_lt)

/-- The basic solution stays as long as the values of the pivot rows are zero. -/
theorem point_eq (h : w.Descending W cost columns artificials)
    (hzero : ∀ k s pivot s', first ≤ k → k < last → w.Passes k s pivot s' →
      s.value pivot.row = 0) (hfirst : first ≤ k) (hlast : k ≤ last)
    (ht : w.tableaus[first]? = some t) (hs : w.tableaus[k]? = some s) : s.point = t.point := by
  induction k, hfirst using Nat.le_induction generalizing s with
  | base =>
    rw [ht, Option.some.injEq] at hs
    rw [hs]
  | succ k hle ih =>
    have hlt : k < w.pivotCount := by
      have hlt := (List.getElem?_eq_some_iff.1 hs).1
      rw [length_tableaus] at hlt
      omega
    obtain ⟨v, pivot, v', hpasses⟩ := exists_passes hlt
    obtain rfl := Option.some.inj (hpasses.after.symm.trans hs)
    have hwell := (h.canonical_of_tableaus hpasses.before).states.wellFormed
    have hvalue := hzero k v pivot v' hle hlast hpasses
    exact ((h.lowers.related hpasses).point_eq hwell hvalue).trans
      (ih (Nat.le_of_succ_le hlast) hpasses.before)

theorem degenerates (h : w.Descending W cost columns artificials) : w.Degenerates where
  objective_le := by
    intro k t pivot t' hpasses
    have hwell := (h.canonical_of_tableaus hpasses.before).states.wellFormed
    have hwell' := (h.canonical_of_tableaus hpasses.after).states.wellFormed
    exact ⟨_, _, _, hwell.value?_eq (h.lowers.related hpasses).exchanges.row_lt,
      hwell.objective?_eq, hwell'.objective?_eq, h.objective_le_of_passes hpasses⟩
  same_basis := by
    intro first last t t' hle ht ht' hbasis
    have hzero (k : Nat) (s : Tableau ℚ) (pivot : Pivot) (s' : Tableau ℚ) (hfirst : first ≤ k)
        (hlast : k < last) (hpasses : w.Passes k s pivot s') : s.value pivot.row = 0 :=
      h.value_eq_zero ht ht' hbasis hfirst hlast hpasses
    refine ⟨fun k s pivot s' hfirst hlast hpasses => ?_, t.basicSolution,
      fun k s hfirst hlast hs => ?_⟩
    · have hwell := (h.canonical_of_tableaus hpasses.before).states.wellFormed
      rw [hwell.value?_eq (h.lowers.related hpasses).exchanges.row_lt,
        hzero k s pivot s' hfirst hlast hpasses]
    · have hstart := h.canonical_of_tableaus ht
      have hthere := h.canonical_of_tableaus hs
      have hpoint := h.point_eq hzero hfirst hlast ht hs
      refine ⟨?_, hpoint⟩
      rw [hthere.states.wellFormed.basicSolution?_eq, basicSolution_congr hstart.states.wellFormed
        hthere.states.wellFormed (hthere.structuralCount_eq.trans hstart.structuralCount_eq.symm)
        fun j _ => congrFun hpoint j]

/-- A walk that is longer than there are sets of basic variables has a pivot in a row whose value is
zero. -/
theorem exists_value_eq_zero (h : w.Descending W cost columns artificials) {rows : Nat}
    (hshaped : w.All (·.Shaped rows columns artificials))
    (hlong : columns.choose rows ≤ w.pivotCount) :
    ∃ k t pivot t', w.Passes k t pivot t' ∧ t.value? pivot.row = some 0 := by
  let basis (k : Nat) : Finset Nat := (w.tableaus.getD k w.start).basis.toFinset
  have hbasis {k : Nat} {t : Tableau ℚ} (ht : w.tableaus[k]? = some t) :
      basis k = t.basis.toFinset := by
    simp only [basis, List.getD_eq_getElem?_getD, ht, Option.getD_some]
  have hmaps : ∀ k ∈ Finset.range (w.pivotCount + 1),
      basis k ∈ (Finset.range columns).powersetCard rows := by
    intro k hk
    obtain ⟨t, ht⟩ := exists_tableau (Nat.lt_succ_iff.1 (Finset.mem_range.1 hk))
    have hthere := forall_mem_tableaus_iff.2 hshaped t (List.mem_of_getElem? ht)
    rw [hbasis ht, Finset.mem_powersetCard, List.toFinset_card_of_nodup hthere.wellFormed.nodup]
    refine ⟨fun j hj => ?_, hthere.rowCount_eq⟩
    rw [Finset.mem_range, ← hthere.columnCount_eq]
    exact hthere.wellFormed.basis_lt j (List.mem_toFinset.1 hj)
  have hcard : ((Finset.range columns).powersetCard rows).card <
      (Finset.range (w.pivotCount + 1)).card := by
    rw [Finset.card_powersetCard, Finset.card_range, Finset.card_range]
    omega
  -- Two tableaus have the same basic variables, so the pivots between them will do.
  obtain ⟨first, hfirst, last, hlast, hne, hsame⟩ :=
    Finset.exists_ne_map_eq_of_card_lt_of_maps_to hcard hmaps
  wlog hlt : first < last generalizing first last
  · exact this last hlast first hfirst hne.symm hsame.symm (by omega)
  have hcount : first < w.pivotCount := by
    have := Finset.mem_range.1 hlast
    omega
  obtain ⟨t, pivot, s, hpasses⟩ := exists_passes hcount
  obtain ⟨t', ht'⟩ := exists_tableau (Nat.lt_succ_iff.1 (Finset.mem_range.1 hlast))
  rw [hbasis hpasses.before, hbasis ht'] at hsame
  obtain ⟨hzero, -⟩ := h.degenerates.same_basis first last t t' hlt.le hpasses.before ht'
    fun j => by rw [← List.mem_toFinset, hsame, List.mem_toFinset]
  exact ⟨first, t, pivot, s, hpasses, hzero first t pivot s le_rfl hlt hpasses⟩

end Walk.Descending

/-! ## Runs -/

namespace Walk.Descending

variable {w w' : Walk ℚ} {W : Submodule ℚ (ℕ → ℚ)} {cost : ℕ → ℚ} {columns artificials : Nat}

theorem startingAt {t : Tableau ℚ} (h : t.Canonical W cost columns artificials) :
    (Walk.startingAt t).Descending W cost columns artificials :=
  ⟨all_startingAt h, .refl⟩

/-- The pivots of a descent lower the objective or are made in rows whose value is zero. -/
theorem move (h : w.Descending W cost columns artificials) {rule : PivotRule} {entering row : Nat}
    (hmove : w.tableau.move? rule 0 = some (.pivot entering row))
    (hpivot : w.pivot? entering row = some w') : w'.Descending W cost columns artificials := by
  have ht := h.canonical.tableau
  have hwell := ht.states.wellFormed
  obtain ⟨hprofitable, hleast⟩ := hwell.leastRatio_of_pivot hmove
  have hlt := hprofitable.structural.trans_le structuralCount_le
  rw [pivot?_eq hwell hlt hleast.row_lt, Option.some.injEq] at hpivot
  subst hpivot
  refine ⟨h.canonical.step (ht.move hmove (hwell.bringIn?_eq hlt hleast.row_lt)),
    h.lowers.step ⟨hwell.exchanges hprofitable.structural hprofitable.notMem hleast.row_lt,
      Or.inr ⟨?_, hleast.threshold_lt⟩⟩⟩
  simpa using hprofitable.cost_lt

end Walk.Descending

namespace Problem

variable {p : Problem ℚ} {options : Options ℚ} {rule : PivotRule} {run : Run ℚ} {phase : Phase}
  {w : Walk ℚ}

/-- The walk descends on what the phase works on. -/
def DescendingIn (p : Problem ℚ) : Phase → Walk ℚ → Prop
  | .one, w => w.Descending p.artificialEquations p.artificialCost
      (p.variableCount + p.constraintCount) p.constraintCount
  | .two, w => w.Descending p.equations (coeff p.minimizationCost) p.variableCount 0

theorem DescendingIn.degenerates (h : p.DescendingIn phase w) : w.Degenerates := by
  cases phase with
  | one => exact Walk.Descending.degenerates h
  | two => exact Walk.Descending.degenerates h

/-- In neither phase are there more sets of basic variables than ways to choose one variable for
each constraint from all variables, artificial ones included. -/
theorem DescendingIn.exists_value_eq_zero (h : p.DescendingIn phase w) (hlegal : w.Legal)
    (hfits : p.Fits phase w.start)
    (hlong : (p.variableCount + p.constraintCount).choose p.constraintCount ≤ w.pivotCount) :
    ∃ k t pivot t', w.Passes k t pivot t' ∧ t.value? pivot.row = some 0 := by
  cases phase with
  | one => exact Walk.Descending.exists_value_eq_zero h (hlegal.shaped hfits.1) hlong
  | two =>
    obtain ⟨rows, hrows, hshaped⟩ := hfits
    refine Walk.Descending.exists_value_eq_zero h (hlegal.shaped hshaped) (le_trans ?_ hlong)
    calc p.variableCount.choose rows
        ≤ (p.variableCount + rows).choose rows := Nat.choose_le_choose _ (Nat.le_add_right _ _)
      _ = (p.variableCount + rows).choose p.variableCount := Nat.choose_symm_add.symm
      _ ≤ (p.variableCount + p.constraintCount).choose p.variableCount :=
        Nat.choose_le_choose _ (Nat.add_le_add_left hrows _)
      _ = (p.variableCount + p.constraintCount).choose p.constraintCount := Nat.choose_symm_add

theorem descending_of_phaseOne? (htolerance : options.tolerance = 0) {stage : Stage ℚ Feasibility}
    (h : phaseOne? options rule p.artificialTableau = some stage) :
    p.DescendingIn .one stage.walk := by
  refine phaseOne?_keeps htolerance (fun hw => Walk.Descending.move hw)
    (fun hw ht hrow hart hentering hnew hne => ?_)
    (Walk.Descending.startingAt canonical_artificialTableau) h
  -- The artificial variable that is expelled is zero.
  exact ⟨hw.canonical.step (ht.bringIn hrow hart hentering hnew hne).canonical,
    hw.lowers.step ⟨ht.wellFormed.exchanges hentering hnew hrow,
      Or.inl (ht.value_eq_zero _ hrow hart)⟩⟩

theorem descending_of_phaseTwo? (htolerance : options.tolerance = 0) {start : Tableau ℚ}
    {stage : Stage ℚ (Optimum ℚ)} (hstart : p.CanonicalProgram start)
    (h : phaseTwo? options rule start = some stage) : p.DescendingIn .two stage.walk := by
  obtain ⟨w, ending, hdescend, hconcludes⟩ := concludes_of_phaseTwo? h
  rw [htolerance] at hdescend
  have hw : p.DescendingIn .two w := descend?_keeps (fun hw => Walk.Descending.move hw)
    (Walk.Descending.startingAt hstart) hdescend
  cases hconcludes <;> exact hw

/-- Without tolerance, both walks of a run descend. -/
theorem descending_of_run? (htolerance : options.tolerance = 0)
    (h : p.run? options rule = some run) (hw : (phase, w) ∈ run.walks) :
    p.DescendingIn phase w := by
  cases proceeds_of_run? h with
  | abandoned hone =>
    cases List.mem_singleton.1 hw
    exact descending_of_phaseOne? htolerance hone
  | infeasible hone =>
    cases List.mem_singleton.1 hw
    exact descending_of_phaseOne? htolerance hone
  | entered hone hstart htwo =>
    rcases List.mem_pair.1 hw with heq | heq <;> cases heq
    · exact descending_of_phaseOne? htolerance hone
    · have hreduced := reduced_of_phaseOne? htolerance hone rfl
      rw [hreduced.withCosts?_eq, Option.some.injEq] at hstart
      subst hstart
      exact descending_of_phaseTwo? htolerance hreduced.canonical_restated htwo

end Problem

namespace Engine

/-- Without tolerance, no pivot of a solve raises the objective of its phase, and exactly those
lower it that are made in a row whose value is positive. When a set of basic variables comes back in
a phase, all pivots in between were made in rows whose value is zero, and at the same basic
solution. A solve that is given up at a limit of at least `(n + m).choose m` pivots has thus made
one of the pivots of the phase in a row whose value is zero. -/
theorem solve?_degenerate {σ : Type} (engine : Engine ℚ σ)
    (htolerance : engine.options.tolerance = 0) (p : Problem ℚ) :
    ∃ run answer engine', p.run? engine.options engine.rule = some run ∧
      engine.solve? p = some (answer, engine') ∧
      (∀ phase w, (phase, w) ∈ run.walks → w.Degenerates) ∧
      ∀ phase limit, answer.result = .error (.pivotLimit phase limit) →
        (p.variableCount + p.constraintCount).choose p.constraintCount ≤ limit →
        ∃ w k t pivot t', (phase, w) ∈ run.walks ∧ w.pivotCount = limit ∧
          w.Passes k t pivot t' ∧ t.value? pivot.row = some 0 := by
  obtain ⟨run, hrun⟩ := p.exists_run? engine.options engine.rule
  refine ⟨run, _, _, hrun, solve?_of_run? hrun engine.listener engine.state,
    fun phase w hw => (Problem.descending_of_run? htolerance hrun hw).degenerates,
    fun phase limit hresult hlong => ?_⟩
  obtain ⟨w, hw, rfl⟩ := Problem.walk_of_pivotLimit hrun hresult
  obtain ⟨hlegal, hfits⟩ := Problem.legal_of_run? hrun hw
  obtain ⟨k, t, pivot, t', hpasses, hzero⟩ :=
    (Problem.descending_of_run? htolerance hrun hw).exists_value_eq_zero hlegal hfits.1 hlong
  exact ⟨w, k, t, pivot, t', hw, rfl, hpasses, hzero⟩

/-- A program on which the method goes around in circles, in phase two with the column of least
relative cost. -/
def cycling : Problem ℚ where
  constraints := ⟨[[-2, -9, 1, 9, 1, 0], [1/3, 1, -1/3, -2, 0, 1]], 6⟩
  values := [0, 0]
  minimizationCost := [-2, -3, 1, 12, 0, 0]
  direction := .minimize
  rows_ne_nil := List.cons_ne_nil _ _
  columns_pos := Nat.succ_pos _
  rectangular := List.forall_mem_cons.2 ⟨rfl, List.forall_mem_singleton.2 rfl⟩
  values_length := by decide
  cost_length := rfl

/-- An exact engine with the column of least relative cost and a limit of `(6 + 2).choose 2` pivots.
-/
def steep : Engine ℚ History := ⟨⟨28, 0⟩, .steepest, .history, ∅⟩

/-- The limit is used up, and a pivot in a row whose value is zero is the reason. -/
theorem solve?_degenerate_cycling : ∃ run answer engine' w k t pivot t',
    cycling.run? steep.options steep.rule = some run ∧
      steep.solve? cycling = some (answer, engine') ∧
      answer.result = .error (.pivotLimit .two 28) ∧ (.two, w) ∈ run.walks ∧ w.Degenerates ∧
      w.pivotCount = 28 ∧ w.Passes k t pivot t' ∧ t.value? pivot.row = some 0 := by
  obtain ⟨run, answer, engine', hrun, hsolve, hwalks, hlimit⟩ := solve?_degenerate steep rfl cycling
  have hresult : (steep.solve? cycling).map (fun reply => reply.1.result) =
      some (.error (.pivotLimit .two 28)) := by decide +kernel
  rw [hsolve, Option.map_some, Option.some.injEq] at hresult
  obtain ⟨w, k, t, pivot, t', hw, hcount, hpasses, hzero⟩ :=
    hlimit .two 28 hresult (by decide +kernel)
  exact ⟨run, answer, engine', w, k, t, pivot, t', hrun, hsolve, hresult, hw, hwalks .two w hw,
    hcount, hpasses, hzero⟩

end Engine

end SimplexMethod
