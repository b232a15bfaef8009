import Mathlib.Tactic
import SimplexMethod.Proofs.Tableau.Narrow
import SimplexMethod.Proofs.TwoPhase.Stages

/-!
# Phase one

With tolerance zero, phase one refutes the constraints when it finds them infeasible
(`exists_refutes_of_phaseOne?`), and otherwise ends at a tableau of the artificial problem in which
artificial variables are basic in the redundant rows only (`reduced_of_phaseOne?`).

Expelling artificial variables leaves all values as they are, since the values of their rows are
zero, so the sign of the entry at which a pivot is made does not matter (`Levelled.bringIn`). A row
without a structural entry to pivot at has nothing but zeros in the structural columns, and as later
pivots are made at other rows, it stays so (`NullRow.bringIn`). The specification of `expel?`
follows its recursion through the rows (`expelled_of_expel?`).
-/

set_option autoImplicit false

namespace SimplexMethod

/-! ## Rows without a replacement -/

namespace Tableau

variable {t : Tableau ℚ} {row entering i : Nat}

/-- An artificial variable is basic in the row, and the row has only zeros in the structural columns
and as its value. -/
structure NullRow (t : Tableau ℚ) (i : Nat) : Prop where
  row_lt : i < t.rowCount
  artificial : t.IsArtificial (t.basic i)
  entry_eq_zero : ∀ j < t.structuralCount, t.entry i j = 0
  value_eq_zero : t.value i = 0

/-- Without its artificial columns, a null row is zero. -/
theorem NullRow.narrow_eq_zero (hnull : t.NullRow i) :
    narrow t.structuralCount t.columnCount (t.entry i) = 0 :=
  narrow_eq hnull.entry_eq_zero hnull.value_eq_zero fun _ _ => rfl

/-- No pivot is made at a null row, and the others do not touch it. -/
theorem NullRow.bringIn (hnull : t.NullRow i) (h : t.WellFormed) (hrow : row < t.rowCount)
    (hentering : entering < t.structuralCount) (hne : t.entry row entering ≠ 0) :
    (t.bringIn entering row).NullRow i := by
  have hi : i ≠ row := by
    rintro rfl
    exact hne (hnull.entry_eq_zero entering hentering)
  have hsame (j : Nat) : (t.bringIn entering row).entry i j = t.entry i j := by
    rw [h.entry_bringIn_of_ne hrow hi, hnull.entry_eq_zero entering hentering, zero_mul, sub_zero]
  refine ⟨?_, ?_, fun j hj => ?_, ?_⟩
  · rw [bringIn_rowCount]
    exact hnull.row_lt
  · rw [basic_bringIn_of_ne hi, bringIn_isArtificial_iff]
    exact hnull.artificial
  · rw [hsame]
    exact hnull.entry_eq_zero j hj
  · exact (hsame _).trans hnull.value_eq_zero

end Tableau

namespace Problem

open Tableau

variable {p : Problem ℚ} {t t' : Tableau ℚ} {row entering i : Nat}

/-- The tableau states the artificial problem, and all artificial variables are zero. -/
structure Levelled (p : Problem ℚ) (t : Tableau ℚ) : Prop where
  canonical : p.CanonicalArtificial t
  value_eq_zero : ∀ i < t.rowCount, t.IsArtificial (t.basic i) → t.value i = 0

namespace Levelled

theorem wellFormed (h : p.Levelled t) : t.WellFormed := h.canonical.states.wellFormed

/-- Expelling an artificial variable changes no value. -/
theorem value_bringIn (h : p.Levelled t) (hrow : row < t.rowCount)
    (hart : t.IsArtificial (t.basic row)) (i : Nat) :
    (t.bringIn entering row).value i = t.value i :=
  h.wellFormed.value_bringIn_of_value_eq_zero hrow (h.value_eq_zero row hrow hart) i

/-- Expelling an artificial variable, at an entry of either sign, keeps the tableau levelled. -/
theorem bringIn (h : p.Levelled t) (hrow : row < t.rowCount)
    (hart : t.IsArtificial (t.basic row)) (hentering : entering < t.structuralCount)
    (hnew : entering ∉ t.basis) (hne : t.entry row entering ≠ 0) :
    p.Levelled (t.bringIn entering row) where
  canonical :=
    { states := h.canonical.states.bringIn hentering hnew hrow hne
      nonneg := by
        intro i hi
        rw [bringIn_rowCount] at hi
        rw [h.value_bringIn hrow hart]
        exact h.canonical.nonneg i hi
      columnCount_eq := h.canonical.columnCount_eq
      artificials_eq := h.canonical.artificials_eq }
  value_eq_zero := by
    intro i hi harti
    rw [bringIn_rowCount] at hi
    rw [h.value_bringIn hrow hart]
    rcases eq_or_ne i row with rfl | hne'
    · exact h.value_eq_zero i hi hart
    · rw [basic_bringIn_of_ne hne'] at harti
      exact h.value_eq_zero i hi harti

/-- An artificial row without an open structural entry has no structural entry at all. -/
theorem nullRow (h : p.Levelled t) (hrow : row < t.rowCount)
    (hart : t.IsArtificial (t.basic row))
    (hzero : ∀ j < t.structuralCount, j ∉ t.basis → t.entry row j = 0) : t.NullRow row where
  row_lt := hrow
  artificial := hart
  value_eq_zero := h.value_eq_zero row hrow hart
  entry_eq_zero := by
    intro j hj
    by_cases hmem : j ∈ t.basis
    · obtain ⟨i, hi, rfl⟩ := mem_basis_iff.1 hmem
      apply h.canonical.states.unit_of_ne hi hrow
      rintro rfl
      exact not_isArtificial_iff.2 hj hart
    · exact hzero j hj hmem

end Levelled

/-! ## Expelling -/

/-- What expelling the artificial variables in the given rows makes of a tableau in which they are
zero. -/
structure Expelled (p : Problem ℚ) (rows : List Nat) (t t' : Tableau ℚ)
    (redundant : List Nat) : Prop extends Cleared rows t t' redundant where
  levelled : p.Levelled t'
  value_eq : ∀ i, t'.value i = t.value i
  nullRow : ∀ i ∈ redundant, t'.NullRow i
  nullRow_keep : ∀ i, t.NullRow i → t'.NullRow i

namespace Expelled

variable {rows redundant : List Nat}

/-- A row in which a structural variable is basic is passed over. -/
theorem kept (h : p.Expelled rows t t' redundant) (hnotMem : row ∉ rows)
    (hstructural : t.basic row < t.structuralCount) :
    p.Expelled (row :: rows) t t' redundant where
  toCleared := h.toCleared.kept hnotMem hstructural
  levelled := h.levelled
  value_eq := h.value_eq
  nullRow := h.nullRow
  nullRow_keep := h.nullRow_keep

/-- A null row is listed, and it is still null when the other rows are done. -/
theorem listed (h : p.Expelled rows t t' redundant) (hnotMem : row ∉ rows)
    (hnull : t.NullRow row) : p.Expelled (row :: rows) t t' (row :: redundant) where
  toCleared := h.toCleared.listed hnotMem hnull.artificial
  levelled := h.levelled
  value_eq := h.value_eq
  nullRow := List.forall_mem_cons.2 ⟨h.nullRow_keep row hnull, h.nullRow⟩
  nullRow_keep := h.nullRow_keep

/-- A replacement changes no value, and leaves null rows as they are. -/
theorem replaced (h : p.Expelled rows (t.bringIn entering row) t' redundant) (ht : p.Levelled t)
    (hnotMem : row ∉ rows) (hrow : row < t.rowCount) (hart : t.IsArtificial (t.basic row))
    (hentering : entering < t.structuralCount) (hne : t.entry row entering ≠ 0) :
    p.Expelled (row :: rows) t t' redundant where
  toCleared := h.toCleared.replaced hnotMem hrow hentering
  levelled := h.levelled
  value_eq := fun i => (h.value_eq i).trans (ht.value_bringIn hrow hart i)
  nullRow := h.nullRow
  nullRow_keep := fun i hi => h.nullRow_keep i (hi.bringIn ht.wellFormed hrow hentering hne)

end Expelled

/-- What every replacement keeps of a walk holds after expelling without tolerance, also when that
is cut short, and the artificial variables are still zero. -/
theorem Levelled.expel?_keeps {options : Options ℚ} (htolerance : options.tolerance = 0)
    {Q : Walk ℚ → Prop}
    (hkeep : ∀ {w : Walk ℚ} {row entering : Nat}, Q w → p.Levelled w.tableau →
      row < w.tableau.rowCount → w.tableau.IsArtificial (w.tableau.basic row) →
      entering < w.tableau.structuralCount → entering ∉ w.tableau.basis →
      w.tableau.entry row entering ≠ 0 → Q (w.pivot entering row))
    {rows : List Nat} {w w' : Walk ℚ} {result : Option (List Nat)}
    (hlevelled : p.Levelled w.tableau) (hw : Q w) (hrows : ∀ row ∈ rows, row < w.tableau.rowCount)
    (h : expel? options rows w = some (w', result)) : Q w' ∧ p.Levelled w'.tableau := by
  refine SimplexMethod.expel?_keeps (Q := fun v => Q v ∧ p.Levelled v.tableau)
    (fun hv => hv.2.wellFormed) ?_ ⟨hw, hlevelled⟩ hrows h
  rintro v row entering ⟨hv, hlevelled⟩ hrow hart hchoice -
  obtain ⟨hentering, hnew, hlarge⟩ := hlevelled.wellFormed.replacement_bounds hchoice
  rw [htolerance, Scalar.negligible_zero_iff] at hlarge
  exact ⟨hkeep hv hlevelled hrow hart hentering hnew hlarge,
    hlevelled.bringIn hrow hart hentering hnew hlarge⟩

/-- Expelling follows its specification. The induction is on the rows; a row that is done stays as
it is because later pivots are made at other rows. -/
theorem expelled_of_expel? {options : Options ℚ} (htolerance : options.tolerance = 0)
    {rows : List Nat} {w w' : Walk ℚ} {redundant : List Nat} (hw : p.Levelled w.tableau)
    (hrows : ∀ row ∈ rows, row < w.tableau.rowCount) (hnodup : rows.Nodup)
    (h : expel? options rows w = some (w', some redundant)) :
    p.Expelled rows w.tableau w'.tableau redundant := by
  induction rows generalizing w redundant with
  | nil =>
    rw [expel?] at h
    cases Option.some.inj h
    exact ⟨Cleared.nil hw.wellFormed, hw, fun _ => rfl, fun _ hi => absurd hi List.not_mem_nil,
      fun _ => id⟩
  | cons row rows ih =>
    obtain ⟨hnotMem, hnodup⟩ := List.nodup_cons.1 hnodup
    obtain ⟨hrow, hrest⟩ := List.forall_mem_cons.1 hrows
    rw [expel?_cons hw.wellFormed hrow, htolerance] at h
    split at h
    · next hart =>
      cases hchoice : w.tableau.replacement row 0 with
      | some entering =>
        -- A replacement is brought in, and the other rows are done after it.
        rw [hchoice] at h
        dsimp only at h
        split at h
        · obtain ⟨hentering, hnew, hlarge⟩ := hw.wellFormed.replacement_bounds hchoice
          rw [Scalar.negligible_zero_iff] at hlarge
          have hnext : p.Levelled (w.pivot entering row).tableau :=
            hw.bringIn hrow hart hentering hnew hlarge
          have hlater := ih hnext (by rwa [Walk.tableau_pivot, bringIn_rowCount]) hnodup h
          exact hlater.replaced hw hnotMem hrow hart hentering hlarge
        · -- The pivot is not allowed, so there is no list of redundant rows.
          cases Option.some.inj h
      | none =>
        -- There is no replacement, so the row is null and is put on the list.
        rw [hchoice] at h
        obtain ⟨⟨next, collected⟩, hexpel, h⟩ := Option.map_eq_some_iff.1 h
        obtain ⟨rfl, hcollected⟩ := Prod.ext_iff.1 h
        obtain ⟨later, rfl, rfl⟩ := Option.map_eq_some_iff.1 hcollected
        refine (ih hw hrest hnodup hexpel).listed hnotMem (hw.nullRow hrow hart fun j hj hnew => ?_)
        exact Scalar.negligible_zero_iff.1
          (hw.wellFormed.negligible_of_replacement hchoice hj hnew)
    · next hart =>
      -- The variable that is basic in the row is structural.
      exact (ih hw hrest hnodup h).kept hnotMem (not_isArtificial_iff.1 hart)

/-! ## The end of phase one -/

/-- The tableau states the artificial problem and artificial variables are basic in the given rows
only, which are null. -/
structure Reduced (p : Problem ℚ) (t : Tableau ℚ) (redundant : List Nat) : Prop where
  canonical : p.CanonicalArtificial t
  sorted : redundant.Pairwise (· < ·)
  nullRow : ∀ i ∈ redundant, t.NullRow i
  structural : ∀ i < t.rowCount, i ∉ redundant → t.basic i < t.structuralCount

/-- Once all rows are done, artificial variables are left in the listed rows only. -/
theorem Expelled.reduced {redundant : List Nat}
    (h : p.Expelled (List.range t.rowCount) t t' redundant) : p.Reduced t' redundant where
  canonical := h.levelled.canonical
  sorted := h.toCleared.sorted
  nullRow := h.nullRow
  structural := fun _ hi hnot => h.structural_of_range hi hnot

/-- Without basic artificial variables there is nothing to expel. -/
theorem CanonicalArtificial.reduced (h : p.CanonicalArtificial t)
    (hbasic : ¬ t.hasArtificialBasic = true) : p.Reduced t [] where
  canonical := h
  sorted := List.Pairwise.nil
  nullRow := fun _ hi => absurd hi List.not_mem_nil
  structural := fun _ hi _ => structural_of_hasArtificialBasic hbasic hi

section PhaseOne

variable {options : Options ℚ} {rule : PivotRule} {stage : Stage ℚ Feasibility}

/-- The descent of phase one keeps to tableaus of the artificial problem. -/
theorem canonical_of_descend? {allowed : Nat} {w : Walk ℚ} {ending : Descent ℚ}
    (h : descend? rule 0 allowed (.startingAt p.artificialTableau) = some (w, ending)) :
    w.All p.CanonicalArtificial :=
  descend?_all (fun ht hmove hbring => ht.move hmove hbring)
    (Walk.all_startingAt canonical_artificialTableau) h

/-- When the sum of the artificial variables is negligible, all of them are zero. -/
theorem CanonicalArtificial.levelled (h : p.CanonicalArtificial t) {objective : ℚ}
    (hobjective : t.objective? = some objective) (hsmall : ¬ 0 < Scalar.abs objective) :
    t.objective = 0 ∧ p.Levelled t := by
  rw [h.states.wellFormed.objective?_eq, Option.some.injEq] at hobjective
  subst hobjective
  rw [Scalar.abs_eq, abs_of_nonneg h.objective_nonneg, not_lt] at hsmall
  -- A sum of values that are not negative is zero only when all of them are.
  have hzero : t.objective = 0 := le_antisymm hsmall h.objective_nonneg
  exact ⟨hzero, h, fun i hi hart => h.value_eq_zero hzero hi hart⟩

/-- What the pivots of the descent keep of a walk, and those that expel artificial variables at
level zero as well, holds of the walk of phase one. -/
theorem phaseOne?_keeps (htolerance : options.tolerance = 0) {Q : Walk ℚ → Prop}
    (hdescent : ∀ {w w' : Walk ℚ} {entering row : Nat}, Q w →
      w.tableau.move? rule 0 = some (.pivot entering row) →
      w.pivot? entering row = some w' → Q w')
    (hexpelled : ∀ {w : Walk ℚ} {row entering : Nat}, Q w → p.Levelled w.tableau →
      row < w.tableau.rowCount → w.tableau.IsArtificial (w.tableau.basic row) →
      entering < w.tableau.structuralCount → entering ∉ w.tableau.basis →
      w.tableau.entry row entering ≠ 0 → Q (w.pivot entering row))
    (hstart : Q (.startingAt p.artificialTableau))
    (h : phaseOne? options rule p.artificialTableau = some stage) : Q stage.walk := by
  obtain ⟨w, ending, hdescend, hconcludes⟩ := concludes_of_phaseOne? h
  rw [htolerance] at hdescend
  have hw : Q w := descend?_keeps hdescent hstart hdescend
  have hexpel {objective : ℚ} {w' : Walk ℚ} {result : Option (List Nat)}
      (hobjective : w.tableau.objective? = some objective)
      (hsmall : ¬ options.tolerance < Scalar.abs objective)
      (hresult : expel? options (List.range w.tableau.rowCount) w = some (w', result)) : Q w' := by
    rw [htolerance] at hsmall
    obtain ⟨-, hlevelled⟩ := (canonical_of_descend? hdescend).tableau.levelled hobjective hsmall
    exact (hlevelled.expel?_keeps htolerance hexpelled hw (fun row hrow => List.mem_range.1 hrow)
      hresult).1
  cases hconcludes with
  | limited => exact hw
  | unbounded => exact hw
  | infeasible => exact hw
  | structural => exact hw
  | cutShort hobjective hsmall hresult => exact hexpel hobjective hsmall hresult
  | expelled hobjective hsmall hresult => exact hexpel hobjective hsmall hresult

/-- Phase one keeps to tableaus of the artificial problem, also while artificial variables are
expelled. -/
theorem canonical_of_phaseOne? (htolerance : options.tolerance = 0)
    (h : phaseOne? options rule p.artificialTableau = some stage) :
    stage.walk.All p.CanonicalArtificial := by
  refine phaseOne?_keeps htolerance (Q := (·.All p.CanonicalArtificial))
    (fun hw hmove hpivot => ?_) (fun hw ht hrow hart hentering hnew hne => ?_)
    (Walk.all_startingAt canonical_artificialTableau) h
  · obtain ⟨leaving, hbring⟩ := Walk.tableau_of_pivot? hpivot
    exact hw.pivot? hpivot (hw.tableau.move hmove hbring)
  · exact hw.step (ht.bringIn hrow hart hentering hnew hne).canonical

/-- Phase one decides by the sum of the artificial variables at a tableau without profitable
columns. -/
theorem phaseOne?_cases (htolerance : options.tolerance = 0) {found : Feasibility}
    (h : phaseOne? options rule p.artificialTableau = some stage)
    (hfound : stage.outcome = .ok found) :
    ∃ t, p.CanonicalArtificial t ∧ (∀ j, ¬ t.Profitable 0 j) ∧
      ((found = .infeasible ∧ 0 < t.objective) ∨
        ∃ redundant, found = .feasible redundant ∧ p.Reduced stage.walk.tableau redundant ∧
          t.objective = 0 ∧ (∀ i, stage.walk.tableau.value i = t.value i)) := by
  obtain ⟨w, ending, hdescend, hconcludes⟩ := concludes_of_phaseOne? h
  rw [htolerance] at hdescend
  have hcanonical := (canonical_of_descend? hdescend).tableau
  obtain ⟨move, hmove, hending⟩ := move?_of_descend? hdescend
  have hwell := hcanonical.states.wellFormed
  cases hconcludes with
  | limited => cases hfound
  | unbounded => cases hfound
  | cutShort => cases hfound
  | infeasible hobjective hlarge =>
    cases hfound
    obtain rfl : move = .stay := hending
    rw [hwell.objective?_eq, Option.some.injEq] at hobjective
    rw [htolerance, ← hobjective, Scalar.abs_eq, abs_of_nonneg hcanonical.objective_nonneg]
      at hlarge
    exact ⟨w.tableau, hcanonical, hwell.explains_of_move? hmove, Or.inl ⟨rfl, hlarge⟩⟩
  | structural hobjective hsmall hbasic =>
    cases hfound
    obtain rfl : move = .stay := hending
    rw [htolerance] at hsmall
    obtain ⟨hzero, -⟩ := hcanonical.levelled hobjective hsmall
    exact ⟨w.tableau, hcanonical, hwell.explains_of_move? hmove,
      Or.inr ⟨[], rfl, hcanonical.reduced hbasic, hzero, fun _ => rfl⟩⟩
  | expelled hobjective hsmall hexpel =>
    cases hfound
    obtain rfl : move = .stay := hending
    rw [htolerance] at hsmall
    obtain ⟨hzero, hlevelled⟩ := hcanonical.levelled hobjective hsmall
    have hexpelled := expelled_of_expel? htolerance hlevelled
      (fun row hrow => List.mem_range.1 hrow) List.nodup_range hexpel
    exact ⟨w.tableau, hcanonical, hwell.explains_of_move? hmove,
      Or.inr ⟨_, rfl, hexpelled.reduced, hzero, hexpelled.value_eq⟩⟩

/-- When phase one finds no feasible basis, the constraints are refuted. -/
theorem exists_refutes_of_phaseOne? (htolerance : options.tolerance = 0)
    (h : phaseOne? options rule p.artificialTableau = some stage)
    (hfound : stage.outcome = .ok .infeasible) : ∃ y, p.Refutes y := by
  obtain ⟨t, hcanonical, hstay, ⟨-, hpos⟩ | ⟨redundant, hne, -⟩⟩ :=
    phaseOne?_cases htolerance h hfound
  · exact hcanonical.exists_refutes hstay hpos
  · cases hne

/-- When phase one finds a feasible basis, artificial variables are left in redundant rows only. -/
theorem reduced_of_phaseOne? (htolerance : options.tolerance = 0) {redundant : List Nat}
    (h : phaseOne? options rule p.artificialTableau = some stage)
    (hfound : stage.outcome = .ok (.feasible redundant)) :
    p.Reduced stage.walk.tableau redundant := by
  obtain ⟨t, -, -, ⟨hne, -⟩ | ⟨listed, heq, hreduced, -⟩⟩ := phaseOne?_cases htolerance h hfound
  · cases hne
  · cases heq
    exact hreduced

end PhaseOne

end Problem

end SimplexMethod
