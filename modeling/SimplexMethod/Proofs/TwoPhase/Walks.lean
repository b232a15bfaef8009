import Mathlib.Tactic
import SimplexMethod.Proofs.TwoPhase.Expelling

/-!
# Legal walks

A pivot of the method brings in a structural column that is not basic, in the place of the column
that is basic in its row (`Tableau.Exchanges`). A walk is legal when each of its steps is such a
pivot, made at the tableau before it (`Walk.Legal`). Descents and the expulsion of artificial
variables make legal walks legal again, whatever the scalars are (`legal_of_descend?`,
`legal_of_expel?`), so what every exchange keeps holds on all of a legal walk (`Legal.all`): sizes
(`Legal.shaped`), and that an artificial variable which has left the basis does not come back
(`Legal.pairwise_tableaus`).
-/

set_option autoImplicit false

namespace SimplexMethod

variable {F : Type}

namespace Tableau

section Exchange

variable [Scalar F] {t t' : Tableau F} {pivot : Pivot} {entering row : Nat}

/-- The pivot brings in a structural column that is not basic, in the place of the column that is
basic in its row, and leads to the second tableau. -/
structure Exchanges (t : Tableau F) (pivot : Pivot) (t' : Tableau F) : Prop where
  structural : pivot.entering < t.structuralCount
  notMem : pivot.entering ∉ t.basis
  leaves : t.basis[pivot.row]? = some pivot.leaving
  bringIn?_eq : t.bringIn? pivot.entering pivot.row = some (pivot.leaving, t')

/-- In a well-formed tableau, an open column can be exchanged in every row. -/
theorem WellFormed.exchanges (h : t.WellFormed) (hentering : entering < t.structuralCount)
    (hnew : entering ∉ t.basis) (hrow : row < t.rowCount) :
    t.Exchanges ⟨entering, t.basic row, row⟩ (t.bringIn entering row) where
  structural := hentering
  notMem := hnew
  leaves := basis_getElem?_eq hrow
  bringIn?_eq := h.bringIn?_eq (hentering.trans_le structuralCount_le) hrow

namespace Exchanges

theorem row_lt (h : t.Exchanges pivot t') : pivot.row < t.rowCount :=
  (List.getElem?_eq_some_iff.1 h.leaves).1

theorem basis_eq (h : t.Exchanges pivot t') : t'.basis = t.basis.set pivot.row pivot.entering :=
  (basis_of_bringIn? h.bringIn?_eq).2

theorem eq_bringIn (h : t.Exchanges pivot t') (hwell : t.WellFormed) :
    t' = t.bringIn pivot.entering pivot.row := by
  have hvalue := hwell.bringIn?_eq (h.structural.trans_le structuralCount_le) h.row_lt
  rw [h.bringIn?_eq] at hvalue
  exact congrArg Prod.snd (Option.some.inj hvalue)

/-- An exchange keeps the shape of a tableau. -/
theorem shaped (h : t.Exchanges pivot t') {rows columns artificials : Nat}
    (ht : t.Shaped rows columns artificials) : t'.Shaped rows columns artificials := by
  rw [h.eq_bringIn ht.wellFormed]
  exact ht.bringIn h.structural h.notMem h.row_lt

/-- Only the entering column, which is structural, is new in the basis. -/
theorem mem_of_isArtificial (h : t.Exchanges pivot t') {j : Nat} (hart : t.IsArtificial j)
    (hj : j ∈ t'.basis) : j ∈ t.basis := by
  rw [h.basis_eq] at hj
  rcases List.mem_or_eq_of_mem_set hj with hj | rfl
  · exact hj
  · exact absurd hart (not_isArtificial_iff.2 h.structural)

end Exchanges

end Exchange

end Tableau

open Tableau

namespace Walk

/-- The tableaus on a walk in the order in which they are reached. -/
def tableaus (w : Walk F) : List (Tableau F) := w.start :: w.steps.reverse.map Step.tableau

variable {w w' : Walk F} {P : Tableau F → Prop}

theorem forall_mem_tableaus_iff : (∀ t ∈ w.tableaus, P t) ↔ w.All P := by
  simp [tableaus, All]

section Legal

variable [Scalar F]

/-- Every step of the walk is an exchange at the tableau before it. -/
inductive Legal : Walk F → Prop where
  | startingAt (t : Tableau F) : Legal (startingAt t)
  | step {w : Walk F} {pivot : Pivot} {t : Tableau F} (walk : Legal w)
      (exchanges : w.tableau.Exchanges pivot t) :
      Legal { w with steps := ⟨pivot, t⟩ :: w.steps }

namespace Legal

/-- A walk stays legal when an open column is brought in. -/
theorem pivot (h : w.Legal) (hwell : w.tableau.WellFormed) {entering row : Nat}
    (hentering : entering < w.tableau.structuralCount) (hnew : entering ∉ w.tableau.basis)
    (hrow : row < w.tableau.rowCount) : (w.pivot entering row).Legal :=
  h.step (hwell.exchanges hentering hnew hrow)

/-- What every exchange keeps holds on the whole walk. -/
theorem all (hkeep : ∀ {t t' : Tableau F} {pivot : Pivot}, P t → t.Exchanges pivot t' → P t')
    (h : w.Legal) (hstart : P w.start) : w.All P := by
  induction h with
  | startingAt t => exact all_startingAt hstart
  | step _ hexchanges ih =>
    have hall := ih hstart
    exact hall.step (hkeep hall.tableau hexchanges)

theorem shaped (h : w.Legal) {rows columns artificials : Nat}
    (hstart : w.start.Shaped rows columns artificials) :
    w.All (·.Shaped rows columns artificials) :=
  h.all (fun ht hexchanges => hexchanges.shaped ht) hstart

/-- An artificial variable that is basic at the end of a walk was so all the time. -/
theorem mem_basis_of_isArtificial (h : w.Legal) (hstart : w.start.WellFormed) {j : Nat}
    (hart : w.start.IsArtificial j) (hj : j ∈ w.tableau.basis) : w.All (j ∈ ·.basis) := by
  induction h with
  | startingAt t => exact all_startingAt hj
  | @step w pivot t hlegal hexchanges ih =>
    have hshaped := (hlegal.shaped hstart.shaped).tableau
    have hart' : w.tableau.IsArtificial j := by
      rw [IsArtificial, hshaped.structuralCount_eq]
      exact hart
    exact (ih hstart hart (hexchanges.mem_of_isArtificial hart' hj)).step hj

/-- On a legal walk no artificial variable comes back into the basis. -/
theorem pairwise_tableaus (h : w.Legal) (hstart : w.start.WellFormed) :
    w.tableaus.Pairwise fun t t' => ∀ j, t.IsArtificial j → j ∈ t'.basis → j ∈ t.basis := by
  induction h with
  | startingAt t => exact List.pairwise_singleton _ _
  | @step w pivot t hlegal hexchanges ih =>
    have hshaped := hlegal.shaped hstart.shaped
    have htableaus : (⟨w.start, ⟨pivot, t⟩ :: w.steps⟩ : Walk F).tableaus = w.tableaus ++ [t] := by
      simp [tableaus]
    rw [htableaus]
    refine List.pairwise_append.2 ⟨ih hstart, List.pairwise_singleton _ _, ?_⟩
    intro earlier hearlier later hlater j hart hj
    obtain rfl := List.mem_singleton.1 hlater
    -- All tableaus on the walk have the same artificial columns.
    have hearlier' := forall_mem_tableaus_iff.2 hshaped earlier hearlier
    rw [IsArtificial, hearlier'.structuralCount_eq] at hart
    have hart' : w.tableau.IsArtificial j := by
      rw [IsArtificial, hshaped.tableau.structuralCount_eq]
      exact hart
    have hmem := hexchanges.mem_of_isArtificial hart' hj
    exact forall_mem_tableaus_iff.2 (hlegal.mem_basis_of_isArtificial hstart hart hmem) _ hearlier

end Legal

end Legal

end Walk

/-! ## The loops of the method -/

section Loops

variable [Scalar F] {w w' : Walk F}

/-- A descent makes a legal walk longer by legal steps. -/
theorem legal_of_descend? {rule : PivotRule} {tolerance : F} {allowed : Nat} {ending : Descent F}
    (hw : w.Legal) (hwell : w.tableau.WellFormed)
    (h : descend? rule tolerance allowed w = some (w', ending)) :
    w'.Legal ∧ w'.tableau.WellFormed ∧ w'.start = w.start := by
  refine descend?_keeps (Q := fun v => v.Legal ∧ v.tableau.WellFormed ∧ v.start = w.start)
    ?_ ⟨hw, hwell, rfl⟩ h
  rintro v v' entering row ⟨hlegal, hv, hstart⟩ hmove hpivot
  rw [hv.move?_eq, Option.some.injEq] at hmove
  obtain ⟨hentering, hnew, hrow⟩ := hv.pivot_bounds hmove
  have hlt := hentering.trans_le structuralCount_le
  rw [Walk.pivot?_eq hv hlt hrow] at hpivot
  cases Option.some.inj hpivot
  exact ⟨hlegal.pivot hv hentering hnew hrow, hv.bringIn hlt hnew hrow, hstart⟩

/-- Expelling artificial variables makes a legal walk longer by legal steps. -/
theorem legal_of_expel? {options : Options F} {rows : List Nat} {result : Option (List Nat)}
    (hw : w.Legal) (hwell : w.tableau.WellFormed) (hrows : ∀ row ∈ rows, row < w.tableau.rowCount)
    (h : expel? options rows w = some (w', result)) : w'.Legal ∧ w'.start = w.start := by
  have hkept := expel?_keeps
    (Q := fun v => v.Legal ∧ v.tableau.WellFormed ∧ v.start = w.start)
    (fun hv => hv.2.1) ?_ ⟨hw, hwell, rfl⟩ hrows h
  · exact ⟨hkept.1, hkept.2.2⟩
  · rintro v row entering ⟨hlegal, hv, hstart⟩ hrow - hchoice -
    obtain ⟨hentering, hnew, -⟩ := hv.replacement_bounds hchoice
    have hlt := hentering.trans_le structuralCount_le
    exact ⟨hlegal.pivot hv hentering hnew hrow, hv.bringIn hlt hnew hrow, hstart⟩

/-- A descent makes no more pivots than are allowed. -/
theorem pivotCount_le_of_descend? {rule : PivotRule} {tolerance : F} {allowed : Nat}
    {ending : Descent F} (h : descend? rule tolerance allowed w = some (w', ending)) :
    w'.pivotCount ≤ w.pivotCount + allowed := by
  induction allowed generalizing w with
  | zero =>
    rw [descend?] at h
    obtain ⟨move, -, hrest⟩ := Option.bind_eq_some_iff.1 h
    cases move <;> cases Option.some.inj hrest <;> exact le_rfl
  | succ allowed ih =>
    rw [descend?] at h
    obtain ⟨move, -, hrest⟩ := Option.bind_eq_some_iff.1 h
    cases move with
    | stay =>
      cases Option.some.inj hrest
      exact Nat.le_add_right _ _
    | fall entering column =>
      cases Option.some.inj hrest
      exact Nat.le_add_right _ _
    | pivot entering row =>
      obtain ⟨next, hpivot, hrest⟩ := Option.bind_eq_some_iff.1 hrest
      obtain ⟨leaving, t, -, rfl⟩ := Walk.pivot?_eq_some hpivot
      have hle := ih hrest
      simp only [Walk.pivotCount, List.length_cons] at hle ⊢
      omega

/-- Expelling keeps to the pivot limit. -/
theorem pivotCount_le_of_expel? {options : Options F} {rows : List Nat}
    {result : Option (List Nat)} (hwell : w.tableau.WellFormed)
    (hrows : ∀ row ∈ rows, row < w.tableau.rowCount) (hw : w.pivotCount ≤ options.pivotLimit)
    (h : expel? options rows w = some (w', result)) : w'.pivotCount ≤ options.pivotLimit := by
  have hkept := expel?_keeps
    (Q := fun v => v.tableau.WellFormed ∧ v.pivotCount ≤ options.pivotLimit)
    (fun hv => hv.1) ?_ ⟨hwell, hw⟩ hrows h
  · exact hkept.2
  · rintro v row entering ⟨hv, -⟩ hrow - hchoice hallowed
    obtain ⟨hentering, hnew, -⟩ := hv.replacement_bounds hchoice
    exact ⟨hv.bringIn (hentering.trans_le structuralCount_le) hnew hrow, hallowed⟩

end Loops

end SimplexMethod
