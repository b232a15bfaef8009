import Mathlib.Tactic
import SimplexMethod.Proofs.TwoPhase.Descent

/-!
# Expelling artificial variables

Expelling the artificial variables that are basic in some rows never fails, whatever the scalars are
(`exists_expel?`), and what every replacement keeps is kept on the whole (`expel?_keeps`). When it
is not cut short by the pivot limit, it leaves artificial variables in the listed rows only, and it
changes the basis in the given rows only (`cleared_of_expel?`). When all rows are given, the listed
ones are thus those in which an artificial variable is left (`Cleared.redundant_eq`). What happens at
one row is `expel?_cons`, from which everything about expelling follows by induction on the rows.
-/

set_option autoImplicit false

namespace SimplexMethod

variable {F : Type}

open Tableau

/-- At one row: unless a structural variable is basic in it, a replacement is brought in, or the row
is listed. -/
theorem expel?_cons [Scalar F] {options : Options F} {row : Nat} {rows : List Nat} {w : Walk F}
    (hw : w.tableau.WellFormed) (hrow : row < w.tableau.rowCount) :
    expel? options (row :: rows) w =
      if w.tableau.IsArtificial (w.tableau.basic row) then
        match w.tableau.replacement row options.tolerance with
        | some entering =>
          if w.pivotCount < options.pivotLimit then expel? options rows (w.pivot entering row)
          else some (w, none)
        | none => (expel? options rows w).map fun result => (result.1, result.2.map (row :: ·))
      else expel? options rows w := by
  rw [expel?, basic?_eq hrow]
  simp only [Option.bind_eq_bind, Option.bind_some]
  split
  · rw [hw.replacement?_eq hrow]
    simp only [Option.bind_some]
    cases hchoice : w.tableau.replacement row options.tolerance with
    | some entering =>
      have hlt := (hw.replacement_bounds hchoice).1.trans_le structuralCount_le
      simp only [Walk.pivot?_eq hw hlt hrow, Option.bind_some]
      rfl
    | none => cases expel? options rows w <;> rfl
  · rfl

/-- What every replacement keeps of a walk holds after expelling, also when that is cut short. The
induction is on the rows. -/
theorem expel?_keeps [Scalar F] {options : Options F} {Q : Walk F → Prop}
    (hwell : ∀ {w : Walk F}, Q w → w.tableau.WellFormed)
    (hkeep : ∀ {w : Walk F} {row entering : Nat}, Q w → row < w.tableau.rowCount →
      w.tableau.IsArtificial (w.tableau.basic row) →
      w.tableau.replacement row options.tolerance = some entering →
      w.pivotCount < options.pivotLimit → Q (w.pivot entering row))
    {rows : List Nat} {w w' : Walk F} {result : Option (List Nat)} (hw : Q w)
    (hrows : ∀ row ∈ rows, row < w.tableau.rowCount)
    (h : expel? options rows w = some (w', result)) : Q w' := by
  induction rows generalizing w result with
  | nil =>
    rw [expel?] at h
    cases Option.some.inj h
    exact hw
  | cons row rows ih =>
    obtain ⟨hrow, hrest⟩ := List.forall_mem_cons.1 hrows
    rw [expel?_cons (hwell hw) hrow] at h
    split at h
    · next hart =>
      cases hchoice : w.tableau.replacement row options.tolerance with
      | some entering =>
        rw [hchoice] at h
        dsimp only at h
        split at h
        · next hallowed =>
          exact ih (hkeep hw hrow hart hchoice hallowed)
            (by rwa [Walk.tableau_pivot, bringIn_rowCount]) h
        · cases Option.some.inj h
          exact hw
      | none =>
        rw [hchoice] at h
        obtain ⟨⟨next, collected⟩, hnext, h⟩ := Option.map_eq_some_iff.1 h
        obtain ⟨rfl, -⟩ := Prod.ext_iff.1 h
        exact ih hw hrest hnext
    · exact ih hw hrest h

/-- The rows in which an artificial variable is basic, when the basic variables and the number of
variables that are not artificial are given. -/
def artificialPlaces (structuralCount : Nat) (basis : List Nat) : List Nat :=
  (List.range basis.length).filter fun i => structuralCount ≤ basis.getD i 0

theorem Tableau.mem_artificialPlaces_iff {t : Tableau F} {i : Nat} :
    i ∈ artificialPlaces t.structuralCount t.basis ↔
      i < t.rowCount ∧ t.IsArtificial (t.basic i) := by
  rw [artificialPlaces, List.mem_filter, List.mem_range, decide_eq_true_eq]
  rfl

theorem sorted_artificialPlaces {structuralCount : Nat} {basis : List Nat} :
    (artificialPlaces structuralCount basis).Pairwise (· < ·) :=
  List.pairwise_lt_range.sublist List.filter_sublist

/-- What expelling the artificial variables in the given rows makes of the basis. -/
structure Tableau.Cleared (rows : List Nat) (t t' : Tableau F) (redundant : List Nat) : Prop where
  shaped : t'.Shaped t.rowCount t.columnCount t.artificials
  sublist : redundant.Sublist rows
  structural : ∀ i ∈ rows, i ∉ redundant → t'.basic i < t'.structuralCount
  artificial : ∀ i ∈ redundant, t'.IsArtificial (t'.basic i)
  basic_keep : ∀ i ∉ rows, t'.basic i = t.basic i

namespace Tableau.Cleared

variable {rows redundant : List Nat} {t t' : Tableau F} {row entering : Nat}

theorem nil (h : t.WellFormed) : Cleared [] t t [] :=
  ⟨h.shaped, List.Sublist.refl _, fun _ hi => absurd hi List.not_mem_nil,
    fun _ hi => absurd hi List.not_mem_nil, fun _ _ => rfl⟩

theorem structuralCount_eq (h : Cleared rows t t' redundant) :
    t'.structuralCount = t.structuralCount := h.shaped.structuralCount_eq

/-- A row in which a structural variable is basic is passed over. -/
theorem kept (h : Cleared rows t t' redundant) (hnotMem : row ∉ rows)
    (hstructural : t.basic row < t.structuralCount) : Cleared (row :: rows) t t' redundant where
  shaped := h.shaped
  sublist := h.sublist.cons _
  structural := by
    intro i hi hnot
    rcases List.mem_cons.1 hi with rfl | hi
    · rw [h.basic_keep i hnotMem, h.structuralCount_eq]
      exact hstructural
    · exact h.structural i hi hnot
  artificial := h.artificial
  basic_keep := fun i hi => h.basic_keep i (List.not_mem_of_not_mem_cons hi)

/-- An artificial row without a replacement is listed, and it stays as it is while the other rows are
done. -/
theorem listed (h : Cleared rows t t' redundant) (hnotMem : row ∉ rows)
    (hart : t.IsArtificial (t.basic row)) :
    Cleared (row :: rows) t t' (row :: redundant) where
  shaped := h.shaped
  sublist := h.sublist.cons_cons _
  structural := by
    intro i hi hnot
    obtain ⟨hne, hnot⟩ := List.ne_and_not_mem_of_not_mem_cons hnot
    exact h.structural i ((List.mem_cons.1 hi).resolve_left hne) hnot
  artificial := by
    refine List.forall_mem_cons.2 ⟨?_, h.artificial⟩
    rw [IsArtificial, h.basic_keep row hnotMem, h.structuralCount_eq]
    exact hart
  basic_keep := fun i hi => h.basic_keep i (List.not_mem_of_not_mem_cons hi)

/-- A row in which a replacement was brought in keeps it while the other rows are done. -/
theorem replaced [Scalar F] (h : Cleared rows (t.bringIn entering row) t' redundant)
    (hnotMem : row ∉ rows) (hrow : row < t.rowCount) (hentering : entering < t.structuralCount) :
    Cleared (row :: rows) t t' redundant where
  shaped := bringIn_rowCount (t := t) ▸ h.shaped
  sublist := h.sublist.cons _
  structural := by
    intro i hi hnot
    rcases List.mem_cons.1 hi with rfl | hi
    · -- Later pivots are made at other rows.
      rw [h.basic_keep i hnotMem, basic_bringIn_self hrow, h.structuralCount_eq]
      exact hentering
    · exact h.structural i hi hnot
  artificial := h.artificial
  basic_keep := by
    intro i hi
    obtain ⟨hne', hi⟩ := List.ne_and_not_mem_of_not_mem_cons hi
    rw [h.basic_keep i hi, basic_bringIn_of_ne hne']

/-- Once all rows are done, structural variables are basic outside of the listed rows. -/
theorem structural_of_range (h : Cleared (List.range t.rowCount) t t' redundant) {i : Nat}
    (hi : i < t'.rowCount) (hnot : i ∉ redundant) : t'.basic i < t'.structuralCount :=
  h.structural i (List.mem_range.2 (h.shaped.rowCount_eq ▸ hi)) hnot

theorem sorted (h : Cleared (List.range t.rowCount) t t' redundant) :
    redundant.Pairwise (· < ·) :=
  List.pairwise_lt_range.sublist h.sublist

/-- Once all rows are done, those that are listed are those in which an artificial variable is
left. -/
theorem redundant_eq (h : Cleared (List.range t.rowCount) t t' redundant) :
    redundant = artificialPlaces t'.structuralCount t'.basis := by
  refine h.sorted.eq_of_mem_iff sorted_artificialPlaces fun i => ?_
  rw [mem_artificialPlaces_iff]
  constructor
  · intro hi
    have hlt := List.mem_range.1 (h.sublist.subset hi)
    exact ⟨h.shaped.rowCount_eq ▸ hlt, h.artificial i hi⟩
  · rintro ⟨hi, hart⟩
    by_contra hnot
    exact not_isArtificial_iff.2 (h.structural_of_range hi hnot) hart

end Tableau.Cleared

section Expel

variable [Scalar F] {options : Options F} {rows : List Nat} {w w' : Walk F}

/-- Expelling from a well-formed tableau never fails. -/
theorem exists_expel? (options : Options F) (hw : w.tableau.WellFormed)
    (hrows : ∀ row ∈ rows, row < w.tableau.rowCount) :
    ∃ w' redundant, expel? options rows w = some (w', redundant) := by
  induction rows generalizing w with
  | nil => exact ⟨w, some [], rfl⟩
  | cons row rows ih =>
    obtain ⟨hrow, hrest⟩ := List.forall_mem_cons.1 hrows
    -- The other rows are done from here unless a replacement is brought in.
    obtain ⟨next, redundant, hnext⟩ := ih hw hrest
    rw [expel?_cons hw hrow]
    split
    · cases hchoice : w.tableau.replacement row options.tolerance with
      | some entering =>
        dsimp only
        split
        · obtain ⟨hlt, hnew, -⟩ := hw.replacement_bounds hchoice
          exact ih (hw.bringIn (hlt.trans_le structuralCount_le) hnew hrow)
            (by rwa [Walk.tableau_pivot, bringIn_rowCount])
        · -- The pivot limit is reached.
          exact ⟨w, none, rfl⟩
      | none =>
        dsimp only
        rw [hnext]
        exact ⟨_, _, rfl⟩
    · exact ⟨_, _, hnext⟩

/-- Expelling clears the rows. A row that is done stays as it is, because later pivots are made at
other rows. -/
theorem cleared_of_expel? (hw : w.tableau.WellFormed)
    (hrows : ∀ row ∈ rows, row < w.tableau.rowCount) (hnodup : rows.Nodup) {redundant : List Nat}
    (h : expel? options rows w = some (w', some redundant)) :
    Cleared rows w.tableau w'.tableau redundant := by
  induction rows generalizing w redundant with
  | nil =>
    rw [expel?] at h
    cases Option.some.inj h
    exact Cleared.nil hw
  | cons row rows ih =>
    obtain ⟨hnotMem, hnodup⟩ := List.nodup_cons.1 hnodup
    obtain ⟨hrow, hrest⟩ := List.forall_mem_cons.1 hrows
    rw [expel?_cons hw hrow] at h
    split at h
    · next hart =>
      cases hchoice : w.tableau.replacement row options.tolerance with
      | some entering =>
        rw [hchoice] at h
        dsimp only at h
        split at h
        · obtain ⟨hlt, hnew, -⟩ := hw.replacement_bounds hchoice
          -- The other rows are done from the tableau with the replacement.
          have hnext : (w.pivot entering row).tableau.WellFormed :=
            hw.bringIn (hlt.trans_le structuralCount_le) hnew hrow
          have hlater := ih hnext (by rwa [Walk.tableau_pivot, bringIn_rowCount]) hnodup h
          exact hlater.replaced hnotMem hrow hlt
        · -- At the pivot limit there is no list of redundant rows.
          cases Option.some.inj h
      | none =>
        -- The row is put before the redundant ones among the other rows.
        rw [hchoice] at h
        obtain ⟨⟨next, collected⟩, hnext, h⟩ := Option.map_eq_some_iff.1 h
        obtain ⟨rfl, hcollected⟩ := Prod.ext_iff.1 h
        obtain ⟨later, rfl, rfl⟩ := Option.map_eq_some_iff.1 hcollected
        exact (ih hw hrest hnodup hnext).listed hnotMem hart
    · next hart => exact (ih hw hrest hnodup h).kept hnotMem (not_isArtificial_iff.1 hart)

end Expel

end SimplexMethod
