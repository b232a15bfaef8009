import Mathlib.Tactic
import SimplexMethod.Proofs.Tableau.Moves

/-!
# Descents

A descent from a well-formed tableau never fails, whatever the scalars are (`exists_descend?`). A
property of tableaus that every pivot of a descent keeps holds of all tableaus the descent passes
through (`descend?_all`); what a descent ends with is the move at its last tableau
(`move?_of_descend?`), and a descent depends on the tolerance only as far as its moves do
(`descend?_congr`). Over the rationals, what a tableau states is such a property
(`Presents.move`), and with tolerance zero so are the signs of its values (`Canonical.move`).
-/

set_option autoImplicit false

namespace SimplexMethod

variable {F : Type}

open Tableau

namespace Walk

/-- A property of all tableaus on a walk. -/
def All (P : Tableau F → Prop) (w : Walk F) : Prop := P w.start ∧ ∀ step ∈ w.steps, P step.tableau

variable {P : Tableau F → Prop} {w w' : Walk F}

theorem All.tableau (h : w.All P) : P w.tableau := by
  obtain ⟨hstart, hsteps⟩ := h
  rw [Walk.tableau]
  cases hw : w.steps with
  | nil => exact hstart
  | cons latest rest => exact hsteps latest (by rw [hw]; exact List.mem_cons_self)

theorem all_startingAt {t : Tableau F} (h : P t) : (startingAt t).All P :=
  ⟨h, fun _ hstep => absurd hstep List.not_mem_nil⟩

theorem All.step (hw : w.All P) {step : Step F} (hstep : P step.tableau) :
    Walk.All P { w with steps := step :: w.steps } :=
  ⟨hw.1, List.forall_mem_cons.2 ⟨hstep, hw.2⟩⟩

theorem All.imp {Q : Tableau F → Prop} (hw : w.All P) (h : ∀ {t : Tableau F}, P t → Q t) :
    w.All Q :=
  ⟨h hw.1, fun step hstep => h (hw.2 step hstep)⟩

theorem pivot?_eq_some [Scalar F] {entering row : Nat} (h : w.pivot? entering row = some w') :
    ∃ leaving t', w.tableau.bringIn? entering row = some (leaving, t') ∧
      w' = { w with steps := ⟨⟨entering, leaving, row⟩, t'⟩ :: w.steps } := by
  rw [pivot?] at h
  obtain ⟨⟨leaving, t'⟩, hbring, hrest⟩ := Option.bind_eq_some_iff.1 h
  exact ⟨leaving, t', hbring, (Option.some.inj hrest).symm⟩

theorem tableau_of_pivot? [Scalar F] {entering row : Nat} (h : w.pivot? entering row = some w') :
    ∃ leaving, w.tableau.bringIn? entering row = some (leaving, w'.tableau) := by
  obtain ⟨leaving, t', hbring, rfl⟩ := pivot?_eq_some h
  exact ⟨leaving, hbring⟩

/-- The walk with one more pivot; the value of `pivot?` at a column and a constraint row. -/
def pivot [Scalar F] (w : Walk F) (entering row : Nat) : Walk F :=
  { w with
    steps := ⟨⟨entering, w.tableau.basic row, row⟩, w.tableau.bringIn entering row⟩ :: w.steps }

@[simp]
theorem tableau_pivot [Scalar F] {entering row : Nat} :
    (w.pivot entering row).tableau = w.tableau.bringIn entering row := rfl

theorem pivot?_eq [Scalar F] {entering row : Nat} (hwell : w.tableau.WellFormed)
    (hentering : entering < w.tableau.columnCount) (hrow : row < w.tableau.rowCount) :
    w.pivot? entering row = some (w.pivot entering row) := by
  rw [pivot?, hwell.bringIn?_eq hentering hrow]
  rfl

theorem All.pivot? [Scalar F] {entering row : Nat} (hw : w.All P)
    (h : w.pivot? entering row = some w') (hnext : P w'.tableau) : w'.All P := by
  obtain ⟨leaving, t', -, rfl⟩ := pivot?_eq_some h
  exact hw.step hnext

end Walk

/-! ## Invariants of descents -/

/-- The pivots of a descent keep the shape of a tableau. -/
theorem Tableau.Shaped.move [Scalar F] {t t' : Tableau F} {rows columns artificials : Nat}
    {rule : PivotRule} {tolerance : F} {entering row leaving : Nat}
    (h : t.Shaped rows columns artificials)
    (hmove : t.move? rule tolerance = some (.pivot entering row))
    (hbring : t.bringIn? entering row = some (leaving, t')) :
    t'.Shaped rows columns artificials := by
  rw [h.wellFormed.move?_eq, Option.some.injEq] at hmove
  obtain ⟨hentering, hnew, hrow⟩ := h.wellFormed.pivot_bounds hmove
  rw [h.wellFormed.bringIn?_eq (hentering.trans_le structuralCount_le) hrow] at hbring
  cases Option.some.inj hbring
  exact h.bringIn hentering hnew hrow

section Descend

variable [Scalar F] {rule : PivotRule} {tolerance : F} {allowed : Nat} {w w' : Walk F}
  {ending : Descent F}

/-- The move at a tableau at which a descent ends. -/
def Descent.IsMove (ending : Descent F) (move : Move F) : Prop :=
  match ending with
  | optimal => move = .stay
  | unbounded entering column => move = .fall entering column
  | limit => ∃ entering row, move = .pivot entering row

/-- A descent ends at a tableau whose move explains the ending. -/
theorem move?_of_descend? (h : descend? rule tolerance allowed w = some (w', ending)) :
    ∃ move, w'.tableau.move? rule tolerance = some move ∧ ending.IsMove move := by
  induction allowed generalizing w with
  | zero =>
    rw [descend?] at h
    obtain ⟨move, hmove, hrest⟩ := Option.bind_eq_some_iff.1 h
    cases move with
    | stay =>
      cases Option.some.inj hrest
      exact ⟨_, hmove, rfl⟩
    | fall entering column =>
      cases Option.some.inj hrest
      exact ⟨_, hmove, rfl⟩
    -- No pivot is left, and this one is due.
    | pivot entering row =>
      cases Option.some.inj hrest
      exact ⟨_, hmove, entering, row, rfl⟩
  | succ allowed ih =>
    rw [descend?] at h
    obtain ⟨move, hmove, hrest⟩ := Option.bind_eq_some_iff.1 h
    cases move with
    | stay =>
      cases Option.some.inj hrest
      exact ⟨_, hmove, rfl⟩
    | fall entering column =>
      cases Option.some.inj hrest
      exact ⟨_, hmove, rfl⟩
    | pivot entering row =>
      obtain ⟨next, -, hrest⟩ := Option.bind_eq_some_iff.1 hrest
      exact ih hrest

/-- What every pivot of a descent keeps of a walk holds at its end. -/
theorem descend?_keeps {Q : Walk F → Prop}
    (hkeep : ∀ {w w' : Walk F} {entering row : Nat}, Q w →
      w.tableau.move? rule tolerance = some (.pivot entering row) →
      w.pivot? entering row = some w' → Q w')
    (hw : Q w) (h : descend? rule tolerance allowed w = some (w', ending)) : Q w' := by
  induction allowed generalizing w with
  | zero =>
    rw [descend?] at h
    obtain ⟨move, -, hrest⟩ := Option.bind_eq_some_iff.1 h
    cases move <;> cases Option.some.inj hrest <;> exact hw
  | succ allowed ih =>
    rw [descend?] at h
    obtain ⟨move, hmove, hrest⟩ := Option.bind_eq_some_iff.1 h
    cases move with
    | stay =>
      cases Option.some.inj hrest
      exact hw
    | fall entering column =>
      cases Option.some.inj hrest
      exact hw
    | pivot entering row =>
      obtain ⟨next, hpivot, hrest⟩ := Option.bind_eq_some_iff.1 hrest
      exact ih (hkeep hw hmove hpivot) hrest

/-- What every pivot of a descent keeps of a tableau holds on the whole walk. -/
theorem descend?_all {P : Tableau F → Prop}
    (hkeep : ∀ {t t' : Tableau F} {entering row leaving : Nat}, P t →
      t.move? rule tolerance = some (.pivot entering row) →
      t.bringIn? entering row = some (leaving, t') → P t')
    (hw : w.All P) (h : descend? rule tolerance allowed w = some (w', ending)) : w'.All P := by
  refine descend?_keeps (fun hw hmove hpivot => ?_) hw h
  obtain ⟨leaving, hbring⟩ := Walk.tableau_of_pivot? hpivot
  exact hw.pivot? hpivot (hkeep hw.tableau hmove hbring)

/-- Descents with two tolerances are the same when all moves on the way are. -/
theorem descend?_congr {P : Tableau F → Prop} {other : F}
    (hkeep : ∀ {t t' : Tableau F} {entering row leaving : Nat}, P t →
      t.move? rule tolerance = some (.pivot entering row) →
      t.bringIn? entering row = some (leaving, t') → P t')
    (hsame : ∀ t, P t → t.move? rule tolerance = t.move? rule other) (hw : P w.tableau) :
    descend? rule tolerance allowed w = descend? rule other allowed w := by
  induction allowed generalizing w with
  | zero => rw [descend?, descend?, hsame _ hw]
  | succ allowed ih =>
    rw [descend?, descend?, ← hsame _ hw]
    refine Option.bind_congr fun move hmove => ?_
    cases move with
    | stay => rfl
    | fall entering column => rfl
    | pivot entering row =>
      refine Option.bind_congr fun next hpivot => ?_
      obtain ⟨leaving, hbring⟩ := Walk.tableau_of_pivot? hpivot
      exact ih (hkeep hw hmove hbring)

/-- A descent from a well-formed tableau never fails. -/
theorem exists_descend? (rule : PivotRule) (tolerance : F) (allowed : Nat)
    (hw : w.tableau.WellFormed) :
    ∃ w' ending, descend? rule tolerance allowed w = some (w', ending) := by
  induction allowed generalizing w with
  | zero =>
    rw [descend?, hw.move?_eq]
    cases w.tableau.move rule tolerance <;> exact ⟨_, _, rfl⟩
  | succ allowed ih =>
    rw [descend?, hw.move?_eq]
    cases hmove : w.tableau.move rule tolerance with
    | stay => exact ⟨_, _, rfl⟩
    | fall entering column => exact ⟨_, _, rfl⟩
    | pivot entering row =>
      obtain ⟨hentering, hnew, hrow⟩ := hw.pivot_bounds hmove
      have hlt := hentering.trans_le structuralCount_le
      simp only [Option.bind_eq_bind, Option.bind_some, Walk.pivot?_eq hw hlt hrow]
      exact ih (hw.bringIn hlt hnew hrow)

/-- A descent keeps tableaus well formed and their sizes as they are. -/
theorem shaped_of_descend? {rows columns artificials : Nat}
    (hw : w.All (·.Shaped rows columns artificials))
    (h : descend? rule tolerance allowed w = some (w', ending)) :
    w'.All (·.Shaped rows columns artificials) :=
  descend?_all (fun ht hmove hbring => ht.move hmove hbring) hw h

end Descend

/-! ## Exact descents -/

/-- The tableau states a program with respect to a basis, feasible or not, and has the given numbers
of columns and of artificial variables. -/
structure Tableau.Presents (t : Tableau ℚ) (W : Submodule ℚ (ℕ → ℚ)) (cost : ℕ → ℚ)
    (columns artificials : Nat) : Prop where
  states : t.States W cost
  columnCount_eq : t.columnCount = columns
  artificials_eq : t.artificials = artificials

namespace Tableau.Presents

variable {t t' : Tableau ℚ} {W : Submodule ℚ (ℕ → ℚ)} {cost : ℕ → ℚ}
  {columns artificials entering row leaving : Nat} {rule : PivotRule} {tolerance : ℚ}

theorem wellFormed (h : t.Presents W cost columns artificials) : t.WellFormed :=
  h.states.wellFormed

theorem structuralCount_eq (h : t.Presents W cost columns artificials) :
    t.structuralCount = columns - artificials := by
  rw [structuralCount, h.columnCount_eq, h.artificials_eq]

/-- Bringing a structural column into the basis at a nonzero entry keeps the relation. -/
theorem bringIn (h : t.Presents W cost columns artificials)
    (hentering : entering < t.structuralCount) (hnew : entering ∉ t.basis)
    (hrow : row < t.rowCount) (hne : t.entry row entering ≠ 0) :
    (t.bringIn entering row).Presents W cost columns artificials :=
  ⟨h.states.bringIn hentering hnew hrow hne, h.columnCount_eq, h.artificials_eq⟩

/-- The pivots of a descent keep the relation: whatever the tolerance is, they are made at positive
entries. -/
theorem move (h : t.Presents W cost columns artificials) (htolerance : 0 ≤ tolerance)
    (hmove : t.move? rule tolerance = some (.pivot entering row))
    (hbring : t.bringIn? entering row = some (leaving, t')) :
    t'.Presents W cost columns artificials := by
  obtain ⟨hprofitable, hrow, hpos⟩ := h.wellFormed.entry_pos_of_pivot htolerance hmove
  have hlt := hprofitable.structural.trans_le structuralCount_le
  rw [h.wellFormed.bringIn?_eq hlt hrow] at hbring
  cases Option.some.inj hbring
  exact h.bringIn hprofitable.structural hprofitable.notMem hrow hpos.ne'

end Tableau.Presents

/-- The tableau states a program with respect to a feasible basis, and has the given numbers of
columns and of artificial variables. -/
structure Tableau.Canonical (t : Tableau ℚ) (W : Submodule ℚ (ℕ → ℚ)) (cost : ℕ → ℚ)
    (columns artificials : Nat) : Prop where
  states : t.States W cost
  nonneg : t.ValuesNonneg
  columnCount_eq : t.columnCount = columns
  artificials_eq : t.artificials = artificials

namespace Tableau.Canonical

variable {t t' : Tableau ℚ} {W : Submodule ℚ (ℕ → ℚ)} {cost : ℕ → ℚ}
  {columns artificials entering row leaving : Nat} {rule : PivotRule}

theorem presents (h : t.Canonical W cost columns artificials) :
    t.Presents W cost columns artificials :=
  ⟨h.states, h.columnCount_eq, h.artificials_eq⟩

theorem structuralCount_eq (h : t.Canonical W cost columns artificials) :
    t.structuralCount = columns - artificials := h.presents.structuralCount_eq

/-- The pivots of a descent with tolerance zero keep the relation. -/
theorem move (h : t.Canonical W cost columns artificials)
    (hmove : t.move? rule 0 = some (.pivot entering row))
    (hbring : t.bringIn? entering row = some (leaving, t')) :
    t'.Canonical W cost columns artificials := by
  obtain ⟨hstates, hcolumns, hartificials⟩ := h.presents.move le_rfl hmove hbring
  obtain ⟨hprofitable, hleast⟩ := h.states.wellFormed.leastRatio_of_pivot hmove
  have hlt := hprofitable.structural.trans_le structuralCount_le
  rw [h.states.wellFormed.bringIn?_eq hlt hleast.row_lt] at hbring
  cases Option.some.inj hbring
  exact ⟨hstates, h.nonneg.bringIn h.states.wellFormed hleast, hcolumns, hartificials⟩

end Tableau.Canonical

end SimplexMethod
