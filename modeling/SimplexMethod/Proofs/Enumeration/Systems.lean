import Mathlib.Tactic
import SimplexMethod.Enumeration.Solve
import SimplexMethod.Proofs.Problem.Feasible
import SimplexMethod.Proofs.RowMatrix.Independence

/-!
# Systems of equations and inequalities

A system asks for the nonnegative vectors that satisfy its equations. Two systems in the same number
of variables whose equations imply each other have the same solutions (`Equivalent.feasible_iff`)
and the same directions (`Equivalent.recedes_iff`). With tolerance zero, leaving out the rows that
depend on earlier ones never fails: it finds the equations contradictory, or gives an equivalent
system whose rows are as many as the rank says (`independent?_cases`).
-/

set_option autoImplicit false

namespace SimplexMethod

namespace System

/-! ## Sizes -/

section Sizes

variable {F : Type} {s : System F}

/-- The rows are as long as the matrix says, and there is a right-hand side for each. -/
structure WellFormed (s : System F) : Prop where
  rectangular : s.matrix.Rectangular
  rhs_length : s.rhs.length = s.matrix.rowCount

variable [Scalar F]

/-- The rows at some positions with their right-hand sides. -/
def kept (s : System F) (positions : List ℕ) : System F :=
  ⟨{ s.matrix with rows := positions.map fun i => s.matrix.rows.getD i [] },
    positions.map (coeff s.rhs)⟩

theorem mem_rows_of_kept {positions : List ℕ} (hlt : ∀ i ∈ positions, i < s.matrix.rowCount)
    {row : List F} (hrow : row ∈ (s.kept positions).matrix.rows) : row ∈ s.matrix.rows := by
  obtain ⟨i, hi, rfl⟩ := List.mem_map.1 hrow
  exact List.mem_of_getElem? (RowMatrix.rows_getElem?_eq (hlt i hi))

theorem WellFormed.kept {positions : List ℕ} (h : s.WellFormed)
    (hlt : ∀ i ∈ positions, i < s.matrix.rowCount) : (s.kept positions).WellFormed where
  rectangular := fun row hrow => h.rectangular row (mem_rows_of_kept hlt hrow)
  rhs_length := by
    rw [System.kept, RowMatrix.rowCount, List.length_map, List.length_map]

theorem selectRows?_kept {positions : List ℕ} (hlt : ∀ i ∈ positions, i < s.matrix.rowCount) :
    s.matrix.selectRows? positions = some (s.kept positions).matrix := by
  rw [RowMatrix.selectRows?, mapM_eq_some_map fun i hi => RowMatrix.rows_getElem?_eq (hlt i hi)]
  rfl

theorem WellFormed.mapM_rhs_kept {positions : List ℕ} (h : s.WellFormed)
    (hlt : ∀ i ∈ positions, i < s.matrix.rowCount) :
    (positions.mapM fun i => s.rhs[i]?) = some (s.kept positions).rhs :=
  mapM_eq_some_map fun i hi => getElem?_eq_coeff (h.rhs_length ▸ hlt i hi)

/-- Leaving out dependent rows keeps the rows at the positions that are selected. -/
theorem WellFormed.independent?_eq {options : EnumerationOptions F} {positions : List ℕ}
    (h : s.WellFormed) (hlt : ∀ i ∈ positions, i < s.matrix.rowCount)
    (hrows : s.matrix.independentRows? s.rhs options.tolerance = some (some positions)) :
    s.independent? options = some (some (s.kept positions)) := by
  rw [independent?, hrows]
  simp only [Option.bind_eq_bind, Option.bind_some, selectRows?_kept hlt, h.mapM_rhs_kept hlt]
  rfl

end Sizes

/-! ## Meanings -/

variable {s t : System ℚ} {x d : List ℚ}

/-- No row depends on the others. -/
structure Regular (s : System ℚ) : Prop extends s.WellFormed where
  rank_eq : s.matrix.toMatrix.rank = s.matrix.rowCount

theorem Regular.linearIndependent (h : s.Regular) :
    LinearIndependent ℚ s.matrix.toMatrix.row := by
  rw [linearIndependent_iff_card_eq_finrank_span, Fintype.card_fin, Set.finrank,
    ← Matrix.rank_eq_finrank_span_row, h.rank_eq]

/-- A value for each variable, none of them negative, that satisfies all equations. -/
structure Feasible (s : System ℚ) (x : List ℚ) : Prop where
  length_eq : x.length = s.matrix.columns
  nonneg : ∀ j, 0 ≤ coeff x j
  mulVector_eq : s.matrix.mulVector x = s.rhs

/-- A rate for each variable, none of them negative, at which no left-hand side changes. -/
structure Recedes (s : System ℚ) (d : List ℚ) : Prop where
  length_eq : d.length = s.matrix.columns
  nonneg : ∀ j, 0 ≤ coeff d j
  dot_eq_zero : ∀ row ∈ s.matrix.rows, Scalar.dot row d = 0

/-- The equations that follow from those of the system. -/
def equations (s : System ℚ) : Submodule ℚ (ℕ → ℚ) := rowSpan (s.matrix.augmented s.rhs)

/-! ## Systems with the same equations -/

theorem WellFormed.mulVector_eq_iff (h : s.WellFormed) (hx : x.length = s.matrix.columns) :
    s.matrix.mulVector x = s.rhs ↔ ∀ v ∈ s.equations, gap s.matrix.columns (coeff x) v = 0 :=
  (h.rectangular.gap_eq_zero_iff h.rhs_length hx).symm

theorem WellFormed.dot_eq_zero_iff (h : s.WellFormed) (hd : d.length = s.matrix.columns) :
    (∀ row ∈ s.matrix.rows, Scalar.dot row d = 0) ↔
      ∀ v ∈ s.equations, leftSide s.matrix.columns (coeff d) v = 0 :=
  (h.rectangular.leftSide_eq_zero_iff h.rhs_length hd).symm

/-- The equations of the systems, in the same variables, imply each other. -/
structure Equivalent (s t : System ℚ) : Prop where
  wellFormed : s.WellFormed
  wellFormed' : t.WellFormed
  columns_eq : s.matrix.columns = t.matrix.columns
  equations_eq : s.equations = t.equations

namespace Equivalent

theorem symm (h : s.Equivalent t) : t.Equivalent s :=
  ⟨h.wellFormed', h.wellFormed, h.columns_eq.symm, h.equations_eq.symm⟩

theorem mulVector_eq_iff (h : s.Equivalent t) (hx : x.length = s.matrix.columns) :
    s.matrix.mulVector x = s.rhs ↔ t.matrix.mulVector x = t.rhs := by
  rw [h.wellFormed.mulVector_eq_iff hx, h.wellFormed'.mulVector_eq_iff (hx.trans h.columns_eq),
    h.equations_eq, h.columns_eq]

theorem feasible (h : s.Equivalent t) (hx : s.Feasible x) : t.Feasible x :=
  ⟨hx.length_eq.trans h.columns_eq, hx.nonneg,
    (h.mulVector_eq_iff hx.length_eq).1 hx.mulVector_eq⟩

theorem feasible_iff (h : s.Equivalent t) : s.Feasible x ↔ t.Feasible x :=
  ⟨h.feasible, h.symm.feasible⟩

theorem recedes (h : s.Equivalent t) (hd : s.Recedes d) : t.Recedes d := by
  have hlen := hd.length_eq.trans h.columns_eq
  refine ⟨hlen, hd.nonneg, (h.wellFormed'.dot_eq_zero_iff hlen).2 ?_⟩
  rw [← h.equations_eq, ← h.columns_eq]
  exact (h.wellFormed.dot_eq_zero_iff hd.length_eq).1 hd.dot_eq_zero

theorem recedes_iff (h : s.Equivalent t) : s.Recedes d ↔ t.Recedes d :=
  ⟨h.recedes, h.symm.recedes⟩

end Equivalent

/-! ## Independent rows -/

theorem WellFormed.augmented_kept {positions : List ℕ} (h : s.WellFormed)
    (hlt : ∀ i ∈ positions, i < s.matrix.rowCount) :
    (s.kept positions).matrix.augmented (s.kept positions).rhs =
      positions.map fun i => (s.matrix.augmented s.rhs).getD i [] := by
  rw [System.kept, RowMatrix.augmented, List.zipWith_map_left, List.zipWith_map_right,
    List.zipWith_self]
  apply List.map_congr_left
  intro i hi
  rw [List.getD_eq_getElem?_getD (l := s.matrix.augmented s.rhs),
    RowMatrix.augmented_getElem? h.rhs_length (hlt i hi), Option.getD_some]

/-- As many rows as the rank says that imply all others make up an equivalent system without
dependent rows. -/
theorem WellFormed.regular_kept {positions : List ℕ} (h : s.WellFormed)
    (hlt : ∀ i ∈ positions, i < s.matrix.rowCount)
    (hrank : positions.length = s.matrix.toMatrix.rank)
    (hspan : rowSpan (positions.map fun i => (s.matrix.augmented s.rhs).getD i []) =
      rowSpan (s.matrix.augmented s.rhs)) :
    (s.kept positions).Regular ∧ s.Equivalent (s.kept positions) := by
  have hkept := h.kept hlt
  have hequations : (s.kept positions).equations = s.equations := by
    rw [equations, h.augmented_kept hlt, hspan]
    rfl
  have hcount : (s.kept positions).matrix.rowCount = s.matrix.toMatrix.rank :=
    (List.length_map _).trans hrank
  refine ⟨⟨hkept, ?_⟩, h, hkept, rfl, hequations.symm⟩
  -- Both ranks are the dimension of what the same equations say about the variables.
  have hrestrict := congrArg (fun W : Submodule ℚ (ℕ → ℚ) =>
    Module.finrank ℚ (W.map (RowMatrix.restrict s.matrix.columns))) hequations
  exact (hkept.rectangular.rank_toMatrix hkept.rhs_length).trans
    (hrestrict.trans ((h.rectangular.rank_toMatrix h.rhs_length).symm.trans hcount.symm))

/-- Leaving out dependent rows finds the equations contradictory, or gives an equivalent system
without dependent rows. -/
theorem independent?_cases {options : EnumerationOptions ℚ} (h : s.WellFormed)
    (htolerance : options.tolerance = 0) :
    (s.independent? options = some none ∧ ∀ x, ¬ s.Feasible x) ∨
      ∃ t, s.independent? options = some (some t) ∧ t.Regular ∧ s.Equivalent t ∧
        t.matrix.rowCount = s.matrix.toMatrix.rank := by
  rcases RowMatrix.independentRows?_cases h.rectangular h.rhs_length with
    ⟨hrows, hinconsistent⟩ | ⟨positions, hrows, -, hlt, hrank, hspan⟩
  · refine Or.inl ⟨?_, fun x hx =>
      hinconsistent.mulVector_ne h.rectangular h.rhs_length hx.length_eq hx.mulVector_eq⟩
    rw [independent?, htolerance, hrows]
    rfl
  · obtain ⟨hregular, hequivalent⟩ := h.regular_kept hlt hrank hspan
    exact Or.inr ⟨s.kept positions, h.independent?_eq hlt (htolerance ▸ hrows), hregular,
      hequivalent, (List.length_map _).trans hrank⟩

/-- What is left after leaving out dependent rows are rows of the system. -/
theorem exists_eq_kept {options : EnumerationOptions ℚ} (h : s.WellFormed)
    (htolerance : options.tolerance = 0) (ht : s.independent? options = some (some t)) :
    ∃ positions, (∀ i ∈ positions, i < s.matrix.rowCount) ∧ t = s.kept positions := by
  rcases RowMatrix.independentRows?_cases h.rectangular h.rhs_length with
    ⟨hrows, -⟩ | ⟨positions, hrows, -, hlt, -⟩
  · rw [independent?, htolerance, hrows] at ht
    cases ht
  · rw [h.independent?_eq hlt (htolerance ▸ hrows)] at ht
    exact ⟨positions, hlt, (Option.some.inj (Option.some.inj ht)).symm⟩

end System

end SimplexMethod
