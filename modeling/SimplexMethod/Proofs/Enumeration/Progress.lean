import Mathlib.Tactic
import SimplexMethod.Proofs.Enumeration.Directions

/-!
# The enumeration never fails

Whatever the scalars are, no position that the enumeration reads is out of range
(`Problem.enumerate?_isSome`). The systems it works on stay well formed: those without dependent
rows, since only rows of the system are selected (`System.WellFormed.exists_independent?`), and
those of directions, which have one row more. A choice of columns is as long as there are rows, so
the systems that are solved are square, also when more rows than columns were kept and no choice is
left, and when no row was kept and the choice is empty.
-/

set_option autoImplicit false

namespace SimplexMethod

variable {F : Type} [Scalar F] {s : System F}

namespace System

/-- Looking for the vertex of a choice of columns never fails. -/
theorem Chooses.exists_vertex? (tolerance : F) {columns : List Nat} (hc : s.Chooses columns)
    (h : s.WellFormed) : ∃ result, s.matrix.vertex? s.rhs tolerance columns = some result := by
  obtain ⟨solution, hsolve, -⟩ := RowMatrix.exists_solve? tolerance RowMatrix.rectangular_selected
    hc.square (h.rhs_length.trans RowMatrix.selected_rowCount.symm)
  rw [RowMatrix.vertex?, h.rectangular.selectColumns?_eq hc.lt_columns]
  simp only [Option.bind_eq_bind, Option.bind_some, hsolve, RowMatrix.spread?_eq hc.lt_columns]
  cases solution with
  | none => exact ⟨none, rfl⟩
  | some entries =>
    dsimp only
    split
    · exact ⟨none, rfl⟩
    · exact ⟨_, rfl⟩

namespace WellFormed

variable (options : EnumerationOptions F)

/-- Looking at all choices of columns never fails. -/
theorem exists_vertices? (h : s.WellFormed) : ∃ result, s.vertices? options = some result := by
  rw [vertices?]
  split
  · exact ⟨_, rfl⟩
  · obtain ⟨found, hfound⟩ := exists_mapM fun columns hmem =>
      (chooses_of_mem_combinations (s := s) hmem).exists_vertex? options.tolerance h
    rw [RowMatrix.vertices?, hfound]
    exact ⟨_, rfl⟩

/-- Leaving out dependent rows never fails, and leaves a well-formed system. -/
theorem exists_independent? (h : s.WellFormed) :
    ∃ result, s.independent? options = some result ∧ ∀ t, result = some t → t.WellFormed := by
  obtain ⟨result, hrows, hlt⟩ :=
    RowMatrix.exists_independentRows? options.tolerance h.rectangular h.rhs_length
  cases result with
  | none =>
    refine ⟨none, ?_, nofun⟩
    rw [independent?, hrows]
    rfl
  | some positions =>
    have hpositions := hlt positions rfl
    refine ⟨_, h.independent?_eq hpositions hrows, fun t ht => ?_⟩
    rw [← Option.some.inj ht]
    exact h.kept hpositions

end WellFormed

end System

namespace Problem

/-- The search for an improving direction never fails. -/
theorem exists_improvingDirection? (p : Problem F) (options : EnumerationOptions F)
    (h : s.WellFormed) : ∃ result, p.improvingDirection? options s = some result := by
  obtain ⟨directions, hdirections, hwell⟩ := h.directions.exists_independent? options
  rw [improvingDirection?, hdirections]
  cases directions with
  | none => exact ⟨_, rfl⟩
  | some directions =>
    obtain ⟨vertices, hvertices⟩ := (hwell directions rfl).exists_vertices? options
    simp only [Option.bind_eq_bind, Option.bind_some, hvertices]
    exact ⟨_, rfl⟩

/-- The enumeration answers every program. -/
theorem enumerate?_isSome (p : Problem F) (options : EnumerationOptions F) :
    (p.enumerate? options).isSome := by
  rw [Option.isSome_iff_exists]
  have hconstraints : (System.mk p.constraints p.values).WellFormed :=
    ⟨p.rectangular, p.values_length⟩
  obtain ⟨independent, hindependent, hwell⟩ := hconstraints.exists_independent? options
  rw [enumerate?, hindependent]
  cases independent with
  | none => exact ⟨_, rfl⟩
  | some system =>
    obtain ⟨vertices, hvertices⟩ := (hwell system rfl).exists_vertices? options
    simp only [Option.bind_eq_bind, Option.bind_some, hvertices]
    cases vertices with
    | error error => exact ⟨_, rfl⟩
    | ok vertices =>
      dsimp only
      cases p.leastVertex? options vertices with
      | none => exact ⟨_, rfl⟩
      | some least =>
        obtain ⟨direction, hdirection⟩ := p.exists_improvingDirection? options (hwell system rfl)
        simp only [hdirection, Option.bind_some]
        rcases direction with error | _ | direction <;> exact ⟨_, rfl⟩

end Problem

end SimplexMethod
