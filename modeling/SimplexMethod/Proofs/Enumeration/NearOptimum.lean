import Mathlib.Tactic
import SimplexMethod.Proofs.Enumeration.Limit
import SimplexMethod.Proofs.Enumeration.Progress
import SimplexMethod.Proofs.Scalar.Choice

/-!
# The vertex chosen with a tolerance

The enumeration takes costs that differ by no more than the tolerance for equal, and keeps the
earlier one of two vertices of equal cost. This is not an equivalence: along a chain of vertices the
cost can fall by any amount in steps that count as none. The choice is good all the same
(`Problem.enumerate?_nearOptimal`). The cost of the vertex that is kept is never more than the
tolerance above that of a vertex seen before, because a vertex takes its place as soon as the
difference is larger, and with it comes a cost below those of all vertices before.
-/

set_option autoImplicit false

namespace SimplexMethod

namespace Problem

variable {p : Problem ℚ} {options : EnumerationOptions ℚ}

/-- The vertex is chosen by its cost, and the cost is kept beside it. -/
theorem leastVertex?_eq (vertices : List (Vertex ℚ)) : p.leastVertex? options vertices =
    (tolerantLeast? options.tolerance (fun vertex => p.minimizedAt vertex.values) vertices).map
      fun vertex => (p.minimizedAt vertex.values, vertex) := by
  rw [leastVertex?, tolerantLeast?, survivor?_map]
  rfl

/-- Among vertices there is one that is chosen; it costs less than those before it, and no more than
those after it up to the tolerance. -/
theorem exists_leastVertex? (htolerance : 0 ≤ options.tolerance) {vertices : List (Vertex ℚ)}
    (hne : vertices ≠ []) :
    ∃ v, p.leastVertex? options vertices = some (p.minimizedAt v.values, v) ∧
      Stands (fun w v => p.minimizedAt v.values < p.minimizedAt w.values)
        (fun w v => p.minimizedAt v.values ≤ p.minimizedAt w.values + options.tolerance)
        v vertices := by
  rw [leastVertex?_eq]
  cases hleast : tolerantLeast? options.tolerance
      (fun vertex => p.minimizedAt vertex.values) vertices with
  | none => exact absurd (survivor?_eq_none_iff.1 hleast) hne
  | some v => exact ⟨v, rfl, stands_of_tolerantLeast? htolerance hleast⟩

/-- What the run tells of the vertex that it has chosen: it is the point from which the objective
improves without limit, or the optimal solution, unless there are too many directions to look at. -/
inductive Tells (p : Problem ℚ) (options : EnumerationOptions ℚ) (v : Vertex ℚ) :
    Except SolveError (Outcome ℚ) → Prop
  | refused {bases : Nat} (hover : options.basisLimit < bases) :
      Tells p options v (.error (.enumerationLimit bases))
  | unbounded (direction : List ℚ) :
      Tells p options v (.ok (.unbounded ⟨v.values, direction⟩))
  | optimal : Tells p options v
      (.ok (.optimal ⟨p.reported (p.minimizedAt v.values), v.values, v.basis, ⟨0, 0⟩⟩))

/-- The run goes on with the vertex that is chosen. -/
theorem exists_enumerate?_of_leastVertex? {s : System ℚ} {vertices : List (Vertex ℚ)}
    {v : Vertex ℚ}
    (hsystem : (System.mk p.constraints p.values).independent? options = some (some s))
    (hvertices : s.vertices? options = some (.ok vertices))
    (hleast : p.leastVertex? options vertices = some (p.minimizedAt v.values, v)) :
    ∃ answer, p.enumerate? options = some answer ∧ p.Tells options v answer.result := by
  have hconstraints : (System.mk p.constraints p.values).WellFormed :=
    ⟨p.rectangular, p.values_length⟩
  obtain ⟨result, hresult, hwell⟩ := hconstraints.exists_independent? options
  obtain rfl := Option.some.inj (hsystem.symm.trans hresult)
  obtain ⟨direction, hdirection⟩ := p.exists_improvingDirection? options (hwell s rfl)
  rw [enumerate?, hsystem]
  simp only [Option.bind_eq_bind, Option.bind_some, hvertices, hleast, hdirection]
  rcases direction with error | _ | direction
  · obtain ⟨t, -, hrefused⟩ := improvingDirection?_eq_error_iff.1 hdirection
    obtain ⟨hover, rfl⟩ := System.vertices?_eq_error_iff.1 hrefused
    exact ⟨_, rfl, .refused hover⟩
  · exact ⟨_, rfl, .optimal⟩
  · exact ⟨_, rfl, .unbounded direction⟩

/-- Let a run list vertices, at least one of them. One of those is chosen: no vertex of the list
costs less than it by more than the tolerance, and every vertex before it costs more. The answer is
about this vertex. -/
theorem enumerate?_nearOptimal (p : Problem ℚ) (options : EnumerationOptions ℚ)
    (htolerance : 0 ≤ options.tolerance) {s : System ℚ} {vertices : List (Vertex ℚ)}
    (hsystem : (System.mk p.constraints p.values).independent? options = some (some s))
    (hvertices : s.vertices? options = some (.ok vertices)) (hne : vertices ≠ []) :
    ∃ earlier v later answer, vertices = earlier ++ v :: later ∧
      p.leastVertex? options vertices = some (p.minimizedAt v.values, v) ∧
      (∀ w ∈ vertices, p.minimizedAt v.values ≤ p.minimizedAt w.values + options.tolerance) ∧
      (∀ w ∈ earlier, p.minimizedAt v.values < p.minimizedAt w.values) ∧
      p.enumerate? options = some answer ∧ p.Tells options v answer.result := by
  obtain ⟨v, hleast, earlier, later, rfl, hearlier, hlater⟩ :=
    exists_leastVertex? (p := p) htolerance hne
  obtain ⟨answer, hanswer, htells⟩ := exists_enumerate?_of_leastVertex? hsystem hvertices hleast
  refine ⟨earlier, v, later, answer, rfl, hleast, fun w hw => ?_, hearlier, hanswer, htells⟩
  rcases List.mem_append.1 hw with hw | hw
  · have hless := hearlier w hw
    linarith
  · rcases List.mem_cons.1 hw with rfl | hw
    · linarith
    · exact hlater w hw

/-- Four vertices, each of which costs a little less than the one before. -/
def drifting : Problem ℚ where
  constraints := ⟨[[1, 1, 1, 1]], 4⟩
  values := [1]
  minimizationCost := [2, 5/3, 4/3, 1]
  direction := .minimize
  rows_ne_nil := List.cons_ne_nil _ _
  columns_pos := by decide
  rectangular := by simp [RowMatrix.Rectangular]
  values_length := List.length_singleton
  cost_length := rfl

/-- The vertices of the drifting program. -/
def driftingVertices : List (Vertex ℚ) :=
  [⟨[0], [1, 0, 0, 0]⟩, ⟨[1], [0, 1, 0, 0]⟩, ⟨[2], [0, 0, 1, 0]⟩, ⟨[3], [0, 0, 0, 1]⟩]

/-- With the tolerance 1/2 each vertex counts as equal to the next one, and the third is chosen. -/
theorem enumerate?_nearOptimal_drifting : ∃ earlier v later answer,
    driftingVertices = earlier ++ v :: later ∧
      drifting.leastVertex? ⟨1/2, 10⟩ driftingVertices = some (drifting.minimizedAt v.values, v) ∧
      (∀ w ∈ driftingVertices,
        drifting.minimizedAt v.values ≤ drifting.minimizedAt w.values + 1/2) ∧
      (∀ w ∈ earlier, drifting.minimizedAt v.values < drifting.minimizedAt w.values) ∧
      drifting.enumerate? ⟨1/2, 10⟩ = some answer ∧
      answer.result = .ok (.optimal ⟨4/3, [0, 0, 1, 0], [2], ⟨0, 0⟩⟩) := by
  have hsystem : (System.mk drifting.constraints drifting.values).independent? ⟨1/2, 10⟩ =
      some (some ⟨drifting.constraints, drifting.values⟩) := by decide +kernel
  have hvertices : (System.mk drifting.constraints drifting.values).vertices? ⟨1/2, 10⟩ =
      some (.ok driftingVertices) := by decide +kernel
  have hrun : (drifting.enumerate? ⟨1/2, 10⟩).map Answer.result =
      some (.ok (.optimal ⟨4/3, [0, 0, 1, 0], [2], ⟨0, 0⟩⟩)) := by decide +kernel
  obtain ⟨earlier, v, later, answer, hsplit, hleast, hnear, hearlier, hanswer, -⟩ :=
    drifting.enumerate?_nearOptimal ⟨1/2, 10⟩ (by norm_num) hsystem hvertices
      (List.cons_ne_nil _ _)
  rw [hanswer, Option.map_some, Option.some.injEq] at hrun
  exact ⟨earlier, v, later, answer, hsplit, hleast, hnear, hearlier, hanswer, hrun⟩

end Problem

end SimplexMethod
