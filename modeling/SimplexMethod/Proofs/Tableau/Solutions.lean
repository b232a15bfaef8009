import Mathlib.Tactic
import SimplexMethod.Proofs.Tableau.States

/-!
# Solutions and directions as lists

A well-formed tableau has a basic solution, a list with a value for each structural variable
(`WellFormed.basicSolution?_eq`), and for each structural column a direction (`direction?_eq`).
Over the rationals their entries are those of the functions `point` and `ray`
(`coeff_basicSolution`, `coeff_directionOf`).
-/

set_option autoImplicit false

namespace SimplexMethod

variable {F : Type}

namespace Tableau

/-- What is written for the places of a basis: at each structural basic variable the value of its
place. -/
def writes (t : Tableau F) (values : List F) : List (Nat × F) :=
  (List.zip t.basis values).filter fun write => ¬ t.IsArtificial write.1

section Writes

variable {t : Tableau F} {values : List F}

theorem mem_writes_iff {write : Nat × F} :
    write ∈ t.writes values ↔
      write ∈ List.zip t.basis values ∧ write.1 < t.structuralCount := by
  rw [writes, List.mem_filter, decide_eq_true_eq, not_isArtificial_iff]

/-- All writes at places of structural variables are in range, and the others are passed over. -/
theorem foldlM_places {init : List F} (hinit : init.length = t.structuralCount)
    (places : List (Nat × F)) :
    places.foldlM (fun acc (j, a) => if t.IsArtificial j then some acc else write? acc j a) init =
      some ((places.filter fun write => ¬ t.IsArtificial write.1).foldl
        (fun acc write => acc.set write.1 write.2) init) := by
  rw [List.foldl_filter]
  refine foldlM_eq_some_foldl (fun acc => acc.length = t.structuralCount) hinit ?_
  rintro acc hacc ⟨j, a⟩ -
  by_cases hart : t.IsArtificial j
  · simp [hart, hacc]
  · have hj : j < acc.length := hacc ▸ not_isArtificial_iff.1 hart
    simp [hart, write?_eq hj, hacc]

theorem WellFormed.nodup_writes (h : t.WellFormed) :
    ((t.writes values).map Prod.fst).Nodup := by
  have hsub : ((t.writes values).map Prod.fst).Sublist t.basis := by
    apply (List.filter_sublist.map Prod.fst).trans
    rw [List.zip_eq_zip_take_min, List.map_fst_zip (by simp)]
    exact List.take_sublist _ _
  exact hsub.nodup h.nodup

theorem getElem?_foldl_writes_basic (h : t.WellFormed) {i : Nat} {a : F} {init : List F}
    (hinit : init.length = t.structuralCount) (hi : i < t.rowCount)
    (hlt : t.basic i < t.structuralCount) (ha : values[i]? = some a) :
    ((t.writes values).foldl (fun acc write => acc.set write.1 write.2) init)[t.basic i]? =
      some a := by
  refine getElem?_foldl_set_of_mem h.nodup_writes (mem_writes_iff.2 ⟨?_, hlt⟩) (hinit ▸ hlt)
  refine List.mem_iff_getElem?.2 ⟨i, ?_⟩
  rw [List.getElem?_zip_eq_some]
  exact ⟨basis_getElem?_eq hi, ha⟩

theorem getElem?_foldl_writes_of_notMem {j : Nat} {init : List F} (hj : j ∉ t.basis) :
    ((t.writes values).foldl (fun acc write => acc.set write.1 write.2) init)[j]? = init[j]? := by
  refine getElem?_foldl_set_of_notMem ?_
  rintro ⟨k, a⟩ hmem rfl
  exact hj (List.of_mem_zip (mem_writes_iff.1 hmem).1).1

end Writes

variable [Scalar F] {t : Tableau F}

/-- The values of all constraint rows. -/
def values (t : Tableau F) : List F := (List.range t.rowCount).map t.value

/-- The basic solution; the value of `basicSolution?` for a well-formed tableau. -/
def basicSolution (t : Tableau F) : List F :=
  (t.writes t.values).foldl (fun acc write => acc.set write.1 write.2)
    (List.replicate t.structuralCount 0)

/-- The direction of a column; the value of `direction?` for a structural column. -/
def directionOf (t : Tableau F) (entering : Nat) (column : List F) : List F :=
  (t.writes (column.map (-·))).foldl (fun acc write => acc.set write.1 write.2)
    ((List.replicate t.structuralCount 0).set entering 1)

theorem length_basicSolution : t.basicSolution.length = t.structuralCount := by
  rw [basicSolution, length_foldl_set, List.length_replicate]

theorem length_directionOf {entering : Nat} {column : List F} :
    (t.directionOf entering column).length = t.structuralCount := by
  rw [directionOf, length_foldl_set, List.length_set, List.length_replicate]

theorem zipIdx_basis_values :
    t.basis.zipIdx.map (fun place => (place.1, t.value place.2)) = List.zip t.basis t.values := by
  have hvalues : t.values.length = t.basis.length :=
    (List.length_map _).trans List.length_range
  apply ext_of_lt ((List.length_map _).trans List.length_zipIdx) (by simp [hvalues])
  intro i hi
  have hvalue : t.values[i]? = some (t.value i) := by
    rw [values, List.getElem?_map, List.getElem?_range (show i < t.rowCount from hi),
      Option.map_some]
  rw [List.getElem?_map, List.getElem?_zipIdx, basis_getElem?_eq hi, List.zip,
    List.getElem?_zipWith, basis_getElem?_eq hi, hvalue]
  simp

theorem direction?_eq {entering : Nat} (hentering : entering < t.structuralCount)
    (column : List F) :
    t.direction? entering column = some (t.directionOf entering column) := by
  have hlength := List.length_replicate (n := t.structuralCount) (a := (0 : F))
  rw [direction?, write?_eq (hlength.symm ▸ hentering), directionOf, writes,
    ← foldlM_places (by rw [List.length_set, hlength]), List.zip_map_right, List.foldlM_map]
  rfl

namespace WellFormed

theorem basicSolution?_eq (h : t.WellFormed) : t.basicSolution? = some t.basicSolution := by
  rw [basicSolution, writes, ← foldlM_places List.length_replicate, ← zipIdx_basis_values,
    List.foldlM_map, basicSolution?]
  -- The value of every row can be read.
  refine foldlM_congr fun acc ⟨j, i⟩ hmem => ?_
  have hi : i < t.rowCount := (List.mem_zipIdx hmem).2.1.trans_eq (Nat.zero_add _)
  simp [h.value?_eq hi]

end WellFormed

/-! ## Exact entries -/

section Exact

variable {t : Tableau ℚ} {j entering : Nat}

theorem coeff_basicSolution (h : t.WellFormed) (hj : j < t.structuralCount) :
    coeff t.basicSolution j = t.point j := by
  by_cases hmem : j ∈ t.basis
  · obtain ⟨i, hi, rfl⟩ := mem_basis_iff.1 hmem
    rw [point, h.scatter_basic _ hi]
    refine coeff_of_getElem? (getElem?_foldl_writes_basic h (List.length_replicate ..) hi hj ?_)
    rw [values, List.getElem?_map, List.getElem?_range hi, Option.map_some]
  · rw [point, scatter_of_notMem _ hmem]
    apply coeff_of_getElem?
    rw [basicSolution, getElem?_foldl_writes_of_notMem hmem, List.getElem?_replicate_of_lt hj]

/-- Tableaus whose points agree in the structural columns have the same basic solution. -/
theorem basicSolution_congr {t' : Tableau ℚ} (h : t.WellFormed) (h' : t'.WellFormed)
    (hsize : t'.structuralCount = t.structuralCount)
    (hpoint : ∀ j < t.structuralCount, t'.point j = t.point j) :
    t'.basicSolution = t.basicSolution := by
  apply ext_coeff (by rw [length_basicSolution, length_basicSolution, hsize])
  intro j hj
  rw [length_basicSolution] at hj
  rw [coeff_basicSolution h' hj, coeff_basicSolution h (hsize ▸ hj), hpoint j (hsize ▸ hj)]

theorem coeff_directionOf (h : t.WellFormed) (hentering : entering < t.structuralCount)
    (hnew : entering ∉ t.basis) {column : List ℚ} (hcolumn : t.column? entering = some column)
    (hj : j < t.structuralCount) : coeff (t.directionOf entering column) j = t.ray entering j := by
  have hinit : ((List.replicate t.structuralCount (0 : ℚ)).set entering 1).length =
      t.structuralCount := by
    rw [List.length_set, List.length_replicate]
  by_cases hmem : j ∈ t.basis
  · -- A basic variable is not the entering one.
    obtain ⟨i, hi, rfl⟩ := mem_basis_iff.1 hmem
    rw [ray, h.scatter_basic _ hi, if_neg (by rintro rfl; exact hnew hmem), zero_sub]
    refine coeff_of_getElem? (getElem?_foldl_writes_basic h hinit hi hj ?_)
    rw [List.getElem?_map,
      h.column?_getElem? (hentering.le.trans structuralCount_le) hcolumn hi, Option.map_some]
  · rw [ray, scatter_of_notMem _ hmem, sub_zero]
    apply coeff_of_getElem?
    rw [directionOf, getElem?_foldl_writes_of_notMem hmem]
    split
    · next heq =>
      rw [heq, List.getElem?_set_self (by rw [List.length_replicate]; exact hentering)]
    · next hne =>
      rw [List.getElem?_set_ne (Ne.symm hne), List.getElem?_replicate_of_lt hj]

end Exact

end Tableau

end SimplexMethod
