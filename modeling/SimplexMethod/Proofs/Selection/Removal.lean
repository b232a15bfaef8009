import Mathlib.Tactic
import SimplexMethod.Proofs.Checked
import SimplexMethod.Selection.Removal

/-!
# What a removal of positions leaves

For positions in strictly increasing order, the one pass through the elements leaves those whose
position is not listed, in their order (`removePositions_eq`). A list that is read off the numbers
below its length keeps the numbers that are not listed (`removePositions_map_range`), so that lists
of the same length stay aligned when the same positions are removed from them.

The places at which the elements stood that are left are the same in all lists of one length
(`Remains`, `remains_removePositions`), and with positions that are all one larger a list keeps its
first element and then the places one further (`Remains.shift`).
-/

set_option autoImplicit false

namespace SimplexMethod

variable {α β : Type} {positions : List Nat}

/-- The pass started at any position. The induction follows the pass: the first position left is
either that of the first element, or larger. -/
theorem removeFrom_eq (start : Nat) (elements : List α) (hsorted : positions.Pairwise (· < ·))
    (hstart : ∀ position ∈ positions, start ≤ position) :
    removeFrom start positions elements =
      ((elements.zipIdx start).filter fun place => place.2 ∉ positions).map Prod.fst := by
  induction elements generalizing start positions with
  | nil => cases positions <;> rfl
  | cons element elements ih =>
    cases positions with
    | nil => simp [removeFrom]
    | cons position positions =>
      obtain ⟨hlt, hrest⟩ := List.pairwise_cons.1 hsorted
      rw [removeFrom, List.zipIdx_cons]
      split
      · next hbefore =>
        -- The element stands before all positions that are left.
        have hnot : start ∉ position :: positions := by
          intro hmem
          rcases List.mem_cons.1 hmem with rfl | hmem
          · exact lt_irrefl _ hbefore
          · exact lt_asymm hbefore (hlt _ hmem)
        have hnext : ∀ later ∈ position :: positions, start + 1 ≤ later := by
          intro later hmem
          rcases List.mem_cons.1 hmem with rfl | hmem
          · exact hbefore
          · exact hbefore.trans (hlt _ hmem)
        rw [List.filter_cons_of_pos (by simpa using hnot), List.map_cons, ih _ hsorted hnext]
      · next hreached =>
        have heq : position = start :=
          le_antisymm (not_lt.1 hreached) (hstart _ List.mem_cons_self)
        subst heq
        rw [List.filter_cons_of_neg (by simp), ih _ hrest hlt]
        congr 1
        apply List.filter_congr
        intro place hplace
        have hle : position + 1 ≤ place.2 := (List.mem_zipIdx hplace).1
        have hne : place.2 ≠ position := by omega
        simp [hne]

/-- A removal leaves the elements whose position is not listed. -/
theorem removePositions_eq (hsorted : positions.Pairwise (· < ·)) (elements : List α) :
    removePositions positions elements =
      (elements.zipIdx.filter fun place => place.2 ∉ positions).map Prod.fst :=
  removeFrom_eq 0 elements hsorted fun _ _ => Nat.zero_le _

theorem removePositions_map_range (hsorted : positions.Pairwise (· < ·)) (f : Nat → α) (n : Nat) :
    removePositions positions ((List.range n).map f) =
      ((List.range n).filter (· ∉ positions)).map f := by
  have hplaces : ((List.range n).map f).zipIdx = (List.range n).map fun i => (f i, i) := by
    apply List.ext_getElem (by simp)
    intro i hi hi'
    simp
  rw [removePositions_eq hsorted, hplaces, List.filter_map, List.map_map]
  rfl

/-- Positions moved one further leave the first element. -/
theorem removePositions_map_succ (hsorted : positions.Pairwise (· < ·)) (first : α)
    (rest : List α) :
    removePositions (positions.map (· + 1)) (first :: rest) =
      first :: removePositions positions rest := by
  have hmoved : (positions.map (· + 1)).Pairwise (· < ·) :=
    hsorted.map _ fun _ _ hlt => Nat.succ_lt_succ hlt
  rw [removePositions_eq hmoved, removePositions_eq hsorted, List.zipIdx_cons,
    List.filter_cons_of_pos (by simp), List.map_cons, Nat.zero_add, List.zipIdx_succ,
    List.filter_map, List.map_map]
  congr 2
  refine List.filter_congr fun place _ => decide_eq_decide.2 (not_congr ?_)
  exact List.mem_map_of_injective (add_left_injective 1)

/-- Elements may be changed before the removal or after it. -/
theorem removePositions_map (hsorted : positions.Pairwise (· < ·)) (f : α → β)
    (elements : List α) :
    removePositions positions (elements.map f) = (removePositions positions elements).map f := by
  rw [removePositions_eq hsorted, removePositions_eq hsorted, List.zipIdx_map, List.filter_map,
    List.map_map, List.map_map]
  rfl

/-! ## The places that are left -/

/-- What remains of a list without some positions: `places` are the positions that are not listed,
in increasing order, and reading them one after the other gives `left`. -/
structure Remains (positions places : List Nat) (elements left : List α) : Prop where
  ascending : places.Pairwise (· < ·)
  mem_iff : ∀ i, i ∈ places ↔ i < elements.length ∧ i ∉ positions
  mapM_eq : places.mapM (elements[·]?) = some left

/-- The elements that a removal leaves, with their places. -/
theorem remains_removePositions (hsorted : positions.Pairwise (· < ·)) (elements : List α) :
    Remains positions ((List.range elements.length).filter (· ∉ positions)) elements
      (removePositions positions elements) where
  ascending := List.pairwise_lt_range.filter _
  mem_iff i := by rw [List.mem_filter, List.mem_range, decide_eq_true_eq]
  mapM_eq := by
    have hread : elements.map some = (List.range elements.length).map (elements[·]?) := by
      apply List.ext_getElem (by simp)
      intro i hi hi'
      simp
    rw [mapM_eq_some_iff, ← removePositions_map hsorted, hread, removePositions_map_range hsorted]

namespace Remains

variable {places : List Nat} {elements left : List α}

/-- The places depend on the positions and the length alone. -/
theorem places_eq (h : Remains positions places elements left) :
    places = (List.range elements.length).filter (· ∉ positions) := by
  apply h.ascending.eq_of_mem_iff (List.pairwise_lt_range.filter _)
  intro i
  rw [h.mem_iff, List.mem_filter, List.mem_range, decide_eq_true_eq]

theorem length_eq (h : Remains positions places elements left) : left.length = places.length :=
  length_of_mapM h.mapM_eq

theorem getElem?_eq (h : Remains positions places elements left) (k : Nat) :
    left[k]? = places[k]?.bind (elements[·]?) :=
  getElem?_of_mapM h.mapM_eq k

/-- Each listed position takes one element away. -/
theorem length_add_length (h : Remains positions places elements left)
    (hsorted : positions.Pairwise (· < ·)) (hlt : ∀ i ∈ positions, i < elements.length) :
    positions.length + places.length = elements.length := by
  have hdisjoint : positions.Disjoint places := fun i hi hplace => ((h.mem_iff i).1 hplace).2 hi
  have hnodup : (positions ++ places).Nodup := hsorted.nodup.append h.ascending.nodup hdisjoint
  have hperm : (positions ++ places).Perm (List.range elements.length) := by
    refine (List.perm_ext_iff_of_nodup hnodup List.nodup_range).2 fun i => ?_
    rw [List.mem_append, List.mem_range, h.mem_iff]
    constructor
    · rintro (hi | hi)
      · exact hlt i hi
      · exact hi.1
    · intro hi
      exact or_iff_not_imp_left.2 fun hnot => ⟨hi, hnot⟩
  rw [← List.length_append, hperm.length_eq, List.length_range]

/-- When all positions are one larger, an element put before the list stays the first one, and the
places of the others are one larger. -/
theorem shift (h : Remains positions places elements left) (first : α) :
    Remains (positions.map (· + 1)) (0 :: places.map (· + 1)) (first :: elements)
      (first :: left) where
  ascending := by
    refine List.pairwise_cons.2 ⟨?_, h.ascending.map _ fun _ _ hlt => Nat.succ_lt_succ hlt⟩
    intro i hi
    obtain ⟨place, -, rfl⟩ := List.mem_map.1 hi
    exact Nat.succ_pos place
  mem_iff i := by
    cases i with
    | zero => simp
    | succ i => simp [h.mem_iff i]
  mapM_eq := by
    rw [mapM_eq_some_iff, List.map_cons, List.map_cons, ← mapM_eq_some_iff.1 h.mapM_eq,
      List.map_map, List.getElem?_cons_zero]
    rfl

end Remains

end SimplexMethod
