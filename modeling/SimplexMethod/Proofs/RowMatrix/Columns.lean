import Mathlib.LinearAlgebra.Matrix.Rank
import Mathlib.Tactic
import SimplexMethod.Proofs.RowMatrix.Independence

/-!
# Choices of columns

Columns of a matrix are independent when no vector but zero that vanishes in all other columns is
taken to zero by the rows (`IndependentColumns`). Independent columns can be extended to a choice of
as many columns as the rank of the matrix says (`IndependentColumns.exists_choice`), which is where
the row rank, counted when rows are selected, and the column rank meet.

A vector that vanishes outside a choice of columns and the list of its entries in these columns
determine each other (`pick_place`, `place_pick`), and the rows take both to the same
(`dot_pick`).
-/

set_option autoImplicit false

namespace SimplexMethod

variable {F : Type}

/-- The list of some length with the given entries at some positions, and zeros elsewhere. -/
def place [Scalar F] (width : Nat) (columns : List Nat) (entries : List F) : List F :=
  (List.zip columns entries).foldl (fun values write => values.set write.1 write.2)
    (List.replicate width 0)

section Shape

variable [Scalar F] {width : Nat} {columns : List Nat} {entries : List F}

theorem length_place : (place width columns entries).length = width := by
  rw [place, length_foldl_set, List.length_replicate]

theorem coeff_place_of_notMem {j : Nat} (hj : j ∉ columns) (hlt : j < width) :
    coeff (place width columns entries) j = 0 := by
  apply coeff_of_getElem?
  rw [place, getElem?_foldl_set_of_notMem, List.getElem?_replicate_of_lt hlt]
  rintro ⟨k, a⟩ hmem rfl
  exact hj (List.of_mem_zip hmem).1

theorem coeff_place_of_getElem? (hnodup : columns.Nodup) {j k : Nat} {a : F}
    (hcolumn : columns[k]? = some j) (hentry : entries[k]? = some a) (hlt : j < width) :
    coeff (place width columns entries) j = a := by
  refine coeff_of_getElem? (getElem?_foldl_set_of_mem ?_ ?_ (by rwa [List.length_replicate]))
  · rw [List.zip_eq_zip_take_min, List.map_fst_zip (by simp)]
    exact (List.take_sublist _ _).nodup hnodup
  · exact List.mem_iff_getElem?.2 ⟨k, List.getElem?_zip_eq_some.2 ⟨hcolumn, hentry⟩⟩

/-- The entries of a placed list in the chosen columns are the placed ones. -/
theorem pick_place (hnodup : columns.Nodup) (hlt : ∀ j ∈ columns, j < width)
    (hlen : entries.length = columns.length) :
    pick columns (place width columns entries) = entries := by
  apply List.ext_getElem ((length_pick _ _).trans hlen.symm)
  intro k hk hk'
  have hcolumn : k < columns.length := by rwa [length_pick] at hk
  simp only [pick, List.getElem_map]
  exact coeff_place_of_getElem? hnodup (List.getElem?_eq_getElem hcolumn)
    (List.getElem?_eq_getElem hk') (hlt _ (List.getElem_mem hcolumn))

/-- A list that vanishes outside the chosen columns is its placed entries. -/
theorem place_pick (hnodup : columns.Nodup) {x : List F}
    (hzero : ∀ j, j ∉ columns → coeff x j = 0) :
    place x.length columns (pick columns x) = x := by
  apply ext_coeff length_place
  intro j hj
  rw [length_place] at hj
  by_cases hmem : j ∈ columns
  · obtain ⟨k, hk, rfl⟩ := List.getElem_of_mem hmem
    refine coeff_place_of_getElem? hnodup (List.getElem?_eq_getElem hk) ?_ hj
    rw [pick, List.getElem?_map, List.getElem?_eq_getElem hk, Option.map_some]
  · rw [coeff_place_of_notMem hmem hj, hzero j hmem]

end Shape

theorem exists_coeff_eq {n : ℕ} (f : Fin n → ℚ) :
    ∃ z : List ℚ, z.length = n ∧ ∀ j : Fin n, coeff z j = f j := by
  refine ⟨List.ofFn f, List.length_ofFn, fun j => coeff_of_getElem? ?_⟩
  rw [List.getElem?_ofFn, dif_pos j.2]

/-! ## Columns in a set -/

open Classical in
/-- The positions in a set, in increasing order. -/
noncomputable def listed {n : ℕ} (b : Set (Fin n)) : List ℕ :=
  (List.range n).filter fun j => ∃ hj : j < n, ⟨j, hj⟩ ∈ b

theorem mem_listed_iff {n j : ℕ} {b : Set (Fin n)} :
    j ∈ listed b ↔ ∃ hj : j < n, ⟨j, hj⟩ ∈ b := by
  classical
  rw [listed, List.mem_filter, List.mem_range, decide_eq_true_eq]
  constructor
  · rintro ⟨-, hin⟩
    exact hin
  · rintro ⟨hj, hin⟩
    exact ⟨hj, hj, hin⟩

theorem length_listed {n : ℕ} (b : Set (Fin n)) [Fintype b] :
    (listed b).length = Fintype.card b := by
  classical
  have hfinset : (listed b).toFinset = b.toFinset.map Fin.valEmbedding := by
    ext j
    rw [List.mem_toFinset, mem_listed_iff, Finset.mem_map]
    constructor
    · rintro ⟨hj, hin⟩
      exact ⟨⟨j, hj⟩, Set.mem_toFinset.2 hin, rfl⟩
    · rintro ⟨k, hk, rfl⟩
      exact ⟨k.2, Set.mem_toFinset.1 hk⟩
  have hnodup : (listed b).Nodup := List.nodup_range.filter _
  rw [← List.toFinset_card_of_nodup hnodup, hfinset, Finset.card_map, Set.toFinset_card]

/-! ## Products in chosen columns -/

/-- The product with a list that vanishes outside the chosen columns is the product in these
columns. -/
theorem dot_pick {columns : List Nat} (hnodup : columns.Nodup) {row x : List ℚ} {n : Nat}
    (hlt : ∀ j ∈ columns, j < n) (hrow : row.length = n)
    (hzero : ∀ j, j ∉ columns → coeff x j = 0) :
    Scalar.dot (pick columns row) (pick columns x) = Scalar.dot row x := by
  have hleft : Scalar.dot (pick columns row) (pick columns x) =
      (columns.map fun j => coeff row j * coeff x j).sum := by
    rw [Scalar.dot, Scalar.sum_eq, pick, pick, List.zipWith_map_left, List.zipWith_map_right,
      List.zipWith_self]
  rw [hleft, dot_eq_sum (n := n) (by omega), ← List.sum_toFinset _ hnodup]
  refine Finset.sum_subset (fun j hj => ?_) fun j _ hj => ?_
  · exact Finset.mem_range.2 (hlt j (List.mem_toFinset.1 hj))
  · rw [hzero j fun hmem => hj (List.mem_toFinset.2 hmem), mul_zero]

namespace RowMatrix

/-! ## Independent columns -/

variable {m : RowMatrix ℚ} {s : Set ℕ}

/-- Only the zero vector vanishes outside these columns and is taken to zero by all rows. -/
def IndependentColumns (m : RowMatrix ℚ) (s : Set ℕ) : Prop :=
  ∀ z : List ℚ, z.length = m.columns → (∀ j, j ∉ s → coeff z j = 0) →
    (∀ row ∈ m.rows, Scalar.dot row z = 0) → ∀ j, coeff z j = 0

theorem Rectangular.dot_eq_sum_col (h : m.Rectangular) {z : List ℚ} (hz : z.length = m.columns)
    (i : Fin m.rowCount) :
    Scalar.dot (m.rows.getD i []) z = (∑ j : Fin m.columns, coeff z j • m.toMatrix.col j) i := by
  have hlen := h.length_getD i.2
  rw [dot_eq_sum (n := m.columns) (by omega), Finset.sum_apply,
    ← Fin.sum_univ_eq_sum_range fun j => coeff (m.rows.getD i []) j * coeff z j]
  apply Finset.sum_congr rfl
  intro j _
  rw [Pi.smul_apply, smul_eq_mul, mul_comm]
  rfl

/-- Independence of columns is linear independence of the columns of the matrix. -/
theorem Rectangular.independentColumns_iff (h : m.Rectangular) :
    m.IndependentColumns s ↔ LinearIndepOn ℚ m.toMatrix.col {j | (j : ℕ) ∈ s} := by
  classical
  have hset : {j : Fin m.columns | (j : ℕ) ∈ s} =
      ↑(Finset.univ.filter fun j : Fin m.columns => (j : ℕ) ∈ s) := by
    ext j
    simp
  rw [hset, linearIndepOn_finset_iff]
  constructor
  · intro hindep factors hsum i hi
    -- The list of the factors, zero in the other columns.
    obtain ⟨z, hlen, hcoeff⟩ :=
      exists_coeff_eq fun j : Fin m.columns => if (j : ℕ) ∈ s then factors j else 0
    have hrows : ∀ row ∈ m.rows, Scalar.dot row z = 0 := by
      intro row hrow
      obtain ⟨k, hk, rfl⟩ := List.getElem_of_mem hrow
      have hdot := h.dot_eq_sum_col hlen ⟨k, hk⟩
      rw [List.getD_eq_getElem?_getD, List.getElem?_eq_getElem hk, Option.getD_some] at hdot
      rw [hdot]
      simp only [hcoeff, ite_smul, zero_smul, ← Finset.sum_filter]
      exact congrFun hsum _
    have hzero := hindep z hlen (fun j hj => ?_) hrows i
    · rwa [hcoeff, if_pos (Finset.mem_filter.1 hi).2] at hzero
    · rcases lt_or_ge j m.columns with hlt | hge
      · exact (hcoeff ⟨j, hlt⟩).trans (if_neg hj)
      · exact coeff_of_length_le (hlen.trans_le hge)
  · intro hindep z hlen hsupport hrows j
    by_cases hj : j ∈ s
    · rcases lt_or_ge j m.columns with hlt | hge
      · refine hindep (fun k => coeff z k) ?_ ⟨j, hlt⟩ (by simpa using hj)
        funext i
        rw [Finset.sum_filter_of_ne, ← h.dot_eq_sum_col hlen]
        · exact hrows _ (List.mem_of_getElem? (rows_getElem?_eq i.2))
        · intro k _ hne
          by_contra hnot
          rw [hsupport k hnot, zero_smul] at hne
          exact hne rfl
      · exact coeff_of_length_le (hlen.trans_le hge)
    · exact hsupport j hj

/-- Independent columns can be extended to a choice of as many columns as there are independent
rows. -/
theorem IndependentColumns.exists_choice (hs : m.IndependentColumns s) (h : m.Rectangular)
    (hlt : ∀ j ∈ s, j < m.columns) :
    ∃ columns : List ℕ, columns.Sublist (List.range m.columns) ∧
      columns.length = m.toMatrix.rank ∧ (∀ j ∈ s, j ∈ columns) ∧
      m.IndependentColumns {j | j ∈ columns} := by
  classical
  obtain ⟨b, -, hsub, hspan, hindep⟩ :=
    exists_linearIndepOn_extension (h.independentColumns_iff.1 hs) (Set.subset_univ _)
  have hset : {j : Fin m.columns | (j : ℕ) ∈ {j | j ∈ listed b}} = b := by
    ext j
    constructor
    · intro hin
      exact (mem_listed_iff.1 hin).2
    · intro hin
      exact mem_listed_iff.2 ⟨j.2, hin⟩
  refine ⟨listed b, List.filter_sublist, ?_, fun j hj => mem_listed_iff.2 ⟨hlt j hj, hsub hj⟩, ?_⟩
  · -- The chosen columns span as much as all of them do.
    have hrange : Submodule.span ℚ (Set.range m.toMatrix.col) =
        Submodule.span ℚ (Set.range fun j : b => m.toMatrix.col j) := by
      refine le_antisymm (Submodule.span_le.2 ?_) (Submodule.span_mono ?_)
      · rintro _ ⟨j, rfl⟩
        rw [← Set.image_eq_range]
        exact hspan ⟨j, Set.mem_univ j, rfl⟩
      · rintro _ ⟨j, rfl⟩
        exact ⟨j, rfl⟩
    rw [Matrix.rank_eq_finrank_span_cols, hrange, finrank_span_eq_card hindep, length_listed]
  · rw [h.independentColumns_iff, hset]
    exact hindep

end RowMatrix

end SimplexMethod
