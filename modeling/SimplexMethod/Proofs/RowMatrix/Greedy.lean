import Mathlib.Tactic
import SimplexMethod.Proofs.RowMatrix.Columns

/-!
# The selection of rows is greedy

What becomes of a row depends on the rows before it only. With tolerance zero it is left out exactly
when it is a combination of the rows kept before it (`greedy_of_keepFrom?`): a combination of rows
that are reduced vanishes when it vanishes at their pivots (`Echelon.eq_zero_of_mem`), so nothing is
left of it.

Reduced rows can be satisfied one after the other, from the last to the first, since the later ones
do not have the unknown at the pivot of the first (`Echelon.exists_satisfies`). So a system has a
solution unless the selection says that it is inconsistent (`independentRows?_eq_none_iff`).
-/

set_option autoImplicit false

namespace SimplexMethod

variable {F : Type}

/-- A change of one unknown changes the gap by its coefficient times the change. -/
theorem gap_add_single {n i : ℕ} (hi : i < n) (x v : ℕ → ℚ) (t : ℚ) :
    gap n (x + Pi.single i t) v = gap n x v + v i * t := by
  have hsingle : ∑ j ∈ Finset.range n, v j * (Pi.single i t : ℕ → ℚ) j = v i * t := by
    rw [Finset.sum_eq_single_of_mem i (Finset.mem_range.2 hi) fun j _ hne => by
      rw [Pi.single_eq_of_ne hne, mul_zero], Pi.single_eq_same]
  simp only [gap_apply, leftSide_apply, Pi.add_apply, mul_add, Finset.sum_add_distrib, hsingle]
  ring

namespace RowMatrix

/-- The rows that are kept of later ones come after those that were kept before. The induction is on
the rows that are left. -/
theorem exists_later_of_keepFrom? [Scalar F] {tolerance : F} {columns start : Nat}
    {rest : List (List F)} {kept result : List (KeptRow F)}
    (h : keepFrom? tolerance columns (rest.zipIdx start) kept = some (some result)) :
    ∃ later, result = kept ++ later ∧ ∀ k ∈ later, start ≤ k.position := by
  induction rest generalizing start kept with
  | nil =>
    obtain rfl : kept = result := Option.some.inj (Option.some.inj h)
    exact ⟨[], (List.append_nil _).symm, nofun⟩
  | cons row rest ih =>
    rw [List.zipIdx_cons, keepFrom?] at h
    obtain ⟨entries, -, h⟩ := Option.bind_eq_some_iff.1 h
    obtain ⟨choice, -, h⟩ := Option.bind_eq_some_iff.1 h
    cases choice with
    | some pivot =>
      obtain ⟨later, rfl, hlater⟩ := ih h
      refine ⟨_ :: later, List.append_assoc _ _ _, ?_⟩
      rw [List.forall_mem_cons]
      exact ⟨le_rfl, fun k hk => (Nat.le_succ start).trans (hlater k hk)⟩
    | none =>
      obtain ⟨value, -, h⟩ := Option.bind_eq_some_iff.1 h
      split at h
      · obtain ⟨later, rfl, hlater⟩ := ih h
        exact ⟨later, rfl, fun k hk => (Nat.le_succ start).trans (hlater k hk)⟩
      · cases Option.some.inj h

section Exact

variable {n : Nat} {row : List ℚ} {kept : List (KeptRow ℚ)}

/-! ## Reduced rows -/

/-- A combination of reduced rows that vanishes at their pivots is zero. -/
theorem Echelon.eq_zero_of_mem (h : Echelon n kept) {v : ℕ → ℚ}
    (hv : v ∈ rowSpan (kept.map KeptRow.entries)) (hpivots : ∀ k ∈ kept, v k.pivot = 0) :
    v = 0 := by
  induction kept generalizing v with
  | nil => simpa [rowSpan] using hv
  | cons k kept ih =>
    rw [List.map_cons, rowSpan_cons, Submodule.mem_span_insert] at hv
    obtain ⟨factor, w, hw, rfl⟩ := hv
    obtain ⟨hfirst, hothers⟩ := List.forall_mem_cons.1 hpivots
    -- At the first pivot only the first row contributes, so it has the factor zero.
    rw [Pi.add_apply, h.apply_pivot_eq_zero hw, add_zero, Pi.smul_apply, smul_eq_mul] at hfirst
    obtain rfl := (mul_eq_zero.1 hfirst).resolve_right (h.pivot_ne_zero k List.mem_cons_self)
    rw [zero_smul, zero_add] at hothers ⊢
    exact ih h.tail hw hothers

/-- Reduced rows can all be satisfied. The induction is on the rows: the unknown at the first pivot
settles the first row and takes no part in the others. -/
theorem Echelon.exists_satisfies (h : Echelon n kept) :
    ∃ x : ℕ → ℚ, ∀ k ∈ kept, gap n x (coeff k.entries) = 0 := by
  induction kept with
  | nil => exact ⟨0, nofun⟩
  | cons k kept ih =>
    obtain ⟨x, hx⟩ := ih h.tail
    have hpivot := (h.fits k List.mem_cons_self).2
    have hne := h.pivot_ne_zero k List.mem_cons_self
    have hcleared := (List.pairwise_cons.1 h.cleared).1
    refine ⟨x + Pi.single k.pivot (-gap n x (coeff k.entries) / coeff k.entries k.pivot), ?_⟩
    rw [List.forall_mem_cons]
    refine ⟨?_, fun later hlater => ?_⟩
    · rw [gap_add_single hpivot, mul_div_cancel₀ _ hne, add_neg_cancel]
    · rw [gap_add_single hpivot, hx later hlater, hcleared later hlater, zero_mul, add_zero]

/-- Nothing is left of a row exactly when it is a combination of the rows seen. -/
theorem Selects.reduceAll_eq_zero_iff {all seen : List (List ℚ)} (h : Selects n all seen kept)
    (hrow : row.length = n + 1) :
    coeff (reduceAll kept row) = 0 ↔ coeff row ∈ rowSpan seen := by
  have hdifference := h.reduceAll_sub_mem hrow
  constructor
  · intro hzero
    have hneg := Submodule.neg_mem _ hdifference
    rwa [hzero, zero_sub, neg_neg] at hneg
  · intro hmem
    have hsum := Submodule.add_mem _ hdifference hmem
    rw [sub_add_cancel, ← h.span_eq] at hsum
    exact h.echelon.eq_zero_of_mem hsum (coeff_reduceAll_pivot h.echelon hrow)

/-! ## The selection -/

/-- One row of a selection that does not end there: it is kept exactly when it is no combination of
the rows seen. -/
theorem Selects.next {all seen : List (List ℚ)} (h : Selects n all seen kept)
    (hget : all[seen.length]? = some row) (hrow : row.length = n + 1)
    {rest : List (List ℚ × Nat)} {result : List (KeptRow ℚ)}
    (hresult : keepFrom? 0 n ((row, seen.length) :: rest) kept = some (some result)) :
    ∃ new, Selects n all (seen ++ [row]) (kept ++ new) ∧
      (∀ k ∈ new, k.position = seen.length) ∧
      (seen.length ∈ new.map KeptRow.position ↔ coeff row ∉ rowSpan seen) ∧
      keepFrom? 0 n rest (kept ++ new) = some (some result) := by
  -- What is left of the row has a pivot, or is zero, or contradicts the rows seen; a selection that
  -- goes on to a result excludes the last.
  have hzeroIff := h.reduceAll_eq_zero_iff hrow
  obtain ⟨pivot, hpivot, hne, hstep⟩ | ⟨hzero, hstep⟩ | ⟨-, -, hstep⟩ :=
    keepFrom?_cons_cases h.echelon.fits hrow seen.length rest
  · refine ⟨[{ position := seen.length, pivot, entries := reduceAll kept row }],
      h.keep hget hrow hpivot hne, fun k hk => by rw [List.mem_singleton.1 hk], ?_,
      hstep.symm.trans hresult⟩
    have hnot : coeff row ∉ rowSpan seen := fun hmem => hne (congrFun (hzeroIff.2 hmem) pivot)
    exact iff_of_true List.mem_cons_self hnot
  · have hmem := hzeroIff.1 hzero
    rw [hstep] at hresult
    refine ⟨[], ?_, nofun, iff_of_false List.not_mem_nil (not_not_intro hmem), ?_⟩
    · rw [List.append_nil]
      exact h.pass hrow hzero
    · rwa [List.append_nil]
  · rw [hstep] at hresult
    cases Option.some.inj hresult

/-- The positions of rows seen are those that come before the first of the others. -/
theorem Selects.filter_position_lt {all seen : List (List ℚ)} (h : Selects n all seen kept)
    {later : List (KeptRow ℚ)} (hlater : ∀ k ∈ later, seen.length ≤ k.position) :
    ((kept ++ later).map KeptRow.position).filter (· < seen.length) =
      kept.map KeptRow.position := by
  rw [List.map_append, List.filter_append, List.filter_eq_self.2, List.filter_eq_nil_iff.2,
    List.append_nil]
  · simpa using hlater
  · simpa using h.position_lt

/-- Whether the row considered now is kept does not depend on what is kept before and after it. -/
theorem Selects.mem_position_iff {all seen : List (List ℚ)} (h : Selects n all seen kept)
    (new : List (KeptRow ℚ)) {later : List (KeptRow ℚ)}
    (hlater : ∀ k ∈ later, seen.length < k.position) :
    seen.length ∈ (kept ++ (new ++ later)).map KeptRow.position ↔
      seen.length ∈ new.map KeptRow.position := by
  have hbefore : seen.length ∉ kept.map KeptRow.position := by
    simpa using fun k hk => (h.position_lt k hk).ne
  have hbehind : seen.length ∉ later.map KeptRow.position := by
    simpa using fun k hk => (hlater k hk).ne'
  rw [List.map_append, List.map_append, List.mem_append, List.mem_append, or_iff_right hbefore,
    or_iff_left hbehind]

/-- A row that is left is kept exactly when it is no combination of the rows kept before it. The
induction is on the rows that are left. -/
theorem greedy_of_keepFrom? {all seen rest : List (List ℚ)} {result : List (KeptRow ℚ)}
    (hall : all = seen ++ rest) (hlength : ∀ r ∈ all, r.length = n + 1)
    (h : Selects n all seen kept)
    (hresult : keepFrom? 0 n (rest.zipIdx seen.length) kept = some (some result)) {i : ℕ}
    (hle : seen.length ≤ i) (hlt : i < all.length) :
    i ∈ result.map KeptRow.position ↔ coeff (all.getD i []) ∉
      rowSpan (((result.map KeptRow.position).filter (· < i)).map (all.getD · [])) := by
  induction rest generalizing seen kept with
  | nil => exact absurd hlt (by rw [hall, List.append_nil]; exact hle.not_gt)
  | cons row rest ih =>
    have hrow : row.length = n + 1 :=
      hlength row (hall ▸ List.mem_append_right _ List.mem_cons_self)
    have hget : all[seen.length]? = some row := by
      rw [hall, List.getElem?_append_right le_rfl, Nat.sub_self, List.getElem?_cons_zero]
    have hnext : (seen ++ [row]).length = seen.length + 1 := List.length_append
    rw [List.zipIdx_cons, ← hnext] at hresult
    obtain ⟨new, hselects, hnew, hmem, hrest⟩ := h.next hget hrow hresult
    rcases hle.eq_or_lt with rfl | hafter
    · -- The row is considered now, and what is kept later stands after it.
      obtain ⟨later, rfl, hlater⟩ := exists_later_of_keepFrom? hrest
      rw [hnext] at hlater
      have hothers : ∀ k ∈ new ++ later, seen.length ≤ k.position := by
        intro k hk
        rcases List.mem_append.1 hk with hk | hk
        · exact (hnew k hk).ge
        · exact Nat.le_of_succ_le (hlater k hk)
      have hspan : rowSpan ((kept.map KeptRow.position).map (all.getD · [])) = rowSpan seen := by
        rw [List.map_map]
        exact h.span_positions_eq
      rw [List.append_assoc, h.filter_position_lt hothers, hspan, List.getD_eq_getElem?_getD, hget,
        Option.getD_some, ← hmem, h.mem_position_iff new hlater]
    · exact ih (by rw [hall, List.append_assoc, List.singleton_append]) hselects hrest
        (hnext ▸ hafter)

end Exact

/-! ## Systems of equations -/

section Equations

variable {m : RowMatrix ℚ} {rhs : List ℚ}

/-- A system from which rows were selected has a solution. -/
theorem Selects.exists_solution {kept : List (KeptRow ℚ)} (h : m.Rectangular)
    (hrhs : rhs.length = m.rowCount)
    (hkept : Selects m.columns (m.augmented rhs) (m.augmented rhs) kept) :
    ∃ x : List ℚ, x.length = m.columns ∧ m.mulVector x = rhs := by
  obtain ⟨x, hx⟩ := hkept.echelon.exists_satisfies
  obtain ⟨y, hlen, hy⟩ := exists_coeff_eq fun j : Fin m.columns => x j
  refine ⟨y, hlen, (h.gap_eq_zero_iff hrhs hlen).1 ?_⟩
  rw [← hkept.span_eq, forall_mem_rowSpan_iff, List.forall_mem_map]
  intro k hk
  rw [gap_congr (y := x) fun j hj => hy ⟨j, hj⟩]
  exact hx k hk

/-- The selection says that a system is inconsistent exactly when it has no solution, of any
sign. -/
theorem independentRows?_eq_none_iff (h : m.Rectangular) (hrhs : rhs.length = m.rowCount) :
    m.independentRows? rhs 0 = some none ↔
      ¬ ∃ x : List ℚ, x.length = m.columns ∧ m.mulVector x = rhs := by
  obtain ⟨result, hresult, hrows⟩ := h.exists_keepFrom? rhs 0
  obtain ⟨hsome, hnone⟩ := selects_of_keepFrom? (List.nil_append _).symm
    (fun row hrow => h.length_of_mem_augmented hrow) Selects.nil hresult
  rw [hrows]
  cases result with
  | none =>
    refine iff_of_true rfl ?_
    rintro ⟨x, hlen, hx⟩
    exact (hnone rfl).mulVector_ne h hrhs hlen hx
  | some kept =>
    exact iff_of_false nofun (not_not_intro ((hsome kept rfl).exists_solution h hrhs))

/-- An equation is left out exactly when it is a combination of those kept before it. -/
theorem notMem_independentRows?_iff (h : m.Rectangular) (hrhs : rhs.length = m.rowCount)
    {positions : List ℕ} (hrows : m.independentRows? rhs 0 = some (some positions)) {i : ℕ}
    (hi : i < m.rowCount) :
    i ∉ positions ↔ coeff ((m.augmented rhs).getD i []) ∈
      rowSpan ((positions.filter (· < i)).map ((m.augmented rhs).getD · [])) := by
  obtain ⟨result, hresult, hsame⟩ := h.exists_keepFrom? rhs 0
  rw [hrows, Option.some.injEq, eq_comm] at hsame
  obtain ⟨kept, rfl, rfl⟩ := Option.map_eq_some_iff.1 hsame
  have hgreedy := greedy_of_keepFrom? (i := i) (List.nil_append _).symm
    (fun row hrow => h.length_of_mem_augmented hrow) Selects.nil hresult (Nat.zero_le i)
    ((length_augmented hrhs).symm ▸ hi)
  rw [hgreedy, not_not]

end Equations

end RowMatrix

end SimplexMethod
