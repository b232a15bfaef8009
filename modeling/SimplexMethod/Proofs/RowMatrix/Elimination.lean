import Mathlib.Tactic
import SimplexMethod.Proofs.RowMatrix.Span
import SimplexMethod.RowMatrix.Elimination

/-!
# Square systems

Elimination of a square system never fails, whatever the scalars are (`exists_solve?`): the rows
left at a stage with `k` unknowns all have `k + 1` entries. Over the rationals a solution that it
gives is the only one (`mulVector_eq_iff_of_solve?`), and with tolerance zero it gives none only
when some combination of the columns vanishes (`exists_kernel_of_solve?`).

A stage exchanges rows and takes multiples of the pivot row off the others (`triangle?_succ`).
Where the pivot row is satisfied, that changes no gap of another row (`gap_eliminate`), so the
statements about a stage follow from those about the next one.
-/

set_option autoImplicit false

namespace SimplexMethod

variable {F : Type}

namespace RowMatrix

/-! ## Stages -/

/-- The exchanged row and the others are the given rows in another order. -/
theorem exists_exchange? {rows : List (List F)} {i : Nat} {row : List F}
    (hrow : rows[i]? = some row) :
    ∃ below, exchange? rows i = some (row, below) ∧ (row :: below).Perm rows := by
  cases rows with
  | nil => cases hrow
  | cons first rest =>
    cases i with
    | zero =>
      obtain rfl : first = row := Option.some.inj hrow
      exact ⟨rest, rfl, List.Perm.refl _⟩
    | succ i =>
      rw [List.getElem?_cons_succ] at hrow
      obtain ⟨hi, rfl⟩ := List.getElem?_eq_some_iff.1 hrow
      refine ⟨rest.set i first, ?_, ?_⟩
      · rw [exchange?, List.getElem?_eq_getElem hi]
        rfl
      · have hset := List.set_perm_cons_eraseIdx hi first
        have herase := List.getElem_cons_eraseIdx_perm hi
        exact (hset.cons _).trans ((List.Perm.swap _ _ _).trans (herase.cons _))

section Stages

variable [Scalar F] {tolerance : F} {count : Nat} {rows : List (List F)}

/-- A row below the pivot row without its first entry, after the multiple of the pivot row that
clears it was taken off; the value of `eliminate?` for rows of the right lengths. -/
def eliminate (pivotRow row : List F) : List F :=
  let factor := coeff row 0 / coeff pivotRow 0
  if factor == 0 then row.tail
  else List.zipWith (fun p entry => entry - factor * p) pivotRow.tail row.tail

theorem eliminate?_eq {width : Nat} {pivotRow row : List F} (hpivot : pivotRow.length = width + 1)
    (hrow : row.length = width + 1) :
    eliminate? width pivotRow row = some (eliminate pivotRow row) := by
  obtain ⟨pivot, pivots, rfl⟩ := List.exists_cons_of_length_eq_add_one hpivot
  obtain ⟨first, entries, rfl⟩ := List.exists_cons_of_length_eq_add_one hrow
  rw [List.length_cons, Nat.add_right_cancel_iff] at hpivot hrow
  have hlong : ¬ (pivots.length < width ∨ entries.length < width) := by omega
  by_cases hzero : (first / pivot == 0) = true
  · simp [eliminate?, eliminate, hzero]
  · simp [eliminate?, eliminate, hzero, hlong]

theorem length_eliminate {pivotRow row : List F} (h : pivotRow.length = row.length) :
    (eliminate pivotRow row).length = row.length - 1 := by
  unfold eliminate
  dsimp only
  split
  · exact List.length_tail
  · rw [List.length_zipWith, List.length_tail, List.length_tail, h, Nat.min_self]

/-- A stage chooses a pivot row whose first entry is the last of the greatest magnitude, and ends
when that is negligible. -/
theorem triangle?_succ (hlen : rows.length = count + 1)
    (hrows : ∀ row ∈ rows, row.length = count + 2) :
    ∃ row below position, (row :: below).Perm rows ∧
      lastGreatest? (fun entry => Scalar.abs entry.1) ((rows.map (coeff · 0)).zipIdx) =
        some (coeff row 0, position) ∧
      ∀ tolerance, triangle? tolerance (count + 1) rows =
        if Scalar.Negligible tolerance (coeff row 0) then some none
        else (triangle? tolerance count (below.map (eliminate row))).map (·.map (row :: ·)) := by
  have hfirsts : rows.mapM List.head? = some (rows.map (coeff · 0)) := by
    apply mapM_eq_some_map
    intro row hrow
    rw [List.head?_eq_getElem?]
    exact getElem?_eq_coeff (by have := hrows row hrow; omega)
  obtain ⟨⟨pivot, position⟩, hgreatest⟩ : ∃ choice, lastGreatest?
      (fun entry => Scalar.abs entry.1) ((rows.map (coeff · 0)).zipIdx) = some choice := by
    apply Option.ne_none_iff_exists'.1
    intro hnone
    have hnil := congrArg List.length (survivor?_eq_none_iff.1 hnone)
    rw [List.length_zipIdx, List.length_map, hlen] at hnil
    cases hnil
  -- The choice comes with its position, and so with the row it is the first entry of.
  have hpivot := List.mem_zipIdx_iff_getElem?.1 (mem_of_survivor? hgreatest)
  rw [List.getElem?_map] at hpivot
  obtain ⟨row, hrow, rfl⟩ := Option.map_eq_some_iff.1 hpivot
  obtain ⟨below, hexchange, hperm⟩ := exists_exchange? hrow
  have hlengths : ∀ r ∈ row :: below, r.length = count + 2 :=
    fun r hr => hrows r (hperm.mem_iff.1 hr)
  have hbelow : below.mapM (eliminate? (count + 1) row) = some (below.map (eliminate row)) :=
    mapM_eq_some_map fun r hr => eliminate?_eq (hlengths row List.mem_cons_self)
      (hlengths r (List.mem_cons_of_mem _ hr))
  refine ⟨row, below, position, hperm, hgreatest, fun tolerance => ?_⟩
  simp only [triangle?, hfirsts, hgreatest, hexchange, hbelow, Option.bind_eq_bind,
    Option.bind_some, Option.pure_def]
  split
  · rfl
  · rw [Option.map_eq_bind]
    rfl

/-- The rows after elimination, as many as there are unknowns left and each with its right-hand
side. -/
theorem below_of_perm {row : List F} {below : List (List F)} (hperm : (row :: below).Perm rows)
    (hlen : rows.length = count + 1) (hrows : ∀ row ∈ rows, row.length = count + 2) :
    (below.map (eliminate row)).length = count ∧
      ∀ r ∈ below.map (eliminate row), r.length = count + 1 := by
  have hlengths : ∀ r ∈ row :: below, r.length = count + 2 :=
    fun r hr => hrows r (hperm.mem_iff.1 hr)
  have htotal := hperm.length_eq
  rw [List.length_cons, hlen, Nat.add_right_cancel_iff] at htotal
  refine ⟨by rw [List.length_map, htotal], fun r hr => ?_⟩
  obtain ⟨s, hs, rfl⟩ := List.mem_map.1 hr
  have hs' := hlengths s (List.mem_cons_of_mem _ hs)
  rw [length_eliminate ((hlengths row List.mem_cons_self).trans hs'.symm), hs']
  rfl

/-! ## Triangles -/

/-- The rows start on the diagonal and end with their right-hand sides. -/
def Triangular : Nat → List (List F) → Prop
  | 0, rows => rows = []
  | count + 1, rows => ∃ row below, rows = row :: below ∧ row.length = count + 2 ∧
      Triangular count below

theorem exists_triangle? (tolerance : F) (hlen : rows.length = count)
    (hrows : ∀ row ∈ rows, row.length = count + 1) :
    ∃ result, triangle? tolerance count rows = some result ∧
      ∀ triangle, result = some triangle → Triangular count triangle := by
  induction count generalizing rows with
  | zero => exact ⟨some [], rfl, fun triangle h => (Option.some.inj h).symm⟩
  | succ count ih =>
    obtain ⟨row, below, position, hperm, -, hstage⟩ :=
      triangle?_succ hlen hrows
    obtain ⟨hlen', hrows'⟩ := below_of_perm hperm hlen hrows
    obtain ⟨rest, hrest, htriangle⟩ := ih hlen' hrows'
    rw [hstage, hrest]
    split
    · exact ⟨none, rfl, nofun⟩
    · refine ⟨_, rfl, fun triangle h => ?_⟩
      obtain ⟨lower, rfl, rfl⟩ := Option.map_eq_some_iff.1 h
      exact ⟨row, lower, rfl, hrows row (hperm.mem_iff.1 List.mem_cons_self), htriangle lower rfl⟩

theorem backSubstitute?_cons {row x : List F} {below : List (List F)}
    (hx : backSubstitute? below = some x) (hrow : row.length = x.length + 2) :
    backSubstitute? (row :: below) =
      some ((coeff row (x.length + 1) - Scalar.dot row.tail x) / coeff row 0 :: x) := by
  have hdiagonal : row.head? = some (coeff row 0) := by
    rw [List.head?_eq_getElem?]
    exact getElem?_eq_coeff (by omega)
  have hvalue : row[x.length + 1]? = some (coeff row (x.length + 1)) :=
    getElem?_eq_coeff (by omega)
  simp only [backSubstitute?, hx, hdiagonal, hvalue, Option.bind_eq_bind, Option.bind_some]
  rfl

theorem exists_backSubstitute? {triangle : List (List F)} (h : Triangular count triangle) :
    ∃ x, backSubstitute? triangle = some x ∧ x.length = count := by
  induction count generalizing triangle with
  | zero =>
    obtain rfl : triangle = [] := h
    exact ⟨[], rfl, rfl⟩
  | succ count ih =>
    obtain ⟨row, below, rfl, hrow, hbelow⟩ := h
    obtain ⟨x, hx, hlen⟩ := ih hbelow
    exact ⟨_, backSubstitute?_cons hx (by omega), by rw [List.length_cons, hlen]⟩

/-- Elimination of a square system never fails. -/
theorem exists_solve? (tolerance : F) {m : RowMatrix F} {rhs : List F} (h : m.Rectangular)
    (hsquare : m.columns = m.rowCount) (hrhs : rhs.length = m.rowCount) :
    ∃ result, m.solve? rhs tolerance = some result ∧
      ∀ x, result = some x → x.length = m.columns := by
  obtain ⟨result, hresult, htriangle⟩ := exists_triangle? tolerance
    (length_augmented hrhs) fun row hrow => hsquare ▸ h.length_of_mem_augmented hrow
  rw [augmented] at hresult
  rw [solve?, if_neg (by omega)]
  simp only [hresult, Option.bind_eq_bind, Option.bind_some]
  cases result with
  | none => exact ⟨none, rfl, fun x hx => by cases hx⟩
  | some triangle =>
    obtain ⟨x, hx, hlen⟩ := exists_backSubstitute? (htriangle triangle rfl)
    refine ⟨some x, ?_, fun y hy => ?_⟩
    · simp only [hx, Option.bind_some]
      rfl
    · rw [← Option.some.inj hy, hlen, hsquare]

end Stages

/-! ## Exact stages -/

section Exact

variable {tolerance : ℚ} {count : Nat} {rows : List (List ℚ)}

theorem forall_mem_perm {α : Type} {P : α → Prop} {xs ys : List α} (h : xs.Perm ys) :
    (∀ x ∈ xs, P x) ↔ ∀ y ∈ ys, P y :=
  forall_congr' fun _ => imp_congr_left h.mem_iff

theorem coeff_tail (row : List ℚ) (j : Nat) : coeff row.tail j = coeff row (j + 1) := by
  cases row with
  | nil => rfl
  | cons first entries => rfl

/-- An equation in one unknown less, without the term of the first one. -/
theorem leftSide_shift (n : Nat) (a : ℚ) (x : List ℚ) (v : ℕ → ℚ) :
    leftSide n (coeff x) (fun j => v (j + 1)) = leftSide (n + 1) (coeff (a :: x)) v - v 0 * a := by
  rw [leftSide_apply, leftSide_apply, Finset.sum_range_succ', coeff_cons_zero, add_sub_cancel_right]
  rfl

theorem gap_shift (n : Nat) (a : ℚ) (x : List ℚ) (v : ℕ → ℚ) :
    gap n (coeff x) (fun j => v (j + 1)) = gap (n + 1) (coeff (a :: x)) v - v 0 * a := by
  rw [gap_apply, gap_apply, leftSide_shift n a]
  ring

theorem coeff_eliminate {pivotRow row : List ℚ} (h : pivotRow.length = row.length) :
    coeff (eliminate pivotRow row) =
      fun j => (coeff row - (coeff row 0 / coeff pivotRow 0) • coeff pivotRow) (j + 1) := by
  funext j
  simp only [Pi.sub_apply, Pi.smul_apply, smul_eq_mul]
  unfold eliminate
  dsimp only
  split
  · next hzero =>
    rw [beq_iff_eq] at hzero
    rw [hzero, coeff_tail]
    ring
  · rw [coeff_zipWith (by ring) (by rw [List.length_tail, List.length_tail, h]), coeff_tail,
      coeff_tail]

theorem clearedEntry {pivotRow row : List ℚ} (hpivot : coeff pivotRow 0 ≠ 0) :
    (coeff row - (coeff row 0 / coeff pivotRow 0) • coeff pivotRow) 0 = 0 := by
  rw [Pi.sub_apply, Pi.smul_apply, smul_eq_mul, div_mul_cancel₀ _ hpivot, sub_self]

theorem leftSide_eliminate {pivotRow row : List ℚ} (h : pivotRow.length = row.length)
    (hpivot : coeff pivotRow 0 ≠ 0) (n : Nat) (a : ℚ) (x : List ℚ) :
    leftSide n (coeff x) (coeff (eliminate pivotRow row)) =
      leftSide (n + 1) (coeff (a :: x)) (coeff row) -
        coeff row 0 / coeff pivotRow 0 * leftSide (n + 1) (coeff (a :: x)) (coeff pivotRow) := by
  rw [coeff_eliminate h, leftSide_shift n a, clearedEntry hpivot, zero_mul, sub_zero, map_sub,
    map_smul, smul_eq_mul]

/-- Where the pivot row is satisfied, a row and the row it becomes have the same gap. -/
theorem gap_eliminate {pivotRow row : List ℚ} (h : pivotRow.length = row.length)
    (hpivot : coeff pivotRow 0 ≠ 0) (n : Nat) (a : ℚ) (x : List ℚ) :
    gap n (coeff x) (coeff (eliminate pivotRow row)) =
      gap (n + 1) (coeff (a :: x)) (coeff row) -
        coeff row 0 / coeff pivotRow 0 * gap (n + 1) (coeff (a :: x)) (coeff pivotRow) := by
  rw [coeff_eliminate h, gap_shift n a, clearedEntry hpivot, zero_mul, sub_zero, map_sub,
    map_smul, smul_eq_mul]

/-- The first unknown is what the pivot row says about it. -/
theorem gap_cons_eq_zero_iff {row x : List ℚ} (hpivot : coeff row 0 ≠ 0) (a : ℚ) :
    gap (x.length + 1) (coeff (a :: x)) (coeff row) = 0 ↔
      a = (coeff row (x.length + 1) - Scalar.dot row.tail x) / coeff row 0 := by
  have hdot : Scalar.dot row.tail x = leftSide x.length (coeff x) fun j => coeff row (j + 1) := by
    rw [leftSide_apply, dot_eq_sum (n := x.length) (min_le_right _ _)]
    simp only [coeff_tail]
  have hshift := leftSide_shift x.length a x (coeff row)
  rw [gap_apply, hdot, hshift, eq_div_iff hpivot]
  constructor <;> intro h <;> linarith

/-- What back substitution gives is the only solution of the rows of a stage. The induction is on
the unknowns that are left. -/
theorem satisfied_iff_of_triangle? (htolerance : 0 ≤ tolerance) (hlen : rows.length = count)
    (hrows : ∀ row ∈ rows, row.length = count + 1) {triangle : List (List ℚ)}
    (h : triangle? tolerance count rows = some (some triangle)) :
    ∃ x, backSubstitute? triangle = some x ∧ x.length = count ∧
      ∀ y : List ℚ, y.length = count →
        ((∀ row ∈ rows, gap count (coeff y) (coeff row) = 0) ↔ y = x) := by
  induction count generalizing rows triangle with
  | zero =>
    cases h
    refine ⟨[], rfl, rfl, fun y hy => ?_⟩
    obtain rfl := List.eq_nil_of_length_eq_zero hlen
    simp [List.eq_nil_of_length_eq_zero hy]
  | succ count ih =>
    obtain ⟨row, below, position, hperm, -, hstage⟩ :=
      triangle?_succ hlen hrows
    obtain ⟨hlen', hrows'⟩ := below_of_perm hperm hlen hrows
    rw [hstage] at h
    split at h
    · cases h
    · next hpivot =>
      have hne : coeff row 0 ≠ 0 := by
        intro hzero
        rw [hzero, Scalar.negligible_iff, abs_zero] at hpivot
        exact hpivot htolerance
      obtain ⟨result, hresult, h⟩ := Option.map_eq_some_iff.1 h
      obtain ⟨lower, rfl, rfl⟩ := Option.map_eq_some_iff.1 h
      obtain ⟨x, hx, rfl, hunique⟩ := ih hlen' hrows' hresult
      have hrow := hrows row (hperm.mem_iff.1 List.mem_cons_self)
      refine ⟨_, backSubstitute?_cons hx hrow, rfl, fun y hy => ?_⟩
      obtain ⟨b, ys, rfl⟩ := List.exists_cons_of_length_eq_add_one hy
      rw [List.length_cons, Nat.add_right_cancel_iff] at hy
      -- Once the pivot row is satisfied, a row is when what becomes of it is.
      have hbelow (hfirst : gap (x.length + 1) (coeff (b :: ys)) (coeff row) = 0) :
          (∀ r ∈ below, gap (x.length + 1) (coeff (b :: ys)) (coeff r) = 0) ↔ ys = x := by
        rw [← hunique ys hy, List.forall_mem_map]
        apply forall₂_congr
        intro r hr
        have hr' := hrows r (hperm.mem_iff.1 (List.mem_cons_of_mem _ hr))
        rw [gap_eliminate (hrow.trans hr'.symm) hne x.length b ys, hfirst, mul_zero, sub_zero]
      rw [← forall_mem_perm hperm, List.forall_mem_cons, List.cons.injEq]
      constructor
      · rintro ⟨hfirst, hrest⟩
        obtain rfl := (hbelow hfirst).1 hrest
        exact ⟨(gap_cons_eq_zero_iff hne b).1 hfirst, rfl⟩
      · rintro ⟨hb, rfl⟩
        have hfirst := (gap_cons_eq_zero_iff hne b).2 hb
        exact ⟨hfirst, (hbelow hfirst).2 rfl⟩

/-- When the first entry of the greatest magnitude is zero, all first entries are. -/
theorem coeff_zero_eq_zero {first : ℚ} {position : Nat}
    (hgreatest : lastGreatest? (fun entry => Scalar.abs entry.1)
      ((rows.map (coeff · 0)).zipIdx) = some (first, position))
    (hfirst : first = 0) : ∀ row ∈ rows, coeff row 0 = 0 := by
  intro row hrow
  obtain ⟨i, hi, rfl⟩ := List.getElem_of_mem hrow
  have hmem : (coeff rows[i] 0, i) ∈ (rows.map (coeff · 0)).zipIdx := by
    rw [List.mem_zipIdx_iff_getElem?, List.getElem?_map, List.getElem?_eq_getElem hi]
    rfl
  have hle := le_lastGreatest? hgreatest _ hmem
  rw [Scalar.abs_eq, Scalar.abs_eq, hfirst, abs_zero] at hle
  exact abs_nonpos_iff.1 hle

/-- The first unknown can be chosen so that the left-hand side of the pivot row vanishes. -/
theorem exists_first {row : List ℚ} (hpivot : coeff row 0 ≠ 0) (z : List ℚ) :
    ∃ first, leftSide (z.length + 1) (coeff (first :: z)) (coeff row) = 0 := by
  refine ⟨-leftSide z.length (coeff z) (fun k => coeff row (k + 1)) / coeff row 0, ?_⟩
  have hshift := leftSide_shift z.length
    (-leftSide z.length (coeff z) (fun k => coeff row (k + 1)) / coeff row 0) z (coeff row)
  rw [mul_div_cancel₀ _ hpivot] at hshift
  linarith

/-- When elimination comes to an end early, some combination of the columns vanishes. -/
theorem exists_kernel_of_triangle? (hlen : rows.length = count)
    (hrows : ∀ row ∈ rows, row.length = count + 1)
    (h : triangle? (0 : ℚ) count rows = some none) :
    ∃ z : List ℚ, z.length = count ∧ (∃ j, coeff z j ≠ 0) ∧
      ∀ row ∈ rows, leftSide count (coeff z) (coeff row) = 0 := by
  induction count generalizing rows with
  | zero => cases h
  | succ count ih =>
    obtain ⟨row, below, position, hperm, hgreatest, hstage⟩ :=
      triangle?_succ hlen hrows
    obtain ⟨hlen', hrows'⟩ := below_of_perm hperm hlen hrows
    have hlengths : ∀ r ∈ row :: below, r.length = count + 2 :=
      fun r hr => hrows r (hperm.mem_iff.1 hr)
    rw [hstage] at h
    split at h
    · next hpivot =>
      -- All first entries are zero, so the first unknown is free.
      rw [Scalar.negligible_zero_iff] at hpivot
      have hfirsts := coeff_zero_eq_zero hgreatest hpivot
      refine ⟨1 :: List.replicate count 0, by simp, ⟨0, by simp⟩, fun r hr => ?_⟩
      have hshift := leftSide_shift count 1 (List.replicate count 0) (coeff r)
      rw [hfirsts r hr, zero_mul, sub_zero] at hshift
      rw [← hshift, leftSide_apply]
      apply Finset.sum_eq_zero
      intro j hj
      rw [coeff_of_getElem? (List.getElem?_replicate_of_lt (Finset.mem_range.1 hj)), mul_zero]
    · next hpivot =>
      rw [Scalar.negligible_zero_iff] at hpivot
      obtain ⟨result, hresult, h⟩ := Option.map_eq_some_iff.1 h
      obtain rfl := Option.map_eq_none_iff.1 h
      obtain ⟨z, rfl, ⟨j, hj⟩, hzero⟩ := ih hlen' hrows' hresult
      obtain ⟨first, hrow⟩ := exists_first hpivot z
      refine ⟨first :: z, rfl, ⟨j + 1, hj⟩, ?_⟩
      rw [← forall_mem_perm hperm, List.forall_mem_cons]
      refine ⟨hrow, fun r hr => ?_⟩
      have hequal := (hlengths row List.mem_cons_self).trans
        (hlengths r (List.mem_cons_of_mem _ hr)).symm
      have heliminate := hzero _ (List.mem_map_of_mem hr)
      rwa [leftSide_eliminate hequal hpivot z.length first z, hrow, mul_zero, sub_zero]
        at heliminate

/-! ## Exact solutions -/

variable {m : RowMatrix ℚ} {rhs x : List ℚ}

/-- A solution that elimination gives is the only one. -/
theorem mulVector_eq_iff_of_solve? (htolerance : 0 ≤ tolerance) (h : m.Rectangular)
    (hsquare : m.columns = m.rowCount) (hrhs : rhs.length = m.rowCount)
    (hsolve : m.solve? rhs tolerance = some (some x)) :
    x.length = m.columns ∧ ∀ y : List ℚ, y.length = m.columns → (m.mulVector y = rhs ↔ y = x) := by
  rw [solve?, if_neg (by omega)] at hsolve
  obtain ⟨result, hresult, hsolve⟩ := Option.bind_eq_some_iff.1 hsolve
  cases result with
  | none => cases hsolve
  | some triangle =>
    obtain ⟨x', hx', hlen, hunique⟩ := satisfied_iff_of_triangle? htolerance (length_augmented hrhs)
      (fun row hrow => hsquare ▸ h.length_of_mem_augmented hrow) hresult
    simp only [hx', Option.bind_eq_bind, Option.bind_some] at hsolve
    obtain rfl : x' = x := Option.some.inj (Option.some.inj hsolve)
    refine ⟨hlen.trans hsquare.symm, fun y hy => ?_⟩
    rw [← hunique y (hy.trans hsquare), ← h.gap_eq_zero_iff hrhs hy, forall_mem_rowSpan_iff,
      hsquare]

/-- With tolerance zero, elimination gives no solution only when the columns are dependent. -/
theorem exists_kernel_of_solve? (h : m.Rectangular) (hsquare : m.columns = m.rowCount)
    (hrhs : rhs.length = m.rowCount) (hsolve : m.solve? rhs 0 = some none) :
    ∃ z : List ℚ, z.length = m.columns ∧ (∃ j, coeff z j ≠ 0) ∧
      ∀ row ∈ m.rows, Scalar.dot row z = 0 := by
  rw [solve?, if_neg (by omega)] at hsolve
  obtain ⟨result, hresult, hsolve⟩ := Option.bind_eq_some_iff.1 hsolve
  cases result with
  | some triangle =>
    obtain ⟨x, -, hsolve⟩ := Option.bind_eq_some_iff.1 hsolve
    cases hsolve
  | none =>
    obtain ⟨z, hlen, hne, hzero⟩ := exists_kernel_of_triangle? (length_augmented hrhs)
      (fun row hrow => hsquare ▸ h.length_of_mem_augmented hrow) hresult
    have hlen' := hlen.trans hsquare.symm
    refine ⟨z, hlen', hne, (h.leftSide_eq_zero_iff hrhs hlen').1 ?_⟩
    rw [forall_mem_rowSpan_iff, hsquare]
    exact hzero

end Exact

end RowMatrix

end SimplexMethod
