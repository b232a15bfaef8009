import Mathlib.Tactic
import SimplexMethod.Proofs.RowMatrix.Elimination
import SimplexMethod.Proofs.RowMatrix.Minors

/-!
# Elimination within a tolerance

When the rows of a system are integers and the determinants of its coefficients are bounded, a
tolerance that is small compared with the bound makes no difference to the elimination of a square
system (`solve?_eq_of_scaled`) nor to the selection of independent rows
(`independentRows?_eq_of_scaled`).

The invariant is `Scaled`: with one denominator for all rows that are left, their determinants are
integers, and among the coefficients they are bounded. Clearing a column with a row multiplies the
denominator by the entry at which that is done, because a determinant of the cleared rows times that
entry is a determinant of one more row and one more column of the rows before (`det_condense`).
-/

set_option autoImplicit false

namespace SimplexMethod

namespace RowMatrix

open Matrix

variable {D q tolerance : ℚ} {n k : ℕ} {rows : List (List ℚ)} {row : List ℚ}

/-! ## Condensation -/

/-- A row, and below it other rows from which column `c` was cleared with it. -/
def condensed (row : List ℚ) (c : ℕ) (f : Fin k → List ℚ) (g : Fin (k + 1) → ℕ) :
    Matrix (Fin (k + 1)) (Fin (k + 1)) ℚ :=
  Matrix.of fun i j => i.cases (coeff row (g j)) fun i =>
    coeff (f i) (g j) - coeff (f i) c / coeff row c * coeff row (g j)

theorem det_condensed (row : List ℚ) (c : ℕ) (f : Fin k → List ℚ) (g : Fin (k + 1) → ℕ) :
    (condensed row c f g).det = (block (Fin.cons row f) g).det := by
  refine (det_eq_of_forall_row_eq_smul_add_const
    (Fin.cons 0 fun i => coeff (f i) c / coeff row c) 0 rfl fun i j => ?_).symm
  induction i using Fin.cases with
  | zero => simp [condensed, block]
  | succ i => simp [condensed, block]

/-- A determinant of rows from which a column was cleared is one of the rows before, with the row
that cleared them and the column in addition, divided by the entry at which this was done. The
columns may have moved in the meantime. -/
theorem det_condense {f f' : Fin k → List ℚ} {g g' : Fin k → ℕ} {c : ℕ} (hne : coeff row c ≠ 0)
    (hclear : ∀ i j, coeff (f' i) (g' j) =
      coeff (f i) (g j) - coeff (f i) c / coeff row c * coeff row (g j)) :
    coeff row c * (block f' g').det = (block (Fin.cons row f) (Fin.cons c g)).det := by
  have hfirst : condensed row c f (Fin.cons c g) 0 0 = coeff row c := rfl
  have hbelow (i : Fin k) : condensed row c f (Fin.cons c g) i.succ 0 = 0 := by
    simp [condensed, div_mul_cancel₀ _ hne]
  have hminor : (condensed row c f (Fin.cons c g)).submatrix (Fin.succAbove 0) Fin.succ =
      block f' g' := by
    ext i j
    simp [condensed, block, hclear]
  -- The column has nothing below its first entry.
  rw [← det_condensed row c, det_succ_column_zero, Fin.sum_univ_succ, hminor]
  simp [hfirst, hbelow]

/-! ## Scaled rows -/

/-- With the common denominator `q`, all determinants of the rows are integers, and those in the
first `n` columns are bounded. -/
structure Scaled (D q : ℚ) (n : ℕ) (rows : List (List ℚ)) : Prop where
  ne_zero : q ≠ 0
  integral : ∀ {k : ℕ} (f : Fin k → List ℚ) (g : Fin k → ℕ), (∀ i, f i ∈ rows) →
    q * (block f g).det ∈ integers
  bounded : ∀ {k : ℕ} (f : Fin k → List ℚ) (g : Fin k → ℕ), (∀ i, f i ∈ rows) →
    (∀ j, g j < n) → |q * (block f g).det| ≤ D

namespace Scaled

/-- Rows of integers are scaled. -/
theorem of_integers (hrows : ∀ row ∈ rows, ∀ j, coeff row j ∈ integers)
    (hbound : ∀ {k : ℕ} (f : Fin k → List ℚ) (g : Fin k → ℕ), (∀ i, f i ∈ rows) →
      (∀ j, g j < n) → |(block f g).det| ≤ D) : Scaled D 1 n rows where
  ne_zero := one_ne_zero
  integral := by
    intro k f g hf
    rw [one_mul]
    exact det_mem_integers fun i j => hrows _ (hf i) _
  bounded := by
    intro k f g hf hg
    rw [one_mul]
    exact hbound f g hf hg

theorem mono (h : Scaled D q n rows) {others : List (List ℚ)} (hsub : ∀ r ∈ others, r ∈ rows) :
    Scaled D q n others where
  ne_zero := h.ne_zero
  integral := fun f g hf => h.integral f g fun i => hsub _ (hf i)
  bounded := fun f g hf hg => h.bounded f g (fun i => hsub _ (hf i)) hg

/-- The denominator itself is the determinant without rows. -/
theorem abs_le (h : Scaled D q n rows) : |q| ≤ D := by
  have hempty := h.bounded (k := 0) Fin.elim0 Fin.elim0 (fun i => i.elim0) fun j => j.elim0
  rwa [det_fin_zero, mul_one] at hempty

/-- A tolerance that is small compared with the bound resolves all entries. -/
theorem resolved (h : Scaled D q n rows) (htolerance : 0 ≤ tolerance)
    (hsmall : tolerance * D < 1) (hrow : row ∈ rows) (j : ℕ) :
    Scalar.Resolved tolerance (coeff row j) := by
  refine Scalar.Resolved.of_mul_mem h.ne_zero ?_
    ((mul_le_mul_of_nonneg_left h.abs_le htolerance).trans_lt hsmall)
  have hentry := h.integral (k := 1) (fun _ => row) (fun _ => j) fun _ => hrow
  rwa [det_fin_one] at hentry

/-- Clearing a column of the coefficients keeps rows scaled. Afterwards the columns may be counted
from another one. -/
theorem clear (h : Scaled D q n rows) (hrow : row ∈ rows) {c : ℕ} (hc : c < n)
    (hne : coeff row c ≠ 0) {cleared : List (List ℚ)} (shift : ℕ) {n' : ℕ} (hn : n' + shift ≤ n)
    (hclear : ∀ r' ∈ cleared, ∃ r ∈ rows, ∀ j, coeff r' j =
      coeff r (j + shift) - coeff r c / coeff row c * coeff row (j + shift)) :
    Scaled D (q * coeff row c) n' cleared := by
  -- A determinant of the cleared rows is one of the rows before, with the new denominator.
  have hdet {k : ℕ} (f' : Fin k → List ℚ) (g : Fin k → ℕ) (hf' : ∀ i, f' i ∈ cleared) :
      ∃ f : Fin (k + 1) → List ℚ, (∀ i, f i ∈ rows) ∧ q * coeff row c * (block f' g).det =
        q * (block f (Fin.cons c fun j => g j + shift)).det := by
    choose f hf hcoeff using fun i => hclear _ (hf' i)
    refine ⟨Fin.cons row f, Fin.cases hrow hf, ?_⟩
    rw [mul_assoc, det_condense (g := fun j => g j + shift) hne fun i j => hcoeff i (g j)]
  refine ⟨mul_ne_zero h.ne_zero hne, fun f' g hf' => ?_, fun f' g hf' hg => ?_⟩
  · obtain ⟨f, hf, heq⟩ := hdet f' g hf'
    rw [heq]
    exact h.integral f _ hf
  · obtain ⟨f, hf, heq⟩ := hdet f' g hf'
    rw [heq]
    refine h.bounded f _ hf fun j => ?_
    induction j using Fin.cases with
    | zero => exact hc
    | succ j =>
      have := hg j
      show g j + shift < n
      omega

end Scaled

/-! ## Square systems -/

/-- The triangle of a scaled system is the one without tolerance. The induction is on the unknowns
that are left. -/
theorem triangle?_eq_of_scaled {count : ℕ} (h : Scaled D q count rows) (htolerance : 0 ≤ tolerance)
    (hsmall : tolerance * D < 1) (hlen : rows.length = count)
    (hrows : ∀ row ∈ rows, row.length = count + 1) :
    triangle? tolerance count rows = triangle? 0 count rows := by
  induction count generalizing q rows with
  | zero => rfl
  | succ count ih =>
    obtain ⟨row, below, position, hperm, -, hstage⟩ := triangle?_succ hlen hrows
    obtain ⟨hlen', hrows'⟩ := below_of_perm hperm hlen hrows
    have hrow : row ∈ rows := hperm.mem_iff.1 List.mem_cons_self
    have hsame := (h.resolved htolerance hsmall hrow 0).negligible_iff htolerance
    rw [hstage, hstage]
    by_cases hpivot : Scalar.Negligible 0 (coeff row 0)
    · rw [if_pos hpivot, if_pos (hsame.2 hpivot)]
    · rw [if_neg hpivot, if_neg fun hle => hpivot (hsame.1 hle)]
      rw [Scalar.negligible_zero_iff] at hpivot
      -- The rows below go on without their first entry, which is the column that was cleared.
      have hcleared : Scaled D (q * coeff row 0) count (below.map (eliminate row)) := by
        refine h.clear hrow (Nat.succ_pos count) hpivot 1 le_rfl fun r' hr' => ?_
        obtain ⟨r, hr, rfl⟩ := List.mem_map.1 hr'
        have hin : r ∈ rows := hperm.mem_iff.1 (List.mem_cons_of_mem _ hr)
        refine ⟨r, hin, fun j => ?_⟩
        rw [coeff_eliminate ((hrows row hrow).trans (hrows r hin).symm)]
        rfl
      rw [ih hcleared hlen' hrows']

theorem solve?_eq_of_scaled {m : RowMatrix ℚ} {rhs : List ℚ}
    (h : Scaled D q m.columns (m.augmented rhs)) (htolerance : 0 ≤ tolerance)
    (hsmall : tolerance * D < 1) (hm : m.Rectangular) (hsquare : m.columns = m.rowCount)
    (hrhs : rhs.length = m.rowCount) : m.solve? rhs tolerance = m.solve? rhs 0 := by
  have htriangle := triangle?_eq_of_scaled (hsquare ▸ h) htolerance hsmall (length_augmented hrhs)
    fun row hrow => hsquare ▸ hm.length_of_mem_augmented hrow
  rw [augmented] at htriangle
  simp only [solve?, htriangle]

/-! ## Independent rows -/

/-- The pivot of a row that is resolved is the one without tolerance. -/
theorem largestColumn?_eq_of_resolved (htolerance : 0 ≤ tolerance) (columns : ℕ)
    (h : ∀ j, Scalar.Resolved tolerance (coeff row j)) :
    largestColumn? tolerance columns row = largestColumn? 0 columns row := by
  have hfilter : ((row.take columns).zipIdx.filter fun entry =>
        ¬ Scalar.Negligible tolerance entry.1) =
      (row.take columns).zipIdx.filter fun entry => ¬ Scalar.Negligible 0 entry.1 := by
    refine List.filter_congr fun place hplace => decide_eq_decide.2 (not_congr ?_)
    obtain ⟨j, -, hj⟩ := coeff_eq_of_mem
      (List.mem_of_mem_take (List.fst_mem_of_mem_zipIdx hplace))
    rw [← hj]
    exact (h j).negligible_iff htolerance
  rw [largestColumn?, largestColumn?, hfilter]

theorem reduceAll_concat (kept : List (KeptRow ℚ)) (last : KeptRow ℚ) (row : List ℚ) :
    reduceAll (kept ++ [last]) row = last.reduce (reduceAll kept row) := by
  rw [reduceAll, List.foldl_append]
  rfl

/-- The selection among rows that are scaled after reduction is the one without tolerance. The
induction is on the rows that are left. -/
theorem keepFrom?_eq_of_scaled {rest : List (List ℚ × ℕ)} {kept : List (KeptRow ℚ)}
    (h : Scaled D q n (rest.map fun place => reduceAll kept place.1)) (htolerance : 0 ≤ tolerance)
    (hsmall : tolerance * D < 1) (hkept : Fits n kept)
    (hrest : ∀ place ∈ rest, place.1.length = n + 1) :
    keepFrom? tolerance n rest kept = keepFrom? 0 n rest kept := by
  induction rest generalizing q kept with
  | nil => rfl
  | cons place rest ih =>
    obtain ⟨row, position⟩ := place
    obtain ⟨hrow, hrest⟩ := List.forall_mem_cons.1 hrest
    have hlength : (reduceAll kept row).length = n + 1 := length_reduceAll hkept hrow
    have hhead : reduceAll kept row ∈
        ((row, position) :: rest).map fun place => reduceAll kept place.1 := List.mem_cons_self
    have hresolved := h.resolved htolerance hsmall hhead
    have hvalue : (reduceAll kept row)[n]? = some (coeff (reduceAll kept row) n) :=
      getElem?_eq_coeff (by omega)
    obtain ⟨choice, hchoice, hsome, -⟩ := largestColumn?_cases (0 : ℚ)
      (show n ≤ (reduceAll kept row).length by omega)
    simp only [keepFrom?, reduceAll?_eq hkept hrow, Option.bind_eq_bind, Option.bind_some,
      largestColumn?_eq_of_resolved htolerance n hresolved, hchoice]
    cases choice with
    | some pivot =>
      obtain ⟨hpivot, hne⟩ := hsome pivot rfl
      rw [Scalar.negligible_zero_iff] at hne
      have hfits : Fits n (kept ++ [{ position, pivot, entries := reduceAll kept row }]) := by
        intro k hk
        rcases List.mem_append.1 hk with hk | hk
        · exact hkept k hk
        · rw [List.mem_singleton.1 hk]
          exact ⟨hlength, hpivot⟩
      -- The rows that are left are cleared with the row that is kept.
      have hcleared : Scaled D (q * coeff (reduceAll kept row) pivot) n (rest.map fun place =>
          reduceAll (kept ++ [{ position, pivot, entries := reduceAll kept row }]) place.1) := by
        refine h.clear hhead hpivot hne 0 le_rfl fun r' hr' => ?_
        obtain ⟨place, hplace, rfl⟩ := List.mem_map.1 hr'
        have hsame := hlength.trans (length_reduceAll hkept (hrest place hplace)).symm
        refine ⟨reduceAll kept place.1, List.mem_cons_of_mem _ (List.mem_map_of_mem hplace),
          fun j => ?_⟩
        rw [reduceAll_concat, KeptRow.coeff_reduce hsame]
        rfl
      exact ih hcleared hfits hrest
    | none =>
      have hsame := (hresolved n).negligible_iff htolerance
      have hlater := ih (h.mono fun r hr => List.mem_cons_of_mem _ hr) hkept hrest
      simp only [hvalue, Option.bind_some, hsame, hlater]

theorem independentRows?_eq_of_scaled {m : RowMatrix ℚ} {rhs : List ℚ}
    (h : Scaled D q m.columns (m.augmented rhs)) (htolerance : 0 ≤ tolerance)
    (hsmall : tolerance * D < 1) (hm : m.Rectangular) :
    m.independentRows? rhs tolerance = m.independentRows? rhs 0 := by
  have hrows : ((m.augmented rhs).zipIdx.map fun place => reduceAll [] place.1) =
      m.augmented rhs := List.zipIdx_map_fst _ _
  have hnone : Fits m.columns ([] : List (KeptRow ℚ)) := fun _ hk => absurd hk List.not_mem_nil
  have hkeep : keepFrom? tolerance m.columns (m.augmented rhs).zipIdx [] =
      keepFrom? 0 m.columns (m.augmented rhs).zipIdx [] :=
    keepFrom?_eq_of_scaled (hrows.symm ▸ h) htolerance hsmall hnone fun place hplace =>
      hm.length_of_mem_augmented (List.fst_mem_of_mem_zipIdx hplace)
  rw [augmented] at hkeep
  simp only [independentRows?, hkeep]

end RowMatrix

end SimplexMethod
