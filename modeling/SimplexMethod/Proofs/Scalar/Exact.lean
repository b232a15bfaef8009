import Mathlib.Algebra.BigOperators.Fin
import Mathlib.Algebra.BigOperators.Ring.Finset
import Mathlib.Algebra.Order.Ring.Rat
import Mathlib.Tactic.Linarith
import Mathlib.Tactic.Ring
import SimplexMethod.Proofs.Checked
import SimplexMethod.Scalar.Choice
import SimplexMethod.Scalar.Rational

/-!
# Laws of the exact scalars

Over the rational numbers the operations of the method are those of an ordered field: magnitudes
are absolute values, sums and products of lists are finite sums over positions (`dot_eq_sum`), and
the element that survives a pass is least or greatest (`firstLeast?_le`, `le_lastGreatest?`,
`tolerantLeast?_le`).
-/

set_option autoImplicit false

namespace SimplexMethod

variable {F : Type}

/-- The entry of a row at a position, zero after the end of the row. -/
def coeff [Scalar F] (row : List F) (j : Nat) : F := row.getD j 0

namespace Scalar

theorem abs_eq (x : ℚ) : Scalar.abs x = |x| := by
  show Rat.abs x = |x|
  rcases le_total 0 x with h | h
  · rw [Rat.abs_of_nonneg h, abs_of_nonneg h]
  · rw [Rat.abs_of_nonpos h, abs_of_nonpos h]

theorem negligible_iff {tolerance x : ℚ} : Negligible tolerance x ↔ |x| ≤ tolerance := by
  rw [Negligible, abs_eq]

@[simp]
theorem negligible_zero_iff {x : ℚ} : Negligible 0 x ↔ x = 0 := by
  rw [negligible_iff, abs_nonpos_iff]

theorem sum_eq (xs : List ℚ) : sum xs = xs.sum := by
  rw [sum, List.sum_eq_foldl]
  rfl

theorem larger_eq_max (x y : ℚ) : larger x y = max x y := by
  unfold larger
  split
  · next h =>
    have hlt : x < y := by simpa using h
    exact (max_eq_right hlt.le).symm
  · next h =>
    have hle : y ≤ x := by simpa using h
    exact (max_eq_left hle).symm

end Scalar

/-! ## Entries of rows -/

section Entries

variable [Scalar F]

theorem coeff_of_getElem? {row : List F} {j : Nat} {a : F} (h : row[j]? = some a) :
    coeff row j = a := by
  simp [coeff, List.getD_eq_getElem?_getD, h]

theorem getElem?_eq_coeff {row : List F} {j : Nat} (h : j < row.length) :
    row[j]? = some (coeff row j) := by
  simp [coeff, List.getD_eq_getElem?_getD, h]

theorem coeff_of_length_le {row : List F} {j : Nat} (h : row.length ≤ j) : coeff row j = 0 := by
  simp [coeff, List.getD_eq_getElem?_getD, h]

@[simp]
theorem coeff_nil (j : Nat) : coeff ([] : List F) j = 0 := rfl

@[simp]
theorem coeff_cons_zero (a : F) (row : List F) : coeff (a :: row) 0 = a := rfl

@[simp]
theorem coeff_cons_succ (a : F) (row : List F) (j : Nat) :
    coeff (a :: row) (j + 1) = coeff row j := rfl

theorem coeff_append_left {row : List F} (rest : List F) {j : Nat} (h : j < row.length) :
    coeff (row ++ rest) j = coeff row j := by
  simp [coeff, List.getD_eq_getElem?_getD, List.getElem?_append_left h]

theorem coeff_append_right {row : List F} (rest : List F) {j : Nat} (h : row.length ≤ j) :
    coeff (row ++ rest) j = coeff rest (j - row.length) := by
  simp [coeff, List.getD_eq_getElem?_getD, List.getElem?_append_right h]

/-- The last entry of a row to which a value is appended. -/
@[simp]
theorem coeff_concat_length (row : List F) (a : F) : coeff (row ++ [a]) row.length = a := by
  rw [coeff_append_right _ le_rfl, Nat.sub_self, coeff_cons_zero]

theorem coeff_concat (row : List F) (a : F) (j : Nat) :
    coeff (row ++ [a]) j = if j = row.length then a else coeff row j := by
  split
  · next heq => rw [heq, coeff_concat_length]
  · next hne =>
    rcases Nat.lt_or_gt_of_ne hne with hlt | hgt
    · exact coeff_append_left _ hlt
    · rw [coeff_of_length_le hgt.le, coeff_of_length_le]
      rw [List.length_append]
      exact hgt

theorem coeff_eq_of_mem {row : List F} {a : F} (h : a ∈ row) :
    ∃ j < row.length, coeff row j = a := by
  obtain ⟨j, hj, rfl⟩ := List.getElem_of_mem h
  exact ⟨j, hj, coeff_of_getElem? (List.getElem?_eq_getElem hj)⟩

theorem coeff_mem {row : List F} {j : Nat} (h : j < row.length) : coeff row j ∈ row :=
  List.mem_of_getElem? (getElem?_eq_coeff h)

theorem forall_mem_iff_coeff {P : F → Prop} {row : List F} :
    (∀ a ∈ row, P a) ↔ ∀ j < row.length, P (coeff row j) := by
  constructor
  · intro h j hj
    exact h _ (coeff_mem hj)
  · intro h a ha
    obtain ⟨j, hj, rfl⟩ := coeff_eq_of_mem ha
    exact h j hj

/-- The entries of a row at some positions. -/
def pick (positions : List Nat) (row : List F) : List F := positions.map (coeff row)

theorem length_pick (positions : List Nat) (row : List F) :
    (pick positions row).length = positions.length := List.length_map _

theorem ext_coeff {row other : List F} (hlen : row.length = other.length)
    (h : ∀ j < row.length, coeff row j = coeff other j) : row = other := by
  apply ext_of_lt rfl hlen.symm
  intro j hj
  rw [getElem?_eq_coeff hj, getElem?_eq_coeff (hlen ▸ hj), h j hj]

end Entries

/-- A function that keeps zero works position by position. -/
theorem coeff_map {f : ℚ → ℚ} (hf : f 0 = 0) (xs : List ℚ) (j : Nat) :
    coeff (xs.map f) j = f (coeff xs j) := by
  rcases lt_or_ge j xs.length with hj | hj
  · apply coeff_of_getElem?
    rw [List.getElem?_map, getElem?_eq_coeff hj, Option.map_some]
  · rw [coeff_of_length_le hj, coeff_of_length_le (by rwa [List.length_map]), hf]

theorem coeff_zipWith {f : ℚ → ℚ → ℚ} {xs ys : List ℚ} (hf : f 0 0 = 0)
    (hlen : xs.length = ys.length) (j : Nat) :
    coeff (List.zipWith f xs ys) j = f (coeff xs j) (coeff ys j) := by
  rcases lt_or_ge j xs.length with hj | hj
  · apply coeff_of_getElem?
    rw [List.getElem?_zipWith, getElem?_eq_coeff hj, getElem?_eq_coeff (hlen ▸ hj)]
  · have hys : ys.length ≤ j := hlen ▸ hj
    rw [coeff_of_length_le hj, coeff_of_length_le hys, hf,
      coeff_of_length_le (by rw [List.length_zipWith]; omega)]

theorem coeff_nonneg_iff {x : List ℚ} : (∀ j, 0 ≤ coeff x j) ↔ ∀ a ∈ x, 0 ≤ a := by
  rw [forall_mem_iff_coeff]
  constructor
  · intro h j _
    exact h j
  · intro h j
    rcases lt_or_ge j x.length with hj | hj
    · exact h j hj
    · exact (coeff_of_length_le hj).ge

/-- A product of lists is a sum over positions, up to any bound that one of the lists does not
exceed. -/
theorem dot_eq_sum {xs ys : List ℚ} {n : Nat} (h : min xs.length ys.length ≤ n) :
    Scalar.dot xs ys = ∑ j ∈ Finset.range n, coeff xs j * coeff ys j := by
  rw [Scalar.dot, Scalar.sum_eq]
  induction xs generalizing ys n with
  | nil => simp
  | cons x xs ih =>
    cases ys with
    | nil => simp
    | cons y ys =>
      cases n with
      | zero => simp at h
      | succ n =>
        rw [List.zipWith_cons_cons, List.sum_cons, Finset.sum_range_succ', ih (n := n) (by
          simp only [List.length_cons] at h
          omega)]
        simp only [coeff_cons_succ, coeff_cons_zero]
        ring

/-! ## Choosing by keys -/

section Choice

variable {α : Type}

/-- What survives a pass stands in a preorder to every element when the comparison decides that
preorder. -/
theorem survivor?_dominates {beats : α → α → Prop} [∀ x y, Decidable (beats x y)]
    (below : α → α → Prop) (hrefl : ∀ x, below x x)
    (htrans : ∀ {x y z}, below x y → below y z → below x z)
    (hbeats : ∀ {next kept}, beats next kept → below next kept)
    (hkeeps : ∀ {next kept}, ¬ beats next kept → below kept next)
    {x : α} {xs : List α} (h : survivor? beats xs = some x) : ∀ y ∈ xs, below x y := by
  cases xs with
  | nil => simp [survivor?] at h
  | cons first rest =>
    rw [survivor?, Option.some.injEq] at h
    induction rest generalizing first with
    | nil =>
      intro y hy
      rw [List.mem_singleton.1 hy, ← h]
      exact hrefl _
    | cons next rest ih =>
      rw [List.foldl_cons] at h
      intro y hy
      split at h
      · next hbeat =>
        rcases List.mem_cons.1 hy with rfl | hy
        · exact htrans (ih next h next List.mem_cons_self) (hbeats hbeat)
        · exact ih next h y hy
      · next hkeep =>
        have hfirst := ih first h first List.mem_cons_self
        rcases List.mem_cons.1 hy with rfl | hy
        · exact hfirst
        · rcases List.mem_cons.1 hy with rfl | hy
          · exact htrans hfirst (hkeeps hkeep)
          · exact ih first h y (List.mem_cons_of_mem _ hy)

/-- Comparisons that agree on the elements have the same survivor. -/
theorem survivor?_congr {beats beats' : α → α → Prop} [∀ x y, Decidable (beats x y)]
    [∀ x y, Decidable (beats' x y)] {xs : List α}
    (h : ∀ next ∈ xs, ∀ kept ∈ xs, (beats next kept ↔ beats' next kept)) :
    survivor? beats xs = survivor? beats' xs := by
  cases xs with
  | nil => rfl
  | cons first rest =>
    rw [survivor?, survivor?]
    congr 1
    induction rest generalizing first with
    | nil => rfl
    | cons next rest ih =>
      rw [List.foldl_cons, List.foldl_cons,
        if_congr (h next (by simp) first (by simp)) rfl rfl]
      apply ih
      -- Whichever of the two is kept is an element.
      have hkept (x : α) (hx : x ∈ (if beats' next first then next else first) :: rest) :
          x ∈ first :: next :: rest := by
        rcases List.mem_cons.1 hx with rfl | hx
        · split <;> simp
        · simp [hx]
      exact fun x hx y hy => h x (hkept x hx) y (hkept y hy)

theorem survivor?_map {β : Type} {beats : β → β → Prop} [∀ x y, Decidable (beats x y)] (g : α → β)
    (xs : List α) :
    survivor? beats (xs.map g) = (survivor? (fun x y => beats (g x) (g y)) xs).map g := by
  cases xs with
  | nil => rfl
  | cons first rest =>
    rw [List.map_cons, survivor?, survivor?, Option.map_some, List.foldl_map]
    congr 1
    induction rest generalizing first with
    | nil => rfl
    | cons next rest ih =>
      rw [List.foldl_cons, List.foldl_cons, ← ih]
      congr 1
      split <;> rfl

/-- A map of the elements maps the first one whose key is least when it keeps the order of keys. -/
theorem firstLeast?_map {β : Type} {key : β → ℚ} {key' : α → ℚ} {g : α → β} {xs : List α}
    (h : ∀ x ∈ xs, ∀ y ∈ xs, (key (g x) < key (g y) ↔ key' x < key' y)) :
    firstLeast? key (xs.map g) = (firstLeast? key' xs).map g := by
  rw [firstLeast?, survivor?_map, survivor?_congr h]
  rfl

theorem firstLeast?_le {key : α → ℚ} {x : α} {xs : List α} (h : firstLeast? key xs = some x) :
    ∀ y ∈ xs, key x ≤ key y :=
  survivor?_dominates (fun x y => key x ≤ key y) (fun _ => le_rfl) le_trans le_of_lt
    (fun hkeep => not_lt.1 hkeep) h

theorem le_lastGreatest? {key : α → ℚ} {x : α} {xs : List α}
    (h : lastGreatest? key xs = some x) : ∀ y ∈ xs, key y ≤ key x :=
  survivor?_dominates (fun x y => key y ≤ key x) (fun _ => le_rfl)
    (fun hxy hyz => le_trans hyz hxy) (fun hbeat => not_lt.1 hbeat)
    (fun hkeep => le_of_lt (not_not.1 hkeep)) h

/-- Without tolerance, keys count as equal only when they are. -/
theorem tolerantLeast?_le {key : α → ℚ} {x : α} {xs : List α}
    (h : tolerantLeast? 0 key xs = some x) : ∀ y ∈ xs, key x ≤ key y := by
  refine survivor?_dominates (fun x y => key x ≤ key y) (fun _ => le_rfl) le_trans
    (fun hbeat => hbeat.2.le) (fun {next kept} hkeep => ?_) h
  by_contra hless
  refine hkeep ⟨?_, not_le.1 hless⟩
  rw [Scalar.negligible_zero_iff, sub_eq_zero]
  exact (not_le.1 hless).ne'

end Choice

end SimplexMethod
