import Mathlib.Data.List.Basic
import Mathlib.Data.List.Nodup
import SimplexMethod.Checked

/-!
# Passes over lists with checked access

A pass with a checked operation has a value exactly when every step has one
(`mapM_eq_some_iff`, `foldlM_eq_some_foldl`), and the results are those of the elements
(`mem_iff_of_mapM`, `ext_of_lt`). The writes of a pass that puts values at distinct
positions can be read off one by one (`getElem?_foldl_set_of_mem`,
`getElem?_foldl_set_of_notMem`).
-/

set_option autoImplicit false

namespace SimplexMethod

variable {α β : Type}

/-- Lists of one length are equal when their elements are. -/
theorem ext_of_lt {xs ys : List α} {n : Nat} (hxs : xs.length = n) (hys : ys.length = n)
    (h : ∀ i < n, xs[i]? = ys[i]?) : xs = ys := by
  apply List.ext_getElem?
  intro i
  rcases Nat.lt_or_ge i n with hi | hi
  · exact h i hi
  · rw [List.getElem?_eq_none (hxs ▸ hi), List.getElem?_eq_none (hys ▸ hi)]

/-! ## Checked maps and folds -/

theorem mapM_eq_some_iff {f : α → Checked β} {xs : List α} {ys : List β} :
    xs.mapM f = some ys ↔ xs.map f = ys.map some := by
  induction xs generalizing ys with
  | nil => cases ys <;> simp
  | cons x xs ih =>
    simp only [List.mapM_cons, Option.pure_def, Option.bind_eq_bind, Option.bind_eq_some_iff,
      Option.some.injEq, List.map_cons]
    constructor
    · rintro ⟨y, hy, rest, hrest, rfl⟩
      simp [hy, ih.1 hrest]
    · intro h
      cases ys with
      | nil => simp at h
      | cons y rest =>
        simp only [List.map_cons, List.cons.injEq] at h
        exact ⟨y, h.1, rest, ih.2 h.2, rfl⟩

/-- Where there is an element, the operation has a value, and that is the result in its place. -/
theorem map_getElem?_of_mapM {f : α → Checked β} {xs : List α} {ys : List β}
    (h : xs.mapM f = some ys) (i : Nat) : xs[i]?.map f = ys[i]?.map some := by
  rw [← List.getElem?_map, mapM_eq_some_iff.1 h, List.getElem?_map]

theorem getElem?_of_mapM {f : α → Checked β} {xs : List α} {ys : List β}
    (h : xs.mapM f = some ys) (i : Nat) : ys[i]? = xs[i]?.bind f := by
  have hmap := map_getElem?_of_mapM h i
  cases hx : xs[i]? with
  | none =>
    rw [hx, Option.map_none, eq_comm, Option.map_eq_none_iff] at hmap
    rw [hmap, Option.bind_none]
  | some x =>
    rw [hx, Option.map_some, eq_comm] at hmap
    obtain ⟨y, hy, heq⟩ := Option.map_eq_some_iff.1 hmap
    rw [hy, Option.bind_some, heq]

theorem length_of_mapM {f : α → Checked β} {xs : List α} {ys : List β}
    (h : xs.mapM f = some ys) : ys.length = xs.length := by
  have hlength := congrArg List.length (mapM_eq_some_iff.1 h)
  rw [List.length_map, List.length_map] at hlength
  exact hlength.symm

theorem mapM_eq_some_map {f : α → Checked β} {g : α → β} {xs : List α}
    (h : ∀ x ∈ xs, f x = some (g x)) : xs.mapM f = some (xs.map g) := by
  rw [mapM_eq_some_iff, List.map_map]
  exact List.map_congr_left h

theorem exists_mapM {f : α → Checked β} {xs : List α} (h : ∀ x ∈ xs, ∃ y, f x = some y) :
    ∃ ys, xs.mapM f = some ys := by
  induction xs with
  | nil => exact ⟨[], rfl⟩
  | cons x xs ih =>
    obtain ⟨y, hy⟩ := h x List.mem_cons_self
    obtain ⟨ys, hys⟩ := ih fun z hz => h z (List.mem_cons_of_mem _ hz)
    exact ⟨y :: ys, by simp [hy, hys]⟩

/-- Passes with operations that agree on the elements are the same. -/
theorem mapM_congr {f g : α → Checked β} {xs : List α} (h : ∀ x ∈ xs, f x = g x) :
    xs.mapM f = xs.mapM g := by
  induction xs with
  | nil => rfl
  | cons x xs ih =>
    rw [List.mapM_cons, List.mapM_cons, h x List.mem_cons_self,
      ih fun y hy => h y (List.mem_cons_of_mem _ hy)]

/-- The results are those of the elements. -/
theorem mem_iff_of_mapM {f : α → Checked β} {xs : List α} {ys : List β} {y : β}
    (h : xs.mapM f = some ys) : y ∈ ys ↔ ∃ x ∈ xs, f x = some y := by
  rw [← List.mem_map (l := xs), mapM_eq_some_iff.1 h, List.mem_map]
  constructor
  · intro hy
    exact ⟨y, hy, rfl⟩
  · rintro ⟨z, hz, heq⟩
    exact Option.some.inj heq ▸ hz

theorem foldlM_congr {f g : β → α → Checked β} {xs : List α} {init : β}
    (h : ∀ acc, ∀ x ∈ xs, f acc x = g acc x) : xs.foldlM f init = xs.foldlM g init := by
  induction xs generalizing init with
  | nil => rfl
  | cons x xs ih =>
    rw [List.foldlM_cons, List.foldlM_cons, h init x List.mem_cons_self]
    exact bind_congr fun acc => ih fun acc y hy => h acc y (List.mem_cons_of_mem _ hy)

/-- The steps of a pass may rely on what all of them keep. -/
theorem foldlM_eq_some_foldl (P : β → Prop) {f : β → α → Checked β} {g : β → α → β} {xs : List α}
    {init : β} (hinit : P init)
    (h : ∀ acc, P acc → ∀ x ∈ xs, f acc x = some (g acc x) ∧ P (g acc x)) :
    xs.foldlM f init = some (xs.foldl g init) := by
  induction xs generalizing init with
  | nil => rfl
  | cons x xs ih =>
    obtain ⟨hstep, hnext⟩ := h init hinit x List.mem_cons_self
    rw [List.foldlM_cons, hstep, List.foldl_cons]
    exact ih hnext fun acc hacc y hy => h acc hacc y (List.mem_cons_of_mem _ hy)

/-! ## Writing values to positions -/

theorem write?_eq {xs : List α} {i : Nat} (h : i < xs.length) (a : α) :
    write? xs i a = some (xs.set i a) := if_pos h

theorem length_foldl_set (writes : List (Nat × α)) (init : List α) :
    (writes.foldl (fun acc write => acc.set write.1 write.2) init).length = init.length := by
  induction writes generalizing init with
  | nil => rfl
  | cons write writes ih => rw [List.foldl_cons, ih, List.length_set]

theorem getElem?_foldl_set_of_notMem {writes : List (Nat × α)} {init : List α} {j : Nat}
    (h : ∀ write ∈ writes, write.1 ≠ j) :
    (writes.foldl (fun acc write => acc.set write.1 write.2) init)[j]? = init[j]? := by
  induction writes generalizing init with
  | nil => rfl
  | cons write writes ih =>
    rw [List.foldl_cons, ih fun w hw => h w (List.mem_cons_of_mem _ hw),
      List.getElem?_set_ne (h write List.mem_cons_self)]

theorem getElem?_foldl_set_of_mem {writes : List (Nat × α)} {init : List α} {j : Nat} {a : α}
    (hnodup : (writes.map Prod.fst).Nodup) (hmem : (j, a) ∈ writes) (hj : j < init.length) :
    (writes.foldl (fun acc write => acc.set write.1 write.2) init)[j]? = some a := by
  induction writes generalizing init with
  | nil => simp at hmem
  | cons write writes ih =>
    rw [List.map_cons, List.nodup_cons] at hnodup
    rw [List.foldl_cons]
    rcases List.mem_cons.1 hmem with rfl | hrest
    · have hne : ∀ w ∈ writes, w.1 ≠ j := by
        rintro w hw rfl
        exact hnodup.1 (List.mem_map.2 ⟨w, hw, rfl⟩)
      rw [getElem?_foldl_set_of_notMem hne, List.getElem?_set_self hj]
    · exact ih hnodup.2 hrest (by rwa [List.length_set])

end SimplexMethod
