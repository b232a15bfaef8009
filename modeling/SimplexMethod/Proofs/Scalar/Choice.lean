import SimplexMethod.Proofs.Scalar.Exact

/-!
# Where the survivor of a pass stands

The comparison of a pass need not be an order, so what survives is described by the place where it
stands: what every element before it and every element after it satisfies (`Stands`). The elements
before it were kept at some time or passed over in favour of one that was, and whatever replaced
those is better than all of them; so the description is an invariant of the pass (`Stands.next`)
for each comparison with the laws of `Replaces`.

A pass for the least key keeps the first element of least key (`stands_of_firstLeast?`). With a
tolerance the comparison is not transitive, but elements before the survivor still have larger keys,
and those after it have keys which are less by no more than the tolerance
(`stands_of_tolerantLeast?`): what replaces an element is below it by more than the tolerance, and
thus below all that were passed over in its favour. Among elements that carry indices in increasing
order, the first element of least key is the one of least index (`firstLeast?_eq_some_iff`).
-/

set_option autoImplicit false

namespace SimplexMethod

variable {α : Type}

/-! ## Places -/

/-- The element stands in the list where `ahead` holds of all elements before it and `behind` of all
elements after it. -/
def Stands (ahead behind : α → α → Prop) (x : α) (xs : List α) : Prop :=
  ∃ front back, xs = front ++ x :: back ∧ (∀ y ∈ front, ahead y x) ∧ ∀ y ∈ back, behind y x

/-- What a comparison has to say about elements that are replaced or passed over. -/
structure Replaces (beats ahead behind : α → α → Prop) : Prop where
  /-- An element is replaced by one that it stands ahead of. -/
  ahead_of_beats : ∀ {next kept}, beats next kept → ahead kept next
  /-- All that stand ahead of an element stand ahead of the one that replaces it. -/
  ahead_trans : ∀ {y next kept}, ahead y kept → beats next kept → ahead y next
  /-- So do all that were passed over in its favour. -/
  ahead_of_behind : ∀ {y next kept}, behind y kept → beats next kept → ahead y next
  /-- An element that does not replace the one that is kept stands behind it. -/
  behind_of_not_beats : ∀ {next kept}, ¬ beats next kept → behind next kept

section Stands

variable {beats ahead behind : α → α → Prop} {x : α} {xs : List α}

theorem Stands.mem (h : Stands ahead behind x xs) : x ∈ xs := by
  obtain ⟨front, back, rfl, -, -⟩ := h
  simp

variable [∀ x y, Decidable (beats x y)]

/-- One comparison of a pass. -/
theorem Stands.next (hlaws : Replaces beats ahead behind) {kept : α}
    (h : Stands ahead behind kept xs) (next : α) :
    Stands ahead behind (if beats next kept then next else kept) (xs ++ [next]) := by
  obtain ⟨front, back, rfl, hfront, hback⟩ := h
  split
  · next hbeats =>
    refine ⟨front ++ kept :: back, [], rfl, fun y hy => ?_, by simp⟩
    rcases List.mem_append.1 hy with hy | hy
    · exact hlaws.ahead_trans (hfront y hy) hbeats
    · rcases List.mem_cons.1 hy with rfl | hy
      · exact hlaws.ahead_of_beats hbeats
      · exact hlaws.ahead_of_behind (hback y hy) hbeats
  · next hkeeps =>
    refine ⟨front, back ++ [next], by simp, hfront, fun y hy => ?_⟩
    rcases List.mem_append.1 hy with hy | hy
    · exact hback y hy
    · rw [List.mem_singleton.1 hy]
      exact hlaws.behind_of_not_beats hkeeps

/-- The rest of a pass. -/
theorem Stands.foldl (hlaws : Replaces beats ahead behind) {kept : α} {seen : List α}
    (h : Stands ahead behind kept seen) (rest : List α) :
    Stands ahead behind (rest.foldl (fun kept next => if beats next kept then next else kept) kept)
      (seen ++ rest) := by
  induction rest generalizing kept seen with
  | nil => simpa using h
  | cons next rest ih =>
    rw [List.foldl_cons, List.append_cons]
    exact ih (h.next hlaws next)

theorem stands_of_survivor? (hlaws : Replaces beats ahead behind)
    (h : survivor? beats xs = some x) : Stands ahead behind x xs := by
  cases xs with
  | nil => simp [survivor?] at h
  | cons first rest =>
    rw [survivor?, Option.some.injEq] at h
    subst h
    have hstart : Stands ahead behind first [first] := ⟨[], [], rfl, by simp, by simp⟩
    exact hstart.foldl hlaws rest

end Stands

/-! ## Least keys -/

section Least

variable {key : α → ℚ} {tolerance : ℚ} {x : α} {xs : List α}

/-- The survivor of a pass for the least key is the first element of least key. -/
theorem stands_of_firstLeast? (h : firstLeast? key xs = some x) :
    Stands (fun y x => key x < key y) (fun y x => key x ≤ key y) x xs :=
  stands_of_survivor?
    { ahead_of_beats := id
      ahead_trans := fun hy hbeats => hbeats.trans hy
      ahead_of_behind := fun hy hbeats => hbeats.trans_le hy
      behind_of_not_beats := not_lt.1 } h

/-- With a tolerance, what replaces an element is below it by more than the tolerance. -/
theorem tolerantly_less_iff (htolerance : 0 ≤ tolerance) {kept next : ℚ} :
    (¬ Scalar.Negligible tolerance (kept - next) ∧ next < kept) ↔ next + tolerance < kept := by
  rw [Scalar.negligible_iff, not_le]
  constructor
  · rintro ⟨hgap, hless⟩
    rw [abs_of_pos (sub_pos.2 hless)] at hgap
    linarith
  · intro hless
    have hgap : tolerance < kept - next := by linarith
    exact ⟨hgap.trans_le (le_abs_self _), by linarith⟩

/-- The survivor of a tolerant pass has the least key up to the tolerance, although the keys on the
way may drift, and all keys before it are larger. -/
theorem stands_of_tolerantLeast? (htolerance : 0 ≤ tolerance)
    (h : tolerantLeast? tolerance key xs = some x) :
    Stands (fun y x => key x < key y) (fun y x => key x ≤ key y + tolerance) x xs := by
  refine stands_of_survivor? ⟨fun hbeats => ?_, fun hy hbeats => ?_, fun hy hbeats => ?_,
    fun hkeeps => ?_⟩ h
  · exact hbeats.2
  · exact hbeats.2.trans hy
  · have hbelow := (tolerantly_less_iff htolerance).1 hbeats
    linarith
  · rw [tolerantly_less_iff htolerance, not_lt] at hkeeps
    exact hkeeps

end Least

/-! ## Least indices -/

/-- The index carries the key, no index carries a smaller key, and no smaller index carries the same
key. -/
structure FirstLeast (Carries : Nat → ℚ → Prop) (i : Nat) (key : ℚ) : Prop where
  carries : Carries i key
  key_le : ∀ j other, Carries j other → key ≤ other
  index_le : ∀ j, Carries j key → i ≤ j

section Indices

variable {Carries : Nat → ℚ → Prop} {places : List (Nat × ℚ)} {i j : Nat} {key other : ℚ}

theorem FirstLeast.unique (h : FirstLeast Carries i key) (h' : FirstLeast Carries j other) :
    i = j ∧ key = other := by
  obtain rfl : key = other := le_antisymm (h.key_le _ _ h'.carries) (h'.key_le _ _ h.carries)
  exact ⟨le_antisymm (h.index_le _ h'.carries) (h'.index_le _ h.carries), rfl⟩

/-- The indices of the elements are increasing. -/
def Ascending (places : List (Nat × ℚ)) : Prop := places.Pairwise fun place next => place.1 < next.1

theorem firstLeast_of_stands (hplaces : Ascending places)
    (h : Stands (fun y x => x.2 < y.2) (fun y x => x.2 ≤ y.2) (i, key) places) :
    FirstLeast (fun j other => (j, other) ∈ places) i key := by
  have hmem := h.mem
  obtain ⟨front, back, rfl, hfront, hback⟩ := h
  have hlater := (List.pairwise_cons.1 (List.pairwise_append.1 hplaces).2.1).1
  refine ⟨hmem, fun j other hj => ?_, fun j hj => ?_⟩
  · rcases List.mem_append.1 hj with hj | hj
    · exact (hfront _ hj).le
    · rcases List.mem_cons.1 hj with heq | hj
      · exact (congrArg Prod.snd heq).ge
      · exact hback _ hj
  · rcases List.mem_append.1 hj with hj | hj
    · exact absurd (hfront _ hj) (lt_irrefl key)
    · rcases List.mem_cons.1 hj with heq | hj
      · exact (congrArg Prod.fst heq).ge
      · exact (hlater _ hj).le

/-- The survivor is determined: it is the first index of least key. -/
theorem firstLeast?_eq_some_iff (hplaces : Ascending places) :
    firstLeast? Prod.snd places = some (i, key) ↔
      FirstLeast (fun j other => (j, other) ∈ places) i key := by
  constructor
  · intro h
    exact firstLeast_of_stands hplaces (stands_of_firstLeast? h)
  · intro h
    cases hleast : firstLeast? Prod.snd places with
    | none =>
      rw [survivor?_eq_none_iff.1 hleast] at h
      exact absurd h.carries List.not_mem_nil
    | some place =>
      obtain ⟨rfl, rfl⟩ :=
        h.unique (firstLeast_of_stands hplaces (stands_of_firstLeast? hleast))
      rfl

/-- The first element is the one of least index. -/
theorem head?_eq_some_iff (hplaces : Ascending places) :
    places.head? = some (i, key) ↔
      (i, key) ∈ places ∧ ∀ j other, (j, other) ∈ places → i ≤ j := by
  cases places with
  | nil => simp
  | cons first rest =>
    have hlater := (List.pairwise_cons.1 hplaces).1
    rw [List.head?_cons, Option.some.injEq]
    constructor
    · rintro rfl
      refine ⟨List.mem_cons_self, fun j other hj => ?_⟩
      rcases List.mem_cons.1 hj with heq | hj
      · exact (congrArg Prod.fst heq).ge
      · exact (hlater _ hj).le
    · rintro ⟨hmem, hleast⟩
      rcases List.mem_cons.1 hmem with heq | hmem
      · exact heq.symm
      · -- An index behind the first one is larger.
        exact absurd (hleast _ _ List.mem_cons_self) (hlater _ hmem).not_ge

end Indices

end SimplexMethod
