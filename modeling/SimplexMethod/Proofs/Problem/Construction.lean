import Mathlib.Tactic
import SimplexMethod.Problem.Basic
import SimplexMethod.Proofs.Problem.Names
import SimplexMethod.Scalar.Rational

/-!
# Making problems

Data make a problem exactly when a direction is named and all sizes fit together
(`Problem.SizesFit`). Other data can be wrong in several ways at once. The conditions have an order,
and what is reported is the first one that fails (`Problem.FirstViolation`); among the rows with
another length than the first it is the first such row (`Problem.raggedRow?_eq_some_iff`). Nothing
is assumed about the scalars, except that the cost of a maximization is only read back as it was
given when two changes of sign cancel out.
-/

set_option autoImplicit false

namespace SimplexMethod

namespace Problem

variable {F : Type} {rows : List (List F)} {values cost : List F}

/-! ## Sizes -/

/-- The first row; an empty row when there is none. -/
def firstRow (rows : List (List F)) : List F := rows.headD []

/-- There is a row, which is not empty, and all rows are as long as the first. -/
structure EquallyLong (rows : List (List F)) : Prop where
  first_ne_nil : firstRow rows ≠ []
  length_eq : ∀ row ∈ rows, row.length = (firstRow rows).length

/-- The rows are equally long, with a constraint value for each row and a cost for each column. -/
structure SizesFit (rows : List (List F)) (values cost : List F) : Prop where
  equallyLong : EquallyLong rows
  values_length : values.length = rows.length
  cost_length : cost.length = (firstRow rows).length

/-- A row has another length than the first row, and it is the first one that has. -/
structure FirstRagged (rows : List (List F)) (i : Nat) (row : List F) : Prop where
  getElem?_eq : rows[i]? = some row
  length_ne : row.length ≠ (firstRow rows).length
  length_eq_of_lt : ∀ k < i, ∀ earlier, rows[k]? = some earlier →
    earlier.length = (firstRow rows).length

/-- Which size is the first that does not fit, with the size as it is and as it should be. -/
inductive SizeViolation (rows : List (List F)) (values cost : List F) : SizeError → Prop
  | empty : firstRow rows = [] → SizeViolation rows values cost (.empty rows.length 0)
  | raggedRow {i : Nat} {row : List F} : firstRow rows ≠ [] → FirstRagged rows i row →
      SizeViolation rows values cost (.raggedRow i row.length (firstRow rows).length)
  | constraintValues : EquallyLong rows → values.length ≠ rows.length →
      SizeViolation rows values cost (.constraintValues values.length rows.length)
  | cost : EquallyLong rows → values.length = rows.length →
      cost.length ≠ (firstRow rows).length →
      SizeViolation rows values cost (.cost cost.length (firstRow rows).length)

theorem columns_ofRows : (RowMatrix.ofRows rows).columns = (firstRow rows).length := by
  cases rows with
  | nil => rfl
  | cons first rest => rfl

/-- The constraints of a problem are made of their rows alone: the first row says how many columns
there are. -/
theorem ofRows_constraints (p : Problem F) :
    RowMatrix.ofRows p.constraints.rows = p.constraints := by
  obtain ⟨row, rest, hrows⟩ := List.exists_cons_of_ne_nil p.rows_ne_nil
  have hlen := p.rectangular row (hrows ▸ List.mem_cons_self)
  rw [RowMatrix.ofRows, hrows, List.head?_cons, Option.map_some, Option.getD_some, hlen, ← hrows]

/-- The row that is found is the first one with another length. -/
theorem raggedRow?_eq_some_iff {i length : Nat} :
    raggedRow? (firstRow rows).length rows = some (i, length) ↔
      ∃ row, FirstRagged rows i row ∧ row.length = length := by
  simp only [raggedRow?, Option.map_eq_some_iff, List.find?_eq_some_iff_getElem, bne_iff_ne,
    Bool.not_eq_true', bne_eq_false_iff_eq]
  constructor
  · rintro ⟨⟨row, k⟩, ⟨hne, n, hn, hget, hbefore⟩, heq⟩
    rw [List.getElem_zipIdx, Nat.zero_add, Prod.mk.injEq] at hget
    obtain ⟨hrow, rfl⟩ := hget
    obtain ⟨rfl, rfl⟩ := Prod.mk.inj heq
    refine ⟨row, ⟨?_, hne, fun k hk earlier hearlier => ?_⟩, rfl⟩
    · rw [← hrow, List.getElem?_eq_getElem]
    · obtain ⟨hlt, rfl⟩ := List.getElem?_eq_some_iff.1 hearlier
      have hlength := hbefore k hk
      rwa [List.getElem_zipIdx] at hlength
  · rintro ⟨row, ⟨hrow, hne, hbefore⟩, rfl⟩
    obtain ⟨hlt, rfl⟩ := List.getElem?_eq_some_iff.1 hrow
    refine ⟨(rows[i], i), ⟨hne, i, by rwa [List.length_zipIdx], ?_, fun k hk => ?_⟩, rfl⟩
    · rw [List.getElem_zipIdx, Nat.zero_add]
    · rw [List.getElem_zipIdx]
      exact hbefore k hk _ (List.getElem?_eq_getElem (hk.trans hlt))

theorem FirstRagged.not_equallyLong {i : Nat} {row : List F} (h : FirstRagged rows i row) :
    ¬ EquallyLong rows := fun hequally =>
  h.length_ne (hequally.length_eq row (List.mem_of_getElem? h.getElem?_eq))

theorem SizeViolation.not_sizesFit {error : SizeError} (h : SizeViolation rows values cost error) :
    ¬ SizesFit rows values cost := by
  intro hfit
  cases h with
  | empty hnone => exact hfit.equallyLong.first_ne_nil hnone
  | raggedRow _ hragged => exact hragged.not_equallyLong hfit.equallyLong
  | constraintValues _ hvalues => exact hvalues hfit.values_length
  | cost _ _ hcost => exact hcost hfit.cost_length

/-- Only one size is the first that does not fit. -/
theorem SizeViolation.unique {error error' : SizeError} (h : SizeViolation rows values cost error)
    (h' : SizeViolation rows values cost error') : error = error' := by
  cases h with
  | empty hnone =>
    cases h' with
    | empty => rfl
    | raggedRow hsome => exact absurd hnone hsome
    | constraintValues hequally => exact absurd hnone hequally.first_ne_nil
    | cost hequally => exact absurd hnone hequally.first_ne_nil
  | raggedRow hsome hragged =>
    cases h' with
    | empty hnone => exact absurd hnone hsome
    | raggedRow _ hragged' =>
      -- A search finds one row only.
      have heq := (raggedRow?_eq_some_iff.2 ⟨_, hragged, rfl⟩).symm.trans
        (raggedRow?_eq_some_iff.2 ⟨_, hragged', rfl⟩)
      obtain ⟨hi, hlength⟩ := Prod.mk.inj (Option.some.inj heq)
      rw [hi, hlength]
    | constraintValues hequally => exact absurd hequally hragged.not_equallyLong
    | cost hequally => exact absurd hequally hragged.not_equallyLong
  | constraintValues hequally hvalues =>
    cases h' with
    | empty hnone => exact absurd hnone hequally.first_ne_nil
    | raggedRow _ hragged => exact absurd hequally hragged.not_equallyLong
    | constraintValues => rfl
    | cost _ hvalues' => exact absurd hvalues' hvalues
  | cost hequally hvalues =>
    cases h' with
    | empty hnone => exact absurd hnone hequally.first_ne_nil
    | raggedRow _ hragged => exact absurd hequally hragged.not_equallyLong
    | constraintValues _ hvalues' => exact absurd hvalues hvalues'
    | cost => rfl

/-! ## Making a problem of rows -/

variable [Scalar F] {p : Problem F} {direction : Direction}

/-- A problem has the data that it was made from. -/
structure MadeFrom (p : Problem F) (rows : List (List F)) (values cost : List F)
    (direction : Direction) : Prop where
  constraints_eq : p.constraints = RowMatrix.ofRows rows
  values_eq : p.values = values
  direction_eq : p.direction = direction
  minimizationCost_eq : p.minimizationCost = orient direction cost

/-- Either all sizes fit and a problem is made, or the first one that does not fit is reported. -/
theorem ofRows_cases (rows : List (List F)) (values cost : List F) (direction : Direction) :
    (∃ p, ofRows rows values cost direction = .ok p ∧ SizesFit rows values cost ∧
      p.MadeFrom rows values cost direction) ∨
    ∃ error, ofRows rows values cost direction = .error error ∧
      SizeViolation rows values cost error := by
  unfold ofRows
  simp only [columns_ofRows]
  -- One case for each test, in the order in which they are made.
  split
  · next hnone =>
    have hfirst : firstRow rows = [] := by
      rcases hnone with rfl | hlength
      · rfl
      · exact List.length_eq_zero_iff.1 hlength
    refine Or.inr ⟨_, rfl, ?_⟩
    rw [hfirst]
    exact .empty hfirst
  · next hsome =>
    have hfirst : firstRow rows ≠ [] := fun hnil => hsome (Or.inr (by rw [hnil]; rfl))
    split
    · next i length hragged =>
      rw [columns_ofRows, raggedRow?_eq_some_iff] at hragged
      obtain ⟨row, hragged, rfl⟩ := hragged
      exact Or.inr ⟨_, rfl, .raggedRow hfirst hragged⟩
    · next hragged =>
      rw [columns_ofRows] at hragged
      have hequally : EquallyLong rows := ⟨hfirst, length_eq_of_raggedRow? hragged⟩
      split
      · next hvalues =>
        split
        · next hcost => exact Or.inl ⟨_, rfl, ⟨hequally, hvalues, hcost⟩, rfl, rfl, rfl, rfl⟩
        · next hcost => exact Or.inr ⟨_, rfl, .cost hequally hvalues hcost⟩
      · next hvalues => exact Or.inr ⟨_, rfl, .constraintValues hequally hvalues⟩

theorem exists_ofRows (h : SizesFit rows values cost) (direction : Direction) :
    ∃ p, ofRows rows values cost direction = .ok p ∧ p.MadeFrom rows values cost direction := by
  rcases ofRows_cases rows values cost direction with ⟨p, hp, -, hmade⟩ | ⟨error, -, hviolation⟩
  · exact ⟨p, hp, hmade⟩
  · exact absurd h hviolation.not_sizesFit

theorem sizesFit_of_ofRows (h : ofRows rows values cost direction = .ok p) :
    SizesFit rows values cost ∧ p.MadeFrom rows values cost direction := by
  rcases ofRows_cases rows values cost direction with ⟨p', hp, hfit⟩ | ⟨error, herror, -⟩
  · rw [h, Except.ok.injEq] at hp
    exact hp ▸ hfit
  · rw [h] at herror
    cases herror

theorem ofRows_eq_error_iff {error : SizeError} :
    ofRows rows values cost direction = .error error ↔ SizeViolation rows values cost error := by
  rcases ofRows_cases rows values cost direction with
    ⟨p, hp, hfit, -⟩ | ⟨error', herror, hviolation⟩
  · rw [hp]
    constructor
    · intro h
      cases h
    · intro h
      exact absurd hfit h.not_sizesFit
  · rw [herror, Except.error.injEq]
    constructor
    · rintro rfl
      exact hviolation
    · exact hviolation.unique

/-! ## Reading the direction -/

/-- The first condition that data fail: a direction is named, and then all sizes fit. -/
inductive FirstViolation (rows : List (List F)) (values cost : List F) (target : String) :
    ProblemError → Prop
  | direction : (∀ direction : Direction, ¬ direction.IsNamedBy target) →
      FirstViolation rows values cost target (.direction target)
  | sizes {direction : Direction} {error : SizeError} : direction.IsNamedBy target →
      SizeViolation rows values cost error → FirstViolation rows values cost target (.sizes error)

variable {target : String}

theorem ofTarget_of_isNamedBy (h : direction.IsNamedBy target) :
    ofTarget rows values cost target = (ofRows rows values cost direction).mapError .sizes := by
  rw [ofTarget, Direction.ofText?_eq_some_iff.2 h]

theorem ofTarget_of_not_isNamedBy (h : ∀ direction : Direction, ¬ direction.IsNamedBy target) :
    ofTarget rows values cost target = .error (.direction target) := by
  have hnone : Direction.ofText? target = none := by
    rw [Option.eq_none_iff_forall_ne_some]
    intro direction hread
    exact h direction (Direction.ofText?_eq_some_iff.1 hread)
  rw [ofTarget, hnone]

theorem madeFrom_of_ofTarget (h : ofTarget rows values cost target = .ok p) :
    p.direction.IsNamedBy target ∧ SizesFit rows values cost ∧
      p.MadeFrom rows values cost p.direction := by
  by_cases hnamed : ∃ direction : Direction, direction.IsNamedBy target
  · obtain ⟨direction, hdirection⟩ := hnamed
    rw [ofTarget_of_isNamedBy hdirection] at h
    cases hrows : ofRows rows values cost direction with
    | error error =>
      rw [hrows] at h
      cases h
    | ok p' =>
      rw [hrows] at h
      cases h
      obtain ⟨hfit, hmade⟩ := sizesFit_of_ofRows hrows
      rw [hmade.direction_eq]
      exact ⟨hdirection, hfit, hmade⟩
  · rw [ofTarget_of_not_isNamedBy (not_exists.1 hnamed)] at h
    cases h

theorem exists_ofTarget_iff : (∃ p, ofTarget rows values cost target = .ok p) ↔
    (∃ direction : Direction, direction.IsNamedBy target) ∧ SizesFit rows values cost := by
  constructor
  · rintro ⟨p, hp⟩
    obtain ⟨hnamed, hfit, -⟩ := madeFrom_of_ofTarget hp
    exact ⟨⟨_, hnamed⟩, hfit⟩
  · rintro ⟨⟨direction, hnamed⟩, hfit⟩
    obtain ⟨p, hp, -⟩ := exists_ofRows hfit direction
    exact ⟨p, by rw [ofTarget_of_isNamedBy hnamed, hp]; rfl⟩

theorem ofTarget_eq_error_iff {error : ProblemError} :
    ofTarget rows values cost target = .error error ↔
      FirstViolation rows values cost target error := by
  by_cases hnamed : ∃ direction : Direction, direction.IsNamedBy target
  · obtain ⟨direction, hdirection⟩ := hnamed
    rw [ofTarget_of_isNamedBy hdirection]
    constructor
    · intro h
      cases hrows : ofRows rows values cost direction with
      | ok p =>
        rw [hrows] at h
        cases h
      | error error =>
        rw [hrows] at h
        cases h
        exact .sizes hdirection (ofRows_eq_error_iff.1 hrows)
    · intro h
      cases h with
      | direction hnone => exact absurd hdirection (hnone direction)
      | sizes _ hviolation =>
        rw [ofRows_eq_error_iff.2 hviolation]
        rfl
  · rw [ofTarget_of_not_isNamedBy (not_exists.1 hnamed)]
    constructor
    · intro h
      cases h
      exact .direction (not_exists.1 hnamed)
    · intro h
      cases h with
      | direction => rfl
      | sizes hdirection => exact absurd ⟨_, hdirection⟩ hnamed

/-! ## Data -/

/-- The cost changes its signs twice or not at all. -/
theorem orient_orient (hneg : ∀ x : F, - -x = x) (direction : Direction) (cost : List F) :
    orient direction (orient direction cost) = cost := by
  cases direction with
  | minimize => rfl
  | maximize =>
    have hcancel : ((fun x : F => -x) ∘ fun x => -x) = id := funext hneg
    rw [orient, orient, List.map_map, hcancel, List.map_id]

theorem MadeFrom.cost_eq (h : p.MadeFrom rows values cost direction) (hneg : ∀ x : F, - -x = x) :
    p.cost = cost := by
  rw [Problem.cost, h.direction_eq, h.minimizationCost_eq, orient_orient hneg]

theorem sizesFit (p : Problem F) : SizesFit p.constraints.rows p.values p.cost := by
  have hwidth : (firstRow p.constraints.rows).length = p.constraints.columns := by
    rw [← columns_ofRows, p.ofRows_constraints]
  refine ⟨⟨?_, fun row hrow => ?_⟩, p.values_length, ?_⟩
  · intro hnil
    rw [hnil] at hwidth
    exact p.columns_pos.ne hwidth
  · rw [hwidth, p.rectangular row hrow]
  · rw [hwidth, ← p.cost_length]
    exact length_orient _ _

/-- Every problem is made from its own data. -/
theorem ofRows_eq (hneg : ∀ x : F, - -x = x) (p : Problem F) :
    ofRows p.constraints.rows p.values p.cost p.direction = .ok p := by
  obtain ⟨p', hp', hmade⟩ := exists_ofRows p.sizesFit p.direction
  have hconstraints := hmade.constraints_eq.trans p.ofRows_constraints
  have hcost : p'.minimizationCost = p.minimizationCost :=
    hmade.minimizationCost_eq.trans (orient_orient hneg _ _)
  rw [hp', Except.ok.injEq]
  cases p
  cases p'
  cases hconstraints
  cases hcost
  cases hmade.values_eq
  cases hmade.direction_eq
  rfl

/-- Data make a problem exactly when a direction is named and all sizes fit. The problem has the
direction that is named, the constraints and the values as they were given, and also the cost, if
two changes of sign cancel out. For other data the first condition that fails is reported. -/
theorem ofTarget_classifies (rows : List (List F)) (values cost : List F) (target : String) :
    ((∃ p, ofTarget rows values cost target = .ok p) ↔
      (∃ direction : Direction, direction.IsNamedBy target) ∧ SizesFit rows values cost) ∧
    (∀ p, ofTarget rows values cost target = .ok p →
      p.direction.IsNamedBy target ∧ p.constraints = RowMatrix.ofRows rows ∧ p.values = values ∧
        ((∀ x : F, - -x = x) → p.cost = cost)) ∧
    ∀ error, ofTarget rows values cost target = .error error ↔
      FirstViolation rows values cost target error := by
  refine ⟨exists_ofTarget_iff, ?_, fun error => ofTarget_eq_error_iff⟩
  intro p hp
  obtain ⟨hnamed, -, hmade⟩ := madeFrom_of_ofTarget hp
  exact ⟨hnamed, hmade.constraints_eq, hmade.values_eq, hmade.cost_eq⟩

/-- A direction in capitals between white space; and data of which three sizes do not fit, the first
of them in the second row. -/
theorem ofTarget_classifies_spaced :
    (∃ p : Problem ℚ, ofTarget [[1, 2], [3, 4]] [5, 6] [7, 8] "\u2003Max " = .ok p ∧
      p.direction = .maximize ∧ p.constraints.rows = [[1, 2], [3, 4]] ∧ p.values = [5, 6] ∧
      p.cost = [7, 8]) ∧
    ofTarget ([[1, 2], [3]] : List (List ℚ)) [] [] "min" =
      .error (.sizes (.raggedRow 1 1 2)) := by
  have hnamed : Direction.maximize.IsNamedBy "\u2003Max " :=
    ⟨['\u2003'], ['M', 'a', 'x'], [' '], rfl, List.forall_mem_singleton.2 (by decide),
      List.forall_mem_singleton.2 (by decide), "max", .max, Text.map_toLower_eq_iff.1 (by decide)⟩
  have hfit : SizesFit [[1, 2], [3, 4]] ([5, 6] : List ℚ) [7, 8] :=
    ⟨⟨by decide, by decide⟩, rfl, rfl⟩
  have hminimize : Direction.minimize.IsNamedBy "min" :=
    ⟨[], ['m', 'i', 'n'], [], rfl, List.forall_mem_nil _, List.forall_mem_nil _, "min", .min,
      Text.map_toLower_eq_iff.1 (by decide)⟩
  have hragged : FirstRagged ([[1, 2], [3]] : List (List ℚ)) 1 [3] := by
    refine ⟨rfl, by decide, ?_⟩
    intro k hk earlier hearlier
    have hzero : k = 0 := Nat.lt_one_iff.1 hk
    subst hzero
    cases hearlier
    rfl
  constructor
  · obtain ⟨haccepted, hdata, -⟩ :=
      ofTarget_classifies [[1, 2], [3, 4]] ([5, 6] : List ℚ) [7, 8] "\u2003Max "
    obtain ⟨p, hp⟩ := haccepted.2 ⟨⟨_, hnamed⟩, hfit⟩
    obtain ⟨hdirection, hconstraints, hvalues, hcost⟩ := hdata p hp
    exact ⟨p, hp, hdirection.unique hnamed, by rw [hconstraints]; rfl, hvalues, hcost neg_neg⟩
  · obtain ⟨-, -, hreported⟩ :=
      ofTarget_classifies ([[1, 2], [3]] : List (List ℚ)) [] [] "min"
    exact (hreported _).2 (.sizes hminimize (.raggedRow (by decide) hragged))

end Problem

end SimplexMethod
