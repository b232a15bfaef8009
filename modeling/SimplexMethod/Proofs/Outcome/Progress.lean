import Mathlib.Tactic
import SimplexMethod.Proofs.Enumeration.Progress
import SimplexMethod.Proofs.TwoPhase.Account

/-!
# Both methods always answer

Whatever the scalars are and whatever they compute to, neither method reads a position that does not
exist (`Problem.always_answered`). For the two-phase method this rests on the basis alone: where the
costs of the basic variables are read between the phases, artificial variables are left in redundant
rows only (`Problem.basis_lt_of_run?`). The log that is kept by writing down every notice can be put
into words, since each notice shows a well-formed tableau, which has an objective
(`Engine.exists_line?`).
-/

set_option autoImplicit false

namespace SimplexMethod

variable {F : Type}

open Tableau

/-! ## Reading the log -/

/-- The occurrence is no log entry about a notice. -/
def Occurrence.Plain (occurrence : Occurrence F) : Prop :=
  ∀ notice, occurrence ≠ .logged (.heard notice)

theorem Walk.plain_record (w : Walk F) (phase : Phase) :
    ∀ occurrence ∈ w.record phase, occurrence.Plain := by
  intro occurrence hmem
  rcases List.mem_cons.1 hmem with rfl | hmem
  · nofun
  · obtain ⟨⟨step, made⟩, -, hmem⟩ := List.mem_flatMap.1 hmem
    rcases List.mem_pair.1 hmem with rfl | rfl <;> nofun

/-- A run itself makes no log entries about notices. -/
theorem Run.plain_record [Scalar F] (run : Run F) (p : Problem F) (options : Options F) :
    ∀ occurrence ∈ run.record p options, occurrence.Plain := by
  have herror (error : SolveError) :
      ∀ occurrence ∈ (error.record options : List (Occurrence F)), occurrence.Plain := by
    cases error <;> simp [SolveError.record, Occurrence.Plain]
  refine List.forall_mem_cons.2 ⟨nofun, ?_⟩
  cases run with
  | abandoned one error =>
    exact List.forall_mem_append.2 ⟨one.plain_record .one, herror error⟩
  | infeasible one =>
    refine List.forall_mem_append.2 ⟨one.plain_record .one, ?_⟩
    simp [Occurrence.Plain, Walk.finish]
  | entered one redundant two =>
    refine List.forall_mem_append.2 ⟨List.forall_mem_append.2
      ⟨List.forall_mem_append.2 ⟨List.forall_mem_append.2 ⟨one.plain_record .one, ?_⟩, ?_⟩,
        two.walk.plain_record .two⟩, ?_⟩
    · simp [Occurrence.Plain, Walk.finish]
    · split <;> simp [Occurrence.Plain]
    · cases two.outcome with
      | error error => exact herror error
      | ok optimum => simp [Occurrence.Plain, Walk.finish]

/-- An entry can be put into words, when it shows a well-formed tableau or none at all. -/
theorem Entry.exists_line? [Scalar F] [DecimalText F] {entry : Entry F}
    (h : ∀ notice, entry = .heard notice → notice.moment.tableau.WellFormed) :
    ∃ line, entry.line? = some line := by
  suffices htext : ∃ text, entry.text? = some text by
    obtain ⟨text, htext⟩ := htext
    rw [line?, htext]
    exact ⟨_, rfl⟩
  cases entry with
  | heard notice =>
    have hobjective : notice.moment.objective? = some notice.moment.tableau.objective :=
      (h notice rfl).objective?_eq
    rw [text?, noticeText?, hobjective]
    cases notice <;> exact ⟨_, rfl⟩
  | _ => exact ⟨_, rfl⟩

namespace Problem

variable [Scalar F] {p : Problem F} {options : Options F} {rule : PivotRule}

/-- Between the phases, the costs of the variables that are basic in the rows that are not redundant
can be read. -/
theorem basis_lt_of_run? {one : Walk F} {redundant : List Nat} {two : Stage F (Optimum F)}
    (h : p.run? options rule = some (.entered one redundant two)) {i j : Nat}
    (hj : one.tableau.basis[i]? = some j) (hi : i ∉ redundant) : j < p.variableCount := by
  obtain ⟨hlt, rfl⟩ := List.getElem?_eq_some_iff.1 hj
  rw [redundant_eq_of_run? h, artificialPlaces, List.mem_filter, List.mem_range] at hi
  simpa [hlt] using hi

end Problem

/-- The log of a solve in which every notice is written down can be put into words. -/
theorem Engine.exists_line? [Scalar F] [DecimalText F] {p : Problem F} {options : Options F}
    {rule : PivotRule} {run : Run F} (h : p.run? options rule = some run) {entry : Entry F}
    (hentry : entry ∈ Listener.logger.log (run.record p options)) :
    ∃ line, entry.line? = some line := by
  apply Entry.exists_line?
  rintro notice rfl
  obtain ⟨occurrence, hmem, hlogged⟩ := List.mem_flatMap.1 hentry
  cases occurrence with
  | logged entry =>
    exact absurd (by rw [List.mem_singleton.1 hlogged]) (run.plain_record p options _ hmem notice)
  | noticed other =>
    obtain rfl : notice = other := by
      cases List.mem_singleton.1 hlogged
      rfl
    have htold : notice ∈ run.told := by
      rw [← run.notices_record p options]
      exact List.mem_filterMap.2 ⟨_, hmem, rfl⟩
    exact Run.of_mem_told (P := WellFormed)
      (fun phase w hw => (Problem.legal_of_run? h hw).2.imp fun hfits => hfits.wellFormed) htold

/-- Whatever the scalars are, the two-phase method and the enumeration answer every program, whatever
the limits, the tolerances, the pivot rule and the listener are. A log of all notices can be put
into words. When phase two is entered, the variables that are basic in the rows that are kept are
variables of the program, which have a cost. -/
theorem Problem.always_answered [Scalar F] [DecimalText F] (p : Problem F) :
    (∀ (options : Options F) (rule : PivotRule),
      (∀ {σ : Type} (listener : Listener F σ) (state : σ), ∃ answer state',
        (Engine.mk options rule listener state).solve? p =
          some (answer, ⟨options, rule, listener, state'⟩)) ∧
      (∃ answer engine', (Engine.mk options rule .logger ()).solve? p = some (answer, engine') ∧
        ∀ entry ∈ answer.log, ∃ line, entry.line? = some line) ∧
      ∀ one redundant two, p.run? options rule = some (.entered one redundant two) →
        ∀ i j, one.tableau.basis[i]? = some j → i ∉ redundant → j < p.minimizationCost.length) ∧
    ∀ options : EnumerationOptions F, ∃ answer, p.enumerate? options = some answer := by
  refine ⟨fun options rule => ?_, fun options =>
    Option.isSome_iff_exists.1 (p.enumerate?_isSome options)⟩
  obtain ⟨run, hrun⟩ := p.exists_run? options rule
  refine ⟨fun listener state => ?_, ?_, fun one redundant two h i j hj hi => ?_⟩
  · exact ⟨_, _, by rw [Engine.solve?, hrun]; rfl⟩
  · exact ⟨_, _, by rw [Engine.solve?, hrun]; rfl, fun entry hentry =>
      Engine.exists_line? hrun hentry⟩
  · rw [p.cost_length]
    exact basis_lt_of_run? h hj hi

end SimplexMethod
