import Mathlib.Tactic
import SimplexMethod.Enumeration.Solve
import SimplexMethod.Proofs.Selection.Combinations
import SimplexMethod.Proofs.Selection.Count
import SimplexMethod.Scalar.Rational

/-!
# The limit of the enumeration

Before the choices of columns of a system are looked at, their number is compared with the limit. A
run does this for the constraints and, once it has a vertex, for the directions; `Problem.Searches`
says which systems it comes to, and a run ends with an error exactly when it comes to a system that
is over the limit (`Problem.enumerate?_eq_error_iff`).

The comparison is with the count of combinations in a word. As long as the limit is below the
largest word, no system with more choices than it allows is looked at
(`Problem.enumerate?_guarded`). In the other direction the count can be too large, since it gives up
when the last product does not fit a word: an error tells the true number of choices unless this
happens (`Problem.enumerate?_refusal`), and there is a program of 76 variables which is refused with
the wrong number although the limit allows all of its choices (`Problem.enumerate?_crowded`).
-/

set_option autoImplicit false

namespace SimplexMethod

variable {F : Type}

namespace System

/-- All choices of as many columns as there are rows. -/
def choices (s : System F) : List (List ℕ) :=
  combinations s.matrix.rowCount (List.range s.matrix.columns)

theorem length_choices (s : System F) :
    s.choices.length = s.matrix.columns.choose s.matrix.rowCount := by
  rw [choices, length_combinations, List.length_range]

/-- With more choices than a limit below the largest word, the count is over the limit too. -/
theorem lt_basisCount {s : System F} {limit : ℕ} (hlimit : limit < largestWord)
    (hmany : limit < s.choices.length) : limit < s.basisCount := by
  rw [length_choices] at hmany
  exact (lt_min hmany hlimit).trans_le (min_choose_le_waysToChoose _ _)

variable [Scalar F] {s : System F} {options : EnumerationOptions F} {error : SolveError}

theorem vertices?_eq_error_iff :
    s.vertices? options = some (.error error) ↔
      options.basisLimit < s.basisCount ∧ error = .enumerationLimit s.basisCount := by
  rw [vertices?]
  split
  · next hlimit => simp [hlimit, eq_comm]
  · next hlimit => cases s.matrix.vertices? s.rhs options.tolerance <;> simp [hlimit]

end System

namespace Problem

variable [Scalar F] {p : Problem F} {options : EnumerationOptions F} {error : SolveError}

/-- The systems whose choices of columns a run sets out to look at: the constraints without
dependent rows and, if there is a vertex, the normalized directions without dependent rows. -/
inductive Searches (p : Problem F) (options : EnumerationOptions F) : System F → Prop
  | vertices {s : System F}
      (hsystem : (System.mk p.constraints p.values).independent? options = some (some s)) :
      Searches p options s
  | directions {s t : System F} {vertices : List (Vertex F)} {least : F × Vertex F}
      (hsystem : (System.mk p.constraints p.values).independent? options = some (some s))
      (hvertices : s.vertices? options = some (.ok vertices))
      (hleast : p.leastVertex? options vertices = some least)
      (hdirections : s.directions.independent? options = some (some t)) :
      Searches p options t

theorem improvingDirection?_eq_error_iff {s : System F} :
    p.improvingDirection? options s = some (.error error) ↔
      ∃ t, s.directions.independent? options = some (some t) ∧
        t.vertices? options = some (.error error) := by
  rw [improvingDirection?]
  rcases s.directions.independent? options with _ | _ | t
  · simp
  · simp
  · rcases hvertices : t.vertices? options with _ | error' | vertices
    · simp [hvertices]
    · simp [hvertices, Except.map]
    · simp [hvertices, Except.map]

/-- A run ends with an error exactly when it comes to a system that is over the limit. -/
theorem enumerate?_eq_error_iff :
    (∃ answer, p.enumerate? options = some answer ∧ answer.result = .error error) ↔
      ∃ s, p.Searches options s ∧ s.vertices? options = some (.error error) := by
  constructor
  · -- The cases follow the run. Each way out of it other than the two refusals gives no error.
    rintro ⟨answer, hanswer, herror⟩
    rw [enumerate?] at hanswer
    obtain ⟨_ | s, hsystem, hanswer⟩ := Option.bind_eq_some_iff.1 hanswer
    · cases hanswer
      cases herror
    obtain ⟨_ | vertices, hvertices, hanswer⟩ := Option.bind_eq_some_iff.1 hanswer
    · cases hanswer
      cases herror
      exact ⟨s, .vertices hsystem, hvertices⟩
    dsimp only at hanswer
    rcases hleast : p.leastVertex? options vertices with _ | least
    · rw [hleast] at hanswer
      cases hanswer
      cases herror
    rw [hleast] at hanswer
    obtain ⟨_ | _ | direction, hdirection, hanswer⟩ := Option.bind_eq_some_iff.1 hanswer
    · cases hanswer
      cases herror
      obtain ⟨t, hdirections, hrefused⟩ := improvingDirection?_eq_error_iff.1 hdirection
      exact ⟨t, .directions hsystem hvertices hleast hdirections, hrefused⟩
    · cases hanswer
      cases herror
    · cases hanswer
      cases herror
  · rintro ⟨s, hsearches, hrefused⟩
    refine ⟨⟨.error error, []⟩, ?_, rfl⟩
    cases hsearches with
    | vertices hsystem =>
      rw [enumerate?, hsystem]
      simp [hrefused]
    | directions hsystem hvertices hleast hdirections =>
      have hdirection := (improvingDirection?_eq_error_iff (p := p)).2 ⟨s, hdirections, hrefused⟩
      rw [enumerate?, hsystem]
      simp [hvertices, hleast, hdirection]

/-! ## No larger system is looked at -/

/-- The count of combinations is never too small, and below the largest word it is the number of
combinations; each division on the way leaves nothing over, and no difference is below zero. So a
limit below the largest word holds: a system with more choices of columns is not looked at, and a
run that comes to it, in whichever of the two searches, ends with a count over the limit. -/
theorem enumerate?_guarded (p : Problem F) (options : EnumerationOptions F)
    (hlimit : options.basisLimit < largestWord) :
    (∀ available count : ℕ,
      min (available.choose count) largestWord ≤ waysToChoose available count ∧
        (waysToChoose available count < largestWord →
          waysToChoose available count = available.choose count) ∧
        ∀ chosen < min count (available - count), chosen ≤ available ∧
          ∀ ways, (List.range chosen).foldlM (chooseOneMore? available) 1 = some ways →
            chosen + 1 ∣ ways * (available - chosen)) ∧
      ∀ s : System F, options.basisLimit < s.choices.length →
        ∃ bases, options.basisLimit < bases ∧
          s.vertices? options = some (.error (.enumerationLimit bases)) ∧
          (p.Searches options s → ∃ answer, p.enumerate? options = some answer ∧
            answer.result = .error (.enumerationLimit bases)) := by
  refine ⟨fun available count => ⟨min_choose_le_waysToChoose _ _, waysToChoose_eq_choose,
    fun chosen hchosen => ⟨by omega, fun ways => dvd_of_foldlM_chooseOneMore? hchosen⟩⟩,
    fun s hmany => ?_⟩
  have hover := System.lt_basisCount hlimit hmany
  have hrefused := System.vertices?_eq_error_iff.2 ⟨hover, rfl⟩
  exact ⟨s.basisCount, hover, hrefused, fun hsearches =>
    enumerate?_eq_error_iff.2 ⟨s, hsearches, hrefused⟩⟩

/-- One equation in four variables. It has four choices of columns, and its directions have six. -/
def weighted : Problem ℚ where
  constraints := ⟨[[1, 2, 3, 4]], 4⟩
  values := [1]
  minimizationCost := [0, 0, 0, -1]
  direction := .minimize
  rows_ne_nil := nofun
  columns_pos := by decide
  rectangular := by simp [RowMatrix.Rectangular]
  values_length := rfl
  cost_length := rfl

/-- The directions of the weighted equation. -/
def weightedDirections : System ℚ := ⟨⟨[[1, 2, 3, 4], [1, 1, 1, 1]], 4⟩, [0, 1]⟩

theorem searches_weightedDirections : weighted.Searches ⟨0, 5⟩ weightedDirections := by
  have hsystem : (System.mk weighted.constraints weighted.values).independent? ⟨0, 5⟩ =
      some (some ⟨weighted.constraints, weighted.values⟩) := by decide +kernel
  have hvertices : (System.mk weighted.constraints weighted.values).vertices? ⟨0, 5⟩ =
      some (.ok [⟨[0], [1, 0, 0, 0]⟩, ⟨[1], [0, 1/2, 0, 0]⟩, ⟨[2], [0, 0, 1/3, 0]⟩,
        ⟨[3], [0, 0, 0, 1/4]⟩]) := by decide +kernel
  have hleast : weighted.leastVertex? ⟨0, 5⟩ [⟨[0], [1, 0, 0, 0]⟩, ⟨[1], [0, 1/2, 0, 0]⟩,
      ⟨[2], [0, 0, 1/3, 0]⟩, ⟨[3], [0, 0, 0, 1/4]⟩] =
        some (-1/4, ⟨[3], [0, 0, 0, 1/4]⟩) := by decide +kernel
  exact .directions hsystem hvertices hleast (by decide +kernel)

theorem enumerate?_guarded_weighted : (⟨0, 5⟩ : EnumerationOptions ℚ).basisLimit < largestWord ∧
    5 < weightedDirections.choices.length ∧ weighted.Searches ⟨0, 5⟩ weightedDirections ∧
    ∃ bases answer, 5 < bases ∧ weighted.enumerate? ⟨0, 5⟩ = some answer ∧
      answer.result = .error (.enumerationLimit bases) := by
  have hlimit : (⟨0, 5⟩ : EnumerationOptions ℚ).basisLimit < largestWord := by decide +kernel
  have hmany : 5 < weightedDirections.choices.length := by decide +kernel
  have hsearches := searches_weightedDirections
  obtain ⟨-, hguarded⟩ := weighted.enumerate?_guarded ⟨0, 5⟩ hlimit
  obtain ⟨bases, hover, -, hends⟩ := hguarded weightedDirections hmany
  obtain ⟨answer, hanswer, herror⟩ := hends hsearches
  exact ⟨hlimit, hmany, hsearches, bases, answer, hover, hanswer, herror⟩

/-! ## What a refusal tells -/

/-- The count of combinations is exact when a word holds its product with the smaller number of
elements, those chosen or those left out, and the largest word otherwise. So a run that ends with an
error has come to a system of which the error tells the number of choices of columns, which is over
the limit, unless that product does not fit a word. -/
theorem enumerate?_refusal (p : Problem F) (options : EnumerationOptions F) :
    (∀ available count : ℕ, waysToChoose available count =
      if available.choose count * min count (available - count) ≤ largestWord then
        available.choose count
      else largestWord) ∧
      ∀ answer bases, p.enumerate? options = some answer →
        answer.result = .error (.enumerationLimit bases) →
          options.basisLimit < bases ∧ ∃ s, p.Searches options s ∧
            bases = if s.choices.length * min s.matrix.rowCount
                (s.matrix.columns - s.matrix.rowCount) ≤ largestWord then s.choices.length
              else largestWord := by
  refine ⟨waysToChoose_eq, fun answer bases hanswer herror => ?_⟩
  obtain ⟨s, hsearches, hrefused⟩ := enumerate?_eq_error_iff.1 ⟨answer, hanswer, herror⟩
  obtain ⟨hover, hbases⟩ := System.vertices?_eq_error_iff.1 hrefused
  obtain rfl := SolveError.enumerationLimit.inj hbases
  refine ⟨hover, s, hsearches, ?_⟩
  rw [System.length_choices, System.basisCount, waysToChoose_eq]

theorem enumerate?_refusal_weighted : ∃ answer, weighted.enumerate? ⟨0, 5⟩ = some answer ∧
    answer.result = .error (.enumerationLimit 6) ∧ ∃ s, weighted.Searches ⟨0, 5⟩ s ∧
      6 = if s.choices.length * min s.matrix.rowCount
          (s.matrix.columns - s.matrix.rowCount) ≤ largestWord then s.choices.length
        else largestWord := by
  have hrun : (weighted.enumerate? ⟨0, 5⟩).map Answer.result =
      some (.error (.enumerationLimit 6)) := by decide +kernel
  obtain ⟨answer, hanswer, herror⟩ := Option.map_eq_some_iff.1 hrun
  obtain ⟨-, htells⟩ := weighted.enumerate?_refusal ⟨0, 5⟩
  exact ⟨answer, hanswer, herror, (htells answer 6 hanswer herror).2⟩

/-- Twenty variables have the value one, and there are fifty-six more. -/
def crowded : Problem ℚ where
  constraints :=
    ⟨(List.range 20).map fun i => (List.range 76).map fun j => if i = j then 1 else 0, 76⟩
  values := List.replicate 20 1
  minimizationCost := List.replicate 76 0
  direction := .minimize
  rows_ne_nil := nofun
  columns_pos := Nat.zero_lt_succ _
  rectangular := by simp [RowMatrix.Rectangular]
  values_length := rfl
  cost_length := rfl

/-- A run comes to a system with as many choices of columns as the limit allows, and ends with an
error, which gives the largest word for their number. -/
theorem enumerate?_crowded :
    crowded.Searches ⟨0, Nat.choose 76 20⟩ ⟨crowded.constraints, crowded.values⟩ ∧
      (System.mk crowded.constraints crowded.values).choices.length = Nat.choose 76 20 ∧
      Nat.choose 76 20 < largestWord ∧
      ∃ answer, crowded.enumerate? ⟨0, Nat.choose 76 20⟩ = some answer ∧
        answer.result = .error (.enumerationLimit largestWord) := by
  -- The recursion of `Nat.choose` is too long to evaluate here, the factorials are not.
  have hchoose : Nat.choose 76 20 = 1090013712241956540 := by
    rw [Nat.choose_eq_descFactorial_div_factorial]
    decide +kernel
  have hsearches : crowded.Searches ⟨0, Nat.choose 76 20⟩ ⟨crowded.constraints, crowded.values⟩ :=
    .vertices (by decide +kernel)
  have hrefused : (System.mk crowded.constraints crowded.values).vertices? ⟨0, Nat.choose 76 20⟩ =
      some (.error (.enumerationLimit largestWord)) := by
    rw [System.vertices?_eq_error_iff, hchoose]
    decide +kernel
  refine ⟨hsearches, ?_, ?_, enumerate?_eq_error_iff.2 ⟨_, hsearches, hrefused⟩⟩
  · exact System.length_choices _
  · rw [hchoose]
    decide +kernel

end Problem

end SimplexMethod
