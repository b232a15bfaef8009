import SimplexMethod.Scalar.Basic

/-!
# Outcomes

What comes of solving a linear program: it is infeasible, it has an optimal solution, or its
objective improves without limit along a ray. A method that gives up before it knows which of these
is the case ends with a `SolveError` instead.
-/

namespace SimplexMethod

variable {F : Type}

/-- The phases of the method: one looks for a feasible basis, two improves it. -/
inductive Phase where
  | one
  | two
  deriving DecidableEq

/-- The number of a phase. -/
def Phase.name : Phase → String
  | one => "1"
  | two => "2"

instance : ToString Phase := ⟨Phase.name⟩

/-- How many pivots each phase made. -/
structure PivotCounts where
  one : Nat
  two : Nat
  deriving DecidableEq

/-- The pivots of a phase. -/
def PivotCounts.inPhase (counts : PivotCounts) : Phase → Nat
  | .one => counts.one
  | .two => counts.two

/-- The pivots of both phases, counted in a 64-bit word. -/
def PivotCounts.total (counts : PivotCounts) : UInt64 := counts.one.toUInt64 + counts.two.toUInt64

/-- The count is the sum, as long as a word holds the sum. -/
theorem PivotCounts.toNat_total {counts : PivotCounts}
    (h : counts.one + counts.two < UInt64.size) :
    counts.total.toNat = counts.one + counts.two := by
  rw [total, Nat.toUInt64_eq, Nat.toUInt64_eq, ← UInt64.ofNat_add, UInt64.toNat_ofNat']
  exact Nat.mod_eq_of_lt h

/-- An optimal solution: the objective in the direction asked for, a value for each variable, the
variable that is basic in each row that was not redundant, and the pivots it took. -/
structure Solution (F : Type) where
  objective : F
  values : List F
  basis : List Nat
  pivots : PivotCounts
  deriving DecidableEq

/-- A feasible point and a direction in which the feasible region does not end. -/
structure Ray (F : Type) where
  point : List F
  direction : List F
  deriving DecidableEq

/-- The point reached by moving a number of steps along the direction. -/
def Ray.along [Scalar F] (ray : Ray F) (step : F) : List F :=
  List.zipWith (fun x d => x + step * d) ray.point ray.direction

/-- Which of the three outcomes it is. -/
inductive Status where
  | optimal
  | unbounded
  | infeasible
  deriving DecidableEq

/-- The name of a status. -/
def Status.name : Status → String
  | optimal => "optimal"
  | unbounded => "unbounded"
  | infeasible => "infeasible"

instance : ToString Status := ⟨Status.name⟩

/-- What a linear program turned out to be. -/
inductive Outcome (F : Type) where
  /-- No nonnegative point satisfies the constraints. -/
  | infeasible
  /-- The solution is optimal. -/
  | optimal (solution : Solution F)
  /-- The objective improves without limit along the ray. -/
  | unbounded (ray : Ray F)
  deriving DecidableEq

namespace Outcome

/-- The status of an outcome. -/
def status : Outcome F → Status
  | infeasible => .infeasible
  | optimal _ => .optimal
  | unbounded _ => .unbounded

/-- The optimal solution, if there is one. -/
def solution? : Outcome F → Option (Solution F)
  | optimal solution => some solution
  | _ => none

/-- The optimal objective, if there is one. -/
def objective? (outcome : Outcome F) : Option F := outcome.solution?.map Solution.objective

end Outcome

/-- Why a method gave up. -/
inductive SolveError where
  /-- A phase needed more pivots than are allowed, after it had made `pivots` of them. -/
  | pivotLimit (phase : Phase) (pivots : Nat)
  /-- The sum of the artificial variables, which cannot be negative, seemed to have no lower bound:
  an effect of rounding. -/
  | artificialUnbounded
  /-- More bases would have to be examined than are allowed. -/
  | enumerationLimit (bases : Nat)
  deriving DecidableEq

/-- Why the method gave up, in words. -/
def SolveError.message : SolveError → String
  | pivotLimit phase pivots => s!"reached the limit of {pivots} pivots in phase {phase}"
  | artificialUnbounded =>
    "the artificial objective appears unbounded, the problem is numerically ill-conditioned"
  | enumerationLimit bases => s!"enumeration needs {bases} bases, more than the configured limit"

end SimplexMethod
