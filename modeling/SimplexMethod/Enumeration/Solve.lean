import SimplexMethod.Enumeration.Vertices
import SimplexMethod.Log.Answer
import SimplexMethod.Problem.Basic
import SimplexMethod.RowMatrix.Independence
import SimplexMethod.Selection.Count

/-!
# Solving by enumeration

A program with an optimum has an optimal vertex, and a feasible program without one has an extreme
ray along which the objective improves. Both are found here by looking at all of them, which is
practical for small programs only. The extreme rays of the cone of directions `A d = 0`, `d ≥ 0` are
the vertices of the system in which the entries of `d` add up to one as well.
-/

namespace SimplexMethod

variable {F : Type}

/-- The magnitude up to which a number counts as zero, and how many choices of columns may be
examined in each of the two searches. -/
structure EnumerationOptions (F : Type) where
  tolerance : F
  basisLimit : Nat
  deriving DecidableEq

variable [Scalar F]

/-- A tolerance of `10 ^ -9`, and a million choices. -/
instance : Inhabited (EnumerationOptions F) := ⟨⟨1e-9, 1000000⟩⟩

/-- A system of equations. -/
structure System (F : Type) where
  matrix : RowMatrix F
  rhs : List F
  deriving DecidableEq

namespace System

variable (s : System F) (options : EnumerationOptions F)

/-- The system without the rows that depend on earlier ones; `none` inside when it is
inconsistent. -/
def independent? : Checked (Option (System F)) := do
  match ← s.matrix.independentRows? s.rhs options.tolerance with
  | none => return none
  | some kept =>
    return some ⟨← s.matrix.selectRows? kept, ← kept.mapM fun i => s.rhs[i]?⟩

omit [Scalar F] in
/-- The number of choices of columns to examine. -/
def basisCount : Nat := waysToChoose s.matrix.columns s.matrix.rowCount

/-- The vertices of the system, unless there are too many choices of columns. -/
def vertices? : Checked (Except SolveError (List (Vertex F))) :=
  if options.basisLimit < s.basisCount then some (.error (.enumerationLimit s.basisCount))
  else do return .ok (← s.matrix.vertices? s.rhs options.tolerance)

/-- The system of the directions in which its solutions can move, scaled so that their entries add
up to one. -/
def directions : System F :=
  ⟨s.matrix.pushRow (List.replicate s.matrix.columns 1),
    List.replicate s.matrix.rowCount 0 ++ [1]⟩

end System

namespace Problem

variable (p : Problem F) (options : EnumerationOptions F)

/-- The cost of the equivalent minimization at a point. -/
def minimizedAt (x : List F) : F := Scalar.dot p.minimizationCost x

/-- The first vertex of least cost, where costs that differ by a negligible amount count as equal,
with its cost. -/
def leastVertex? (vertices : List (Vertex F)) : Option (F × Vertex F) :=
  tolerantLeast? options.tolerance Prod.fst
    (vertices.map fun vertex => (p.minimizedAt vertex.values, vertex))

/-- The first extreme direction with a cost below minus the tolerance, if the directions of the
system are consistent. -/
def improvingDirection? (system : System F) : Checked (Except SolveError (Option (List F))) := do
  match ← system.directions.independent? options with
  | none => return .ok none
  | some directions =>
    return (← directions.vertices? options).map fun vertices =>
      (vertices.map Vertex.values).find? fun d => p.minimizedAt d < -options.tolerance

/-- Solves a program by looking at all vertices and all extreme rays. -/
def enumerate? : Checked (Answer F) := do
  match ← (System.mk p.constraints p.values).independent? options with
  | none => return ⟨.ok .infeasible, [.inconsistent]⟩
  | some system =>
    match ← system.vertices? options with
    | .error error => return ⟨.error error, []⟩
    | .ok vertices =>
      match p.leastVertex? options vertices with
      | none => return ⟨.ok .infeasible, [.noVertex]⟩
      | some (minimum, vertex) =>
        match ← p.improvingDirection? options system with
        | .error error => return ⟨.error error, []⟩
        | .ok (some direction) =>
          return ⟨.ok (.unbounded ⟨vertex.values, direction⟩), [.improvingRay]⟩
        | .ok none =>
          return ⟨.ok (.optimal ⟨p.reported minimum, vertex.values, vertex.basis, ⟨0, 0⟩⟩), []⟩

end Problem

end SimplexMethod
