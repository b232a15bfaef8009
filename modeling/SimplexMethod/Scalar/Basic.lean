/-!
# Scalars

The numbers that a linear program is written in. `Scalar` lists the operations which the method
uses and assumes no law of them: binary floating-point numbers, in which addition is not
associative and a NaN compares as false with everything, are scalars just as the rationals are.

Because no law is assumed, the order of operations is part of every definition. Sums run from the
left and start at `-0`, the one value which leaves every floating-point addend as it is, its sign
included.
-/

namespace SimplexMethod

/-- Numbers with arithmetic, an order and an equality test, all of them without laws. -/
class Scalar (F : Type) extends Zero F, One F, Neg F, Add F, Sub F, Mul F, Div F, LT F, LE F,
    BEq F, OfScientific F where
  /-- The magnitude of a number. -/
  abs : F → F
  /-- Whether one number is below another. -/
  decideLT : DecidableLT F
  /-- Whether one number is at most another. -/
  decideLE : DecidableLE F

namespace Scalar

variable {F : Type} [Scalar F]

instance : DecidableLT F := Scalar.decideLT

instance : DecidableLE F := Scalar.decideLE

/-- A number counts as zero when its magnitude is at most the tolerance. -/
def Negligible (tolerance x : F) : Prop := abs x ≤ tolerance

instance (tolerance x : F) : Decidable (Negligible tolerance x) :=
  inferInstanceAs (Decidable (abs x ≤ tolerance))

/-- The sum from the left, starting at `-0`. -/
def sum (xs : List F) : F := xs.foldl (· + ·) (-0)

/-- The sum of the products of entries at equal positions; the longer list's surplus is ignored. -/
def dot (xs ys : List F) : F := sum (List.zipWith (· * ·) xs ys)

/-- The larger of two numbers; a number that differs from itself (a NaN) gives way to the other. -/
def larger (x y : F) : F := if x < y ∨ (x != x) = true then y else x

end Scalar

end SimplexMethod
