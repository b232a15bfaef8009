import SimplexMethod.Scalar.Basic

/-!
# Exact scalars

The rational numbers, in which every operation of the method is exact.
-/

namespace SimplexMethod

instance : Scalar Rat where
  zero := 0
  one := 1
  abs := Rat.abs
  decideLT := inferInstance
  decideLE := inferInstance

end SimplexMethod
