import SimplexMethod.Decimal.Positional
import SimplexMethod.Scalar.Basic

/-!
# Binary floating-point scalars

Double and single precision. Each operation rounds once to the nearest number of the format, and a
product that is added is rounded before the sum is.
-/

namespace SimplexMethod

/-- Scalars that have a text in log entries. -/
class DecimalText (F : Type) where
  /-- The text of a number. -/
  text : F → String

/-- Binary floating-point scalars. Double precision is the format in which they are exchanged. -/
class BinaryScalar (F : Type) extends Scalar F, DecimalText F where
  /-- The number of the format nearest to a double. -/
  ofDouble : Float → F
  /-- The double of equal value. -/
  toDouble : F → Float

instance : Scalar Float where
  zero := 0
  one := 1
  abs := Float.abs
  decideLT := inferInstance
  decideLE := inferInstance

instance : Scalar Float32 where
  zero := 0
  one := 1
  abs := Float32.abs
  decideLT := inferInstance
  decideLE := inferInstance

instance : BinaryScalar Float where
  text x := Decimal.text (Binary.doubleLayout.read x.toBits.toNat)
  ofDouble x := x
  toDouble x := x

instance : BinaryScalar Float32 where
  text x := Decimal.text (Binary.singleLayout.read x.toBits.toNat)
  ofDouble := Float.toFloat32
  toDouble := Float32.toFloat

end SimplexMethod
