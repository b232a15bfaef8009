/-!
# Binary floating-point words

A word of a binary floating-point format has a sign bit, a field for the exponent and a field for
the fraction. `Layout.read` takes a word apart into the number it stands for: a natural mantissa
times a power of two.
-/

namespace SimplexMethod.Binary

/-- The widths of the two fields below the sign bit. -/
structure Layout where
  exponentBits : Nat
  fractionBits : Nat
  deriving DecidableEq

/-- Eleven exponent bits and 52 fraction bits. -/
def doubleLayout : Layout := ⟨11, 52⟩

/-- Eight exponent bits and 23 fraction bits. -/
def singleLayout : Layout := ⟨8, 23⟩

/-- The magnitude `mantissa * 2 ^ exponent`. The next larger number of the format is one unit of
the mantissa away; `narrowBelow` says that the next smaller one is only half a unit away, as it is
below a power of two. -/
structure Magnitude where
  mantissa : Nat
  exponent : Int
  narrowBelow : Bool
  deriving DecidableEq

/-- What a word stands for. -/
inductive Reading where
  | nan
  | infinite (negative : Bool)
  | finite (negative : Bool) (magnitude : Magnitude)
  deriving DecidableEq

/-- Takes a word apart. An exponent field of ones holds the infinities and the NaNs, one of zeros
the numbers without a leading one bit. -/
def Layout.read (layout : Layout) (word : Nat) : Reading :=
  let fractions := Nat.pow 2 layout.fractionBits
  let fields := Nat.pow 2 layout.exponentBits
  let fraction := word % fractions
  let field := word / fractions % fields
  let negative := word / fractions / fields % 2 == 1
  let unit : Int := 2 - (fields / 2 : Nat) - layout.fractionBits
  if field + 1 = fields then
    if fraction = 0 then .infinite negative else .nan
  else if field = 0 then .finite negative ⟨fraction, unit, false⟩
  else .finite negative ⟨fractions + fraction, unit + (field - 1 : Nat), fraction == 0 && field != 1⟩

end SimplexMethod.Binary
