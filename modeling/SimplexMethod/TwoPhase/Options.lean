import SimplexMethod.Scalar.Basic

/-!
# Options of the two-phase method
-/

namespace SimplexMethod

/-- How many pivots each phase may make, and the magnitude up to which a number counts as zero when
pivots are chosen and feasibility is decided. -/
structure Options (F : Type) where
  pivotLimit : Nat
  tolerance : F
  deriving DecidableEq

/-- Ten thousand pivots, and a tolerance of `10 ^ -10`. -/
instance {F : Type} [Scalar F] : Inhabited (Options F) := ⟨⟨10000, 1e-10⟩⟩

end SimplexMethod
