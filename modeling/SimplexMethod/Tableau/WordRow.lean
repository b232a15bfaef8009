import SimplexMethod.Tableau.Costs

/-!
# Constraint rows at word positions

A caller names a constraint row by a 64-bit word. The matrix has the costs in row 0 and each
constraint row one further down, and the step from the one position to the other is made in words
too: after the largest word comes the row of the costs again. At every other word the operations
agree with those on plain positions (`entryAt?_eq`, `withCostsAt?_eq`).
-/

namespace SimplexMethod

variable {F : Type}

namespace Tableau

/-- The row of the matrix that comes after a position. -/
def matrixRow (i : UInt64) : Nat := (i + 1).toNat

theorem matrixRow_eq {i : UInt64} (h : i.toNat + 1 < UInt64.size) :
    matrixRow i = i.toNat + 1 := by
  rw [matrixRow, UInt64.toNat_add]
  exact Nat.mod_eq_of_lt h

variable (t : Tableau F)

/-- The entry of the constraint row at a word position in a column. -/
def entryAt? (i j : UInt64) : Checked F := t.matrix.entry? (matrixRow i) j.toNat

theorem entryAt?_eq {i : UInt64} (j : UInt64) (h : i.toNat + 1 < UInt64.size) :
    t.entryAt? i j = t.entry? i.toNat j.toNat := by
  rw [entryAt?, matrixRow_eq h, entry?]

variable [Scalar F]

/-- The tableau of the program without the redundant constraint rows at word positions. -/
def withCostsAt? (redundant : List UInt64) (p : Problem F) : Checked (Tableau F) :=
  t.restate? (redundant.map matrixRow) (redundant.map UInt64.toNat) p

theorem withCostsAt?_eq {redundant : List UInt64} (p : Problem F)
    (h : ∀ i ∈ redundant, i.toNat + 1 < UInt64.size) :
    t.withCostsAt? redundant p = t.withCosts? (redundant.map UInt64.toNat) p := by
  have hrows : redundant.map matrixRow = (redundant.map UInt64.toNat).map (· + 1) := by
    rw [List.map_map]
    exact List.map_congr_left fun i hi => matrixRow_eq (h i hi)
  rw [withCostsAt?, withCosts?, hrows]

end Tableau

end SimplexMethod
