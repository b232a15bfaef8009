/-!
# Counting combinations in a word

The number of combinations is computed as a running product and kept in a 64-bit word. A product
that does not fit is not computed; the count is then given as the largest word.
-/

namespace SimplexMethod

/-- The largest number that fits a 64-bit word. -/
def largestWord : Nat := Nat.pow 2 64 - 1

/-- From the number of ways to choose `chosen` out of `available` elements, the number of ways to
choose one more, if the product on the way fits a word. The division is exact. -/
def chooseOneMore? (available ways chosen : Nat) : Option Nat :=
  if ways * (available - chosen) ≤ largestWord then
    some (ways * (available - chosen) / (chosen + 1))
  else none

/-- The number of ways to choose `count` out of `available` elements, or the largest word when a
product on the way to it does not fit. Choosing the elements to leave out comes to the same, so the
smaller of the two numbers is used. -/
def waysToChoose (available count : Nat) : Nat :=
  if available < count then 0
  else
    ((List.range (min count (available - count))).foldlM (chooseOneMore? available) 1).getD
      largestWord

end SimplexMethod
