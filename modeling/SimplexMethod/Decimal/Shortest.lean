import SimplexMethod.Binary.Layout

/-!
# The shortest decimal of a binary number

A binary number is written with the fewest decimal digits that identify it: the decimal lies in the
interval of reals that are rounded to the number. Grids of decimals are tried from the coarsest to
the finest. If a point of a grid lies in the interval then so does one of the two neighbours of the
number on that grid, so only these are looked at; of two that lie inside, the nearer one is taken,
and the upper one when they are equally near.
-/

namespace SimplexMethod.Decimal

open SimplexMethod.Binary

/-- The decimal `digits * 10 ^ exponent`. -/
structure Numeral where
  digits : Nat
  exponent : Int
  deriving DecidableEq

/-- A number and the ends of the interval that is rounded to it, all over one denominator. The
ends belong to the interval when `closed`. -/
structure Interval where
  low : Nat
  value : Nat
  high : Nat
  denominator : Nat
  closed : Bool
  deriving DecidableEq

/-- The interval of a magnitude: half a unit upward, and half the distance to the next smaller
number downward. Ties are rounded to an even mantissa, so an even one owns the ends. -/
def Interval.ofMagnitude (m : Magnitude) : Interval :=
  let below := if m.narrowBelow then 1 else 2
  let up := Nat.pow 2 (m.exponent - 2).toNat
  { low := (4 * m.mantissa - below) * up
    value := 4 * m.mantissa * up
    high := (4 * m.mantissa + 2) * up
    denominator := Nat.pow 2 (2 - m.exponent).toNat
    closed := m.mantissa % 2 == 0 }

/-- The interval in units of the grid `10 ^ exponent`: each of its numbers over the denominator. -/
def Interval.onGrid (i : Interval) (exponent : Int) : Interval :=
  let up := Nat.pow 10 (-exponent).toNat
  { i with
    low := i.low * up
    value := i.value * up
    high := i.high * up
    denominator := i.denominator * Nat.pow 10 exponent.toNat }

/-- Whether a whole number lies in the interval. -/
def Interval.holds (i : Interval) (point : Nat) : Bool :=
  let scaled := point * i.denominator
  if i.closed then i.low ≤ scaled && scaled ≤ i.high else i.low < scaled && scaled < i.high

/-- The whole number of the interval that is nearest to its value, if there is one. -/
def Interval.nearest? (i : Interval) : Option Nat :=
  let down := i.value / i.denominator
  match i.holds down, i.holds (down + 1) with
  | true, true =>
    some (if (down + 1) * i.denominator - i.value ≤ i.value - down * i.denominator then down + 1
      else down)
  | true, false => some down
  | false, true => some (down + 1)
  | false, false => none

/-- Tries `count` grids beginning with `10 ^ exponent`; if none of them has a point in the interval
the value is cut to the grid after them. -/
def Interval.shortestFrom (i : Interval) : Nat → Int → Numeral
  | 0, exponent =>
    let grid := i.onGrid exponent
    ⟨grid.value / grid.denominator, exponent⟩
  | count + 1, exponent =>
    match (i.onGrid exponent).nearest? with
    | some digits => ⟨digits, exponent⟩
    | none => i.shortestFrom count (exponent - 1)

/-- The number of decimal digits of a positive number. -/
def digitCount (number : Nat) : Nat := (Nat.toDigits 10 number).length

/-- The exponent of a grid that is not finer than the leading digit of the value. -/
def Interval.leading (i : Interval) : Int :=
  if i.denominator ≤ i.value then (digitCount (i.value / i.denominator) : Int) - 1
  else 1 - (digitCount (i.denominator / i.value) : Int)

/-- The number of grids within which every number of the two formats has its decimal: seventeen
digits always suffice, and the search may begin one grid above the leading digit. -/
def gridLimit : Nat := 18

/-- The shortest decimal that identifies a magnitude. -/
def shortest (m : Magnitude) : Numeral :=
  if m.mantissa = 0 then ⟨0, 0⟩
  else
    let i := Interval.ofMagnitude m
    i.shortestFrom gridLimit i.leading

end SimplexMethod.Decimal
