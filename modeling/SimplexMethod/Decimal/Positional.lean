import SimplexMethod.Decimal.Shortest

/-!
# Positional decimal text

Numbers in log entries are written without an exponent, whatever their size, and without a point
when they are whole. Zero keeps its sign.
-/

namespace SimplexMethod.Decimal

open SimplexMethod.Binary

/-- The digits of a number, with zeros in front of them up to the given width. -/
def padded (width number : Nat) : List Char :=
  let digits := Nat.toDigits 10 number
  List.replicate (width - digits.length) '0' ++ digits

/-- The fraction digits without the zeros at their end. -/
def stripZeros (digits : List Char) : List Char :=
  (digits.reverse.dropWhile (· == '0')).reverse

/-- A decimal in positional notation: a point and a fraction only when the fraction is not zero. -/
def Numeral.positional (d : Numeral) : List Char :=
  let places := (-d.exponent).toNat
  let unit := Nat.pow 10 places
  let whole := d.digits * Nat.pow 10 d.exponent.toNat / unit
  let fraction := stripZeros (padded places (d.digits % unit))
  Nat.toDigits 10 whole ++ (if fraction.isEmpty || places == 0 then [] else '.' :: fraction)

/-- The text of what a word stands for. -/
def text : Reading → String
  | .nan => "NaN"
  | .infinite negative => if negative then "-inf" else "inf"
  | .finite negative magnitude =>
    let digits := String.ofList (shortest magnitude).positional
    if negative then "-" ++ digits else digits

end SimplexMethod.Decimal
