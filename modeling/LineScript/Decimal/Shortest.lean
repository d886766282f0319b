import LineScript.Decimal.Basic
import LineScript.Decimal.Magnitude

/-!
# Shortest digits

The printed digits of a number are the fewest that read back as the same number. For each count of
digits the neighbours of the number on that decimal grid are tried, the nearer one first.
-/

namespace LineScript.Decimal

/-- The power of ten of the leading digit of a positive finite number. -/
def leadingPower (n : Float) : Int :=
  let units := magnitude n
  if unitsPerOne ≤ units then
    (Nat.toDigits 10 (units / unitsPerOne)).length - 1
  else
    -- No power of ten below one is a float, so the reciprocal is never a power of ten itself.
    -((Nat.toDigits 10 (unitsPerOne / units)).length : Int)

/-- The neighbours of a positive finite number among the multiples of `10 ^ exponent`, the nearer
one first. Of two equally near ones the larger comes first. A neighbour further away than half the
spacing of floats is left out: it reads as another number. -/
def neighbours (n : Float) (exponent : Int) : List Decimal :=
  -- `numerator / denominator` is the number in units of `10 ^ exponent`.
  let scale := Nat.pow 10 (-exponent).toNat
  let numerator := magnitude n * scale
  let denominator := unitsPerOne * Nat.pow 10 exponent.toNat
  let quotient := numerator / denominator
  let below := (quotient, numerator % denominator)
  let above := (quotient + 1, denominator - numerator % denominator)
  let ordered := if below.2 < above.2 then [below, above] else [above, below]
  ordered.filterMap fun (coefficient, distance) =>
    if 2 * distance ≤ spacing n * scale then some (ofScaled coefficient exponent) else none

/-- Whether a decimal reads back as exactly the number `n`. -/
def readsAs (n : Float) (d : Decimal) : Bool :=
  d.toFloat.toBits == n.toBits

/-- All digits of a finite number: `2 ^ (-1074)` is `5 ^ 1074 * 10 ^ (-1074)`. -/
def exact (n : Float) : Decimal :=
  ofScaled (magnitude n * Nat.pow 5 1074) (-1074)

/-- The decimal with the fewest digits that reads back as the positive finite number `n`, of those
the nearest. Seventeen digits are always enough. -/
def shortest (n : Float) : Decimal :=
  let power := leadingPower n
  ((List.range 17).findSome? fun (extra : Nat) =>
    (neighbours n (power - extra)).find? (readsAs n)).getD (exact n)

end LineScript.Decimal
