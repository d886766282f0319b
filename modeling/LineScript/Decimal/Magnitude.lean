/-!
# The exact value of a number

Numbers are IEEE-754 double-precision floats. Every finite one is a whole multiple of `2 ^ (-1074)`,
so its absolute value is described exactly by one natural number. Rounding up, testing for wholeness
and comparing with decimal fractions are then plain arithmetic on natural numbers.
-/

namespace LineScript

/-- How many units of the least positive float make one. -/
def unitsPerOne : Nat :=
  1 <<< 1074

/-- Whether the sign bit of a number is set. -/
def isNegative (n : Float) : Bool :=
  0x8000000000000000 ≤ n.toBits.toNat

/-- The absolute value of a finite number, in units of the least positive float. -/
def magnitude (n : Float) : Nat :=
  let fraction := n.toBits.toNat % 0x10000000000000
  let exponent := n.toBits.toNat / 0x10000000000000 % 0x800
  if exponent = 0 then fraction else (0x10000000000000 + fraction) <<< (exponent - 1)

/-- The distance of a finite number to the next one further from zero, in the same units. -/
def spacing (n : Float) : Nat :=
  1 <<< (n.toBits.toNat / 0x10000000000000 % 0x800 - 1)

/-- The natural number a finite number is equal to, if there is one. Both zeros are equal to `0`. -/
def toNat? (n : Float) : Option Nat :=
  let units := magnitude n
  if units % unitsPerOne = 0 && n.isFinite && (!isNegative n || units = 0) then
    some (units / unitsPerOne)
  else
    none

/-- The least natural number that is not below a finite number of positive sign. -/
def ceiling (n : Float) : Nat :=
  (magnitude n + (unitsPerOne - 1)) / unitsPerOne

end LineScript
