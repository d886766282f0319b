import LineScript.Decimal.Shortest

/-!
# Numbers as text

Finite numbers are written positionally with their shortest digits. What differs from one place to
the next is the spelling of the numbers that have no digits, and whether a zero keeps its sign.
-/

namespace LineScript

/-- The choices of one way to write numbers. -/
structure NumberFormat where
  /-- The spelling of what is not a number. -/
  notANumber : String
  /-- The spelling of positive infinity. -/
  infinity : String
  /-- Whether the zero of negative sign is written with its sign. -/
  signedZero : Bool

namespace NumberFormat

/-- The digits of the absolute value of a number that is a number. -/
def unsigned (format : NumberFormat) (n : Float) : String :=
  if n.isInf then format.infinity
  else if magnitude n = 0 then "0"
  else String.ofList (Decimal.shortest n.abs).positional

/-- A number as text. -/
def write (format : NumberFormat) (n : Float) : String :=
  if n.isNaN then format.notANumber
  else if isNegative n && (format.signedZero || magnitude n != 0) then
    "-" ++ format.unsigned n
  else
    format.unsigned n

end NumberFormat

/-- Sanity check: the shortest digits, without an exponent. -/
example : NumberFormat.write ⟨"NaN", "Infinity", false⟩ (-0.1) = "-0.1" := by decide +kernel

/-- Sanity check: large numbers are written out. -/
example : NumberFormat.write ⟨"NaN", "Infinity", false⟩ 1e21 = "1000000000000000000000" := by
  decide +kernel

/-- Sanity check: the sign of zero is kept on demand. -/
example : NumberFormat.write ⟨"NaN", "inf", true⟩ (-0.0) = "-0" := by decide +kernel

end LineScript
