/-!
# Decimal numbers

A decimal is a coefficient times a power of ten. It is what a number literal spells, and what the
digits of a printed number stand for.
-/

namespace LineScript

/-- The decimal `coefficient * 10 ^ exponent`. -/
structure Decimal where
  /-- The digits, read as one natural number. -/
  coefficient : Nat
  /-- The power of ten that the coefficient is scaled by. -/
  exponent : Int
deriving DecidableEq, Repr

namespace Decimal

/-- The value of a digit character. -/
def digitValue (c : Char) : Nat :=
  c.toNat - '0'.toNat

/-- The natural number that a list of digit characters spells. -/
def natOfDigits (digits : List Char) : Nat :=
  digits.foldl (fun n c => 10 * n + digitValue c) 0

/-- Digits without their trailing zeros. -/
def withoutTrailingZeros (digits : List Char) : List Char :=
  (digits.reverse.dropWhile (· == '0')).reverse

/-- The decimal with the given digits, of which the last counts `10 ^ exponent`. Trailing zeros move
into the exponent, so equal numbers with the same leading digit have the same form. -/
def ofDigits (digits : List Char) (exponent : Int) : Decimal :=
  let kept := withoutTrailingZeros digits
  { coefficient := natOfDigits kept
    exponent := exponent + (digits.length - kept.length : Nat) }

/-- The decimal `coefficient * 10 ^ exponent` with the trailing zeros of the coefficient moved into
the exponent. -/
def ofScaled (coefficient : Nat) (exponent : Int) : Decimal :=
  ofDigits (Nat.toDigits 10 coefficient) exponent

/-- The float nearest to a decimal, of two equally near ones the even. -/
def toFloat (d : Decimal) : Float :=
  Float.ofScientific d.coefficient (d.exponent < 0) d.exponent.natAbs

/-- Whether a text is an unsigned literal: digits, at least one, with at most one point. -/
def isLiteral (text : List Char) : Bool :=
  text.any Char.isDigit && text.all (fun c => c.isDigit || c == '.') && text.count '.' ≤ 1

/-- The decimal an unsigned literal spells. Signs, exponents and words are not part of a literal. -/
def ofLiteral? (text : List Char) : Option Decimal :=
  if isLiteral text then
    let whole := text.takeWhile (· != '.')
    let fraction := (text.dropWhile (· != '.')).drop 1
    some (ofDigits (whole ++ fraction) (-(fraction.length : Int)))
  else
    none

/-- A decimal in positional notation, with neither an exponent nor superfluous zeros. -/
def positional (d : Decimal) : List Char :=
  let digits := Nat.toDigits 10 d.coefficient
  match d.exponent with
  | .ofNat zeros => digits ++ List.replicate zeros '0'
  | .negSucc lessOne =>
    let places := lessOne + 1
    let whole := digits.length - places
    if places < digits.length then
      digits.take whole ++ '.' :: digits.drop whole
    else
      '0' :: '.' :: List.replicate (places - digits.length) '0' ++ digits

end Decimal

/-- The number an unsigned literal stands for. A literal beyond the range of floats has none. -/
def readNumber? (text : List Char) : Option Float :=
  ((Decimal.ofLiteral? text).map Decimal.toFloat).filter Float.isFinite

end LineScript
