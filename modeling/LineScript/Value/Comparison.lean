import LineScript.Value

/-!
# Comparing values

Three ways to compare values: the same value, values that the operator `==` calls equal, and the
order of the operators `<` and `>`.
-/

namespace LineScript.Value

mutual

/-- Whether two values are the same. What is not a number differs from itself, and the two zeros are
the same. -/
def isSame : Value → Value → Bool
  | number a, number b => a == b
  | string a, string b => a == b
  | boolean a, boolean b => a == b
  | list as, list bs => areSame as bs
  | undefined, undefined => true
  | _, _ => false

/-- Whether two lists have the same items. -/
def areSame : List Value → List Value → Bool
  | [], [] => true
  | a :: as, b :: bs => a.isSame b && areSame as bs
  | _, _ => false

end

/-- Equality of values that are neither lists nor undefined. Values of different types are compared
as numbers. -/
def scalarEq : Value → Value → Bool
  | string a, string b => a == b
  | boolean a, boolean b => a == b
  | a, b => a.toNumber == b.toNumber

mutual

/-- The equality of the operator `==`. A list is compared with anything else through its text;
nothing but itself equals the undefined value. -/
def looseEq : Value → Value → Bool
  | undefined, undefined => true
  | undefined, _ => false
  | _, undefined => false
  | list as, list bs => areLooseEq as bs
  | list as, b => scalarEq (string (list as).display) b
  | a, list bs => scalarEq a (string (list bs).display)
  | a, b => scalarEq a b

/-- Whether two lists are equally long and have equal items. -/
def areLooseEq : List Value → List Value → Bool
  | [], [] => true
  | a :: as, b :: bs => a.looseEq b && areLooseEq as bs
  | _, _ => false

end

/-- The order of two numbers, if they have one. -/
def compareNumbers (a b : Float) : Option Ordering :=
  if a < b then some .lt
  else if b < a then some .gt
  else if a == b then some .eq
  else none

/-- The order of two values: of two strings that of their texts by code points, else that of the
numbers they count as. -/
def compare : Value → Value → Option Ordering
  | string a, string b => some (compareOfLessAndEq a b)
  | a, b => compareNumbers a.toNumber b.toNumber

end LineScript.Value
