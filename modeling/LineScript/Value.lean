import LineScript.Decimal.Format
import LineScript.Text.Pieces

/-!
# Values

The values that expressions have and variables hold, their texts, and the truth value and number
that each of them counts as.
-/

namespace LineScript

/-- Values. -/
inductive Value where
  | number (value : Float)
  | string (value : String)
  | boolean (value : Bool)
  | list (items : List Value)
  /-- What a parameter holds for which there was no argument. -/
  | undefined
deriving Inhabited

/-- What values count as that stand for no number. -/
def notANumber : Float :=
  0 / 0

/-- The number a text counts as: zero if it is blank, else the number it spells between its outer
blanks, with or without a minus sign. -/
def numberOfText (text : String) : Float :=
  match Text.trim text.toList with
  | [] => 0
  | '-' :: digits =>
    match readNumber? digits with
    | some value => -value
    | none => notANumber
  | digits => (readNumber? digits).getD notANumber

/-- The number a truth value counts as. -/
def numberOfBool : Bool → Float
  | true => 1
  | false => 0

namespace Value

/-- The name of the type of a value. -/
def typeName : Value → String
  | number _ => "number"
  | string _ => "string"
  | boolean _ => "boolean"
  | list _ => "list"
  | undefined => "undefined"

/-- Whether a value counts as true. Zero, what is not a number, and what is empty do not. -/
def isTruthy : Value → Bool
  | number value => value != 0 && !value.isNaN
  | string value => !value.isEmpty
  | boolean value => value
  | list items => !items.isEmpty
  | undefined => false

/-- The number a value counts as. A list counts as its only item, and as zero if it has none. -/
def toNumber : Value → Float
  | number value => value
  | string value => numberOfText value
  | boolean value => numberOfBool value
  | list [] => 0
  | list [item] => item.toNumber
  | list (_ :: _ :: _) => notANumber
  | undefined => notANumber

/-- Numbers in the texts of values. -/
def numberFormat : NumberFormat :=
  { notANumber := "NaN", infinity := "Infinity", signedZero := false }

mutual

/-- The text of a value. -/
def display : Value → String
  | number value => numberFormat.write value
  | string value => value
  | boolean value => toString value
  | list items => ",".intercalate (displayItems items)
  | undefined => "undefined"

/-- The texts of the items of a list. An undefined item has an empty text. -/
def displayItems : List Value → List String
  | [] => []
  | undefined :: items => "" :: displayItems items
  | item :: items => item.display :: displayItems items

end

end Value

end LineScript
