/-!
# Defects of lines

A line that cannot be read is left out of the program. Its defect says why, for the journal.
-/

namespace LineScript

/-- Why a line cannot be read. -/
inductive Defect where
  /-- A quotation is not closed. -/
  | unterminatedString
  /-- A list literal is not closed. -/
  | unterminatedArray
  /-- A character has no meaning where it stands. -/
  | unexpectedCharacter (char : Char)
  /-- A word is neither a keyword, a number nor a name. -/
  | invalidWord (text : String)
  /-- An item of a list literal is no literal and no name. -/
  | invalidArrayItem (text : String)
deriving DecidableEq, Repr

/-- A line that was left out. -/
structure SkippedLine where
  /-- The line, counted from one. -/
  line : Nat
  /-- Why it was left out. -/
  defect : Defect
deriving DecidableEq, Repr

namespace Defect

/-- A character inside a quotation of the journal: the quote, the backslash and control characters
are escaped. -/
def escape (quote : Char) (c : Char) : String :=
  if c = quote ∨ c = '\\' then String.ofList ['\\', c]
  else if c = '\n' then "\\n"
  else if c = '\r' then "\\r"
  else if c = '\t' then "\\t"
  else if c.toNat = 0 then "\\0"
  else if c.toNat < 0x20 ∨ c.toNat = 0x7F then
    "\\u\x7b" ++ String.ofList (Nat.toDigits 16 c.toNat) ++ "\x7d"
  else c.toString

/-- A text between quotes, as the journal shows it. -/
def quoted (quote : Char) (text : String) : String :=
  quote.toString ++ String.join (text.toList.map (escape quote)) ++ quote.toString

/-- A defect as the journal shows it. -/
def describe : Defect → String
  | unterminatedString => "UnterminatedString"
  | unterminatedArray => "UnterminatedArray"
  | unexpectedCharacter c => "UnexpectedCharacter(" ++ quoted '\'' c.toString ++ ")"
  | invalidWord text => "InvalidWord(" ++ quoted '"' text ++ ")"
  | invalidArrayItem text => "InvalidArrayItem(" ++ quoted '"' text ++ ")"

end Defect

end LineScript
