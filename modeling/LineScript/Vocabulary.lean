import LineScript.Text.Pieces

/-!
# Vocabularies

A script is written in one of two vocabularies. They differ in the words that open and close a
program, print a value and declare a variable; all else is spelled alike.
-/

namespace LineScript

/-- The two sets of keywords a script can be written in. -/
inductive Vocabulary where
  | plain
  | colorful
deriving DecidableEq, Repr, Inhabited

/-- The spelling of every keyword of one vocabulary. A spelling may be a phrase of several words. -/
structure Keywords where
  /-- Opens a program. -/
  start : String
  /-- Closes a program. -/
  finish : String
  /-- Prints the value of an expression. -/
  print : String
  /-- Declares a variable. -/
  declare : String
  /-- Declares a variable that is meant to hold a list. -/
  declareList : String
  /-- Opens a condition. -/
  condition : String
  /-- Stands between a condition and its block. -/
  consequence : String
  /-- Opens the block for a condition that does not hold. -/
  alternative : String
  /-- Opens a loop. -/
  loop : String
  /-- Stands between the count of a loop and its block. -/
  times : String
  /-- Defines a function. -/
  function : String
  /-- Starts a comment. -/
  comment : String
deriving DecidableEq, Repr

/-- The phrase that declares a variable, if it is made of words. A sign such as `=` is no phrase: it
is read as punctuation. -/
def Keywords.declarationPhrase? (keywords : Keywords) : Option String :=
  if keywords.declare.toList.any Text.isAlphabetic then some keywords.declare else none

namespace Vocabulary

/-- The vocabulary that is meant by a switch between the usual and the alternate one. -/
def ofAlternate : Bool → Vocabulary
  | true => colorful
  | false => plain

/-- Whether this is the alternate vocabulary. -/
def isAlternate : Vocabulary → Bool
  | plain => false
  | colorful => true

/-- The name of a vocabulary, as it is typed and shown. -/
def name : Vocabulary → String
  | plain => "plain"
  | colorful => "colorful"

/-- The keywords of a vocabulary. -/
def keywords : Vocabulary → Keywords
  | plain =>
    { start := "start"
      finish := "end"
      print := "print"
      declare := "="
      declareList := "list"
      condition := "jo"
      consequence := "to"
      alternative := "nahi to"
      loop := "repeat"
      times := "vaar"
      function := "function"
      comment := "#" }
  | colorful =>
    { start := "sharu"
      finish := "samaapt"
      print := "lakh chodya"
      declare := "loda ayia nakh"
      declareList := "loda ayia nakh list"
      condition := "jo"
      consequence := "to"
      alternative := "nahi to"
      loop := "repeat"
      times := "vaar"
      function := "function"
      comment := "#" }

/-- A text that names no vocabulary: the text without its outer blanks, in lower case. -/
structure Unknown where
  /-- The name that was looked for. -/
  name : String
deriving DecidableEq, Repr

/-- What is said about a text that names no vocabulary. -/
def Unknown.message (unknown : Unknown) : String :=
  "unknown mode '" ++ unknown.name ++ "', expected 'plain' or 'colorful'"

/-- The vocabulary a text names. Outer blanks and the case of ASCII letters do not matter. -/
def ofName (text : String) : Except Unknown Vocabulary :=
  let name := String.ofList ((Text.trim text.toList).map Char.toLower)
  if name = "plain" ∨ name = "simple" then .ok plain
  else if name = "colorful" ∨ name = "colourful" then .ok colorful
  else .error ⟨name⟩

/-- Every vocabulary is found by its name. -/
@[simp]
theorem ofName_name (vocabulary : Vocabulary) : ofName vocabulary.name = .ok vocabulary := by
  cases vocabulary <;> rfl

/-- The alternate vocabulary is the one chosen by the switch. -/
@[simp]
theorem ofAlternate_isAlternate (vocabulary : Vocabulary) :
    ofAlternate vocabulary.isAlternate = vocabulary := by
  cases vocabulary <;> rfl

end Vocabulary

end LineScript
