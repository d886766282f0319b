import LineScript.Fault
import LineScript.Vocabulary

/-!
# Categories of faults

The user of a script sees one fixed sentence for each category of faults, worded in the vocabulary
of the script.
-/

namespace LineScript

/-- What a fault is about, as far as its sentence goes. -/
inductive Category where
  | missingStart
  | missingFinish
  | missingOpenBrace
  | missingCloseBrace
  /-- All other faults of reading. -/
  | missingColon
  /-- Both variables and functions. -/
  | undefinedName
  | indexOutOfBounds
  | infiniteLoop
  | divisionByZero
  | typeMismatch
  | outOfMemory
  /-- Faults that have no sentence of their own; their message is shown. -/
  | other (message : String)
deriving DecidableEq, Repr

namespace Category

/-- The text of a category in a vocabulary. -/
def render (category : Category) (vocabulary : Vocabulary) : String :=
  let choose (plain colorful : String) : String :=
    match vocabulary with
    | .plain => plain
    | .colorful => colorful
  match category with
  | missingStart =>
    choose "Error: 'start:' thi sharu karo - program must begin with start:"
      "Error: 'sharu:' thi sharu kar na! Kyan thi chalu karyo?"
  | missingFinish =>
    choose "Error: 'end:' thi khatam karo - program must end with end:"
      "Error: 'samaapt:' thi khatam kar chodya!"
  | missingOpenBrace =>
    choose "Error: Syntax gadbad che! Missing '\x7b' after 'to'"
      "Error: Ae loda! Syntax gadbad che! '\x7b' kyan che?"
  | missingCloseBrace =>
    choose "Error: Bracket band karo - expected '\x7d'"
      "Error: Bracket to band kar be! '\x7d' bhuli gayo ke?"
  | missingColon =>
    choose "Error: Semicolon ni jarur nathi, pan ':' bhuli gaya"
      "Error: Bhos! ':' to lakh chodya"
  | undefinedName =>
    choose "Error: Variable 'naam' declare nathi - variable not declared"
      "Error: Loda 'naam' declare j nathi karyu! Pehla declare kar"
  | indexOutOfBounds =>
    choose "Error: Array index range ni bahar che - index out of bounds"
      "Error: Index range ni bahar che loda!"
  | infiniteLoop =>
    choose "Error: Infinite loop detect thayo - loop kadi nathi band thatu"
      "Error: Infinite loop ma fas gayo loda! Band kar!"
  | divisionByZero =>
    choose "Error: Division by zero - zero thi divide nahi thai shake"
      "Error: Bhos! Zero thi divide? Gaand mara!"
  | typeMismatch =>
    choose "Error: Type mismatch - string ne number sathe add nahi thai shake"
      "Error: String ne number sathe add kare che? Dimag che ke nahi?"
  | outOfMemory =>
    choose "Error: Memory full thai gai - program motu che"
      "Error: Memory puri thai gai chodya! Ghanu motu program lakhyo che?"
  | other message => choose "Error: " "Error: Ae loda! " ++ message

end Category

namespace Fault

/-- The category of a fault. -/
def category (fault : Fault) : Category :=
  match fault.cause with
  | .missingStart _ => .missingStart
  | .missingFinish _ => .missingFinish
  | .expected .leftBrace _ _ => .missingOpenBrace
  | .expected .rightBrace _ _ => .missingCloseBrace
  | .expected _ _ _ | .expectedExpression _ _ | .unexpectedToken _ | .tooDeeplyNested _ =>
    .missingColon
  | .undefinedVariable _ | .undefinedFunction _ => .undefinedName
  | .indexOutOfBounds _ _ => .indexOutOfBounds
  | .invalidRepeatCount _ => .infiniteLoop
  | .divisionByZero => .divisionByZero
  | .typeMismatch _ _ _ => .typeMismatch
  | .callDepthExceeded _ => .outOfMemory
  | .notAList _ _ | .unknownProperty _ _ => .other fault.message

/-- What the user of a script sees of a fault. -/
def localize (fault : Fault) (vocabulary : Vocabulary) : String :=
  fault.category.render vocabulary

end Fault

end LineScript
