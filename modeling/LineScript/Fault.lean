import LineScript.Decimal.Format
import LineScript.Text.Pieces
import LineScript.Token

/-!
# Faults

A fault is the cause for which a program is not run to its end, the place in the source it is about,
and sometimes advice.
-/

namespace LineScript

/-- The part of a program that was being read when something else was found. -/
inductive Construct where
  | print
  | assignment
  | declaration
  | function
  | parameters
  | call
  | condition
  | loop
  | block
  | index
  | property
  | grouping
  | expression
deriving DecidableEq, Repr

/-- The name of a construct in messages. -/
def Construct.describe : Construct → String
  | print => "print statement"
  | assignment => "variable assignment"
  | declaration => "variable declaration"
  | function => "function definition"
  | parameters => "parameter list"
  | call => "function call"
  | condition => "condition"
  | loop => "repeat loop"
  | block => "block"
  | index => "array index"
  | property => "property access"
  | grouping => "parenthesized expression"
  | expression => "expression"

/-- Whether a fault arises while a program is read or while it is run. -/
inductive Phase where
  | parse
  | runtime
deriving DecidableEq, Repr

/-- The name of a phase in messages. -/
def Phase.label : Phase → String
  | parse => "Parse error"
  | runtime => "Runtime error"

/-- The causes of faults. -/
inductive Cause where
  /-- The program does not open with its keyword. -/
  | missingStart (found : Token.Kind)
  /-- The program does not close with its keyword. -/
  | missingFinish (found : Token.Kind)
  /-- Another token was needed. -/
  | expected (wanted : Token.Kind) (construct : Construct) (found : Token.Kind)
  /-- No expression can start here. -/
  | expectedExpression (construct : Construct) (found : Token.Kind)
  /-- No statement can start here. -/
  | unexpectedToken (found : Token.Kind)
  /-- More blocks, groupings, indexes and operators are open at once than allowed. -/
  | tooDeeplyNested (limit : Nat)
  /-- A variable has no value. -/
  | undefinedVariable (name : String)
  /-- A function is called before it is defined. -/
  | undefinedFunction (name : String)
  /-- A variable is indexed that holds no list. -/
  | notAList (name : String) (found : String)
  /-- A list has no item at a position. -/
  | indexOutOfBounds (index : String) (length : Nat)
  | divisionByZero
  /-- An operator does not apply to the types of its operands. -/
  | typeMismatch (operator left right : String)
  /-- A value has no property of the given name. -/
  | unknownProperty (property found : String)
  /-- A loop would never end. -/
  | invalidRepeatCount (count : Float)
  /-- More calls are active at once than allowed. -/
  | callDepthExceeded (limit : Nat)

namespace Cause

/-- When a cause can arise. -/
def phase : Cause → Phase
  | missingStart _ | missingFinish _ | expected _ _ _ | expectedExpression _ _ | unexpectedToken _
  | tooDeeplyNested _ => .parse
  | _ => .runtime

/-- The count of a loop in messages. -/
def countFormat : NumberFormat :=
  { notANumber := "NaN", infinity := "inf", signedZero := true }

/-- What is said about a cause. -/
def message : Cause → String
  | missingStart found =>
    "Program must start with start: or sharu:, found " ++ found.describe
  | missingFinish found =>
    "Program must end with end: or samaapt:, found " ++ found.describe
  | expected wanted construct found =>
    "Expected " ++ wanted.describe ++ " in " ++ construct.describe ++ ", found " ++ found.describe
  | expectedExpression construct found =>
    "Expected expression in " ++ construct.describe ++ ", found " ++ found.describe
  | unexpectedToken found => "Unexpected token: " ++ found.describe
  | tooDeeplyNested limit => "Nesting deeper than " ++ toString limit ++ " levels"
  | undefinedVariable name => "Variable " ++ name ++ " is not defined"
  | undefinedFunction name => "Function " ++ name ++ " is not defined"
  | notAList name _ => name ++ " is not an array"
  | indexOutOfBounds index length =>
    "Array index " ++ index ++ " out of bounds for length " ++ toString length
  | divisionByZero => "Division by zero"
  | typeMismatch operator left right =>
    "Type mismatch: cannot apply '" ++ operator ++ "' to " ++ left ++ " and " ++ right
  | unknownProperty property found => "unknown property '" ++ property ++ "' on " ++ found
  | invalidRepeatCount count =>
    "repeat count " ++ countFormat.write count ++ " never terminates"
  | callDepthExceeded limit => "call depth exceeded the limit of " ++ toString limit

end Cause

/-- A cause, where it arose, and advice. -/
structure Fault where
  /-- Why the program is not run to its end. -/
  cause : Cause
  /-- The bytes of the source the fault is about. -/
  span : Span
  /-- What might help. -/
  help : Option String := none

namespace Fault

/-- When a fault arises. -/
def phase (fault : Fault) : Phase :=
  fault.cause.phase

/-- What is said about a fault. -/
def message (fault : Fault) : String :=
  fault.phase.label ++ ": " ++ fault.cause.message

/-- The line of the source, counted from one, on which a fault begins. A fault beyond the end of the
source is on its last line. -/
def line (fault : Fault) (source : String) : Nat :=
  Text.lineBreaksBefore fault.span.start source.toList + 1

end Fault

end LineScript
