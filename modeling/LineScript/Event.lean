import LineScript.Fault
import LineScript.Line.Defect

/-!
# Journal events

While a program is read and run, decisions that its user may want to look at are noted in a journal.
-/

namespace LineScript

/-- How much an event matters. -/
inductive Event.Level where
  | trace
  | debug
  | info
deriving DecidableEq, Repr

/-- What is noted in the journal. -/
inductive Event where
  /-- A line cannot be read. -/
  | skipping (line : SkippedLine)
  /-- A line is not part of the program. -/
  | ignored (line : SkippedLine)
  /-- Tokens after the program are not part of it. -/
  | trailing (count : Nat)
  /-- A variable declared for a list holds something else. -/
  | notAList (name typeName : String)
  /-- A call has more arguments than the function has parameters. -/
  | extraArguments (count : Nat) (name : String)
  /-- A call is entered. -/
  | calling (name : String) (depth : Nat)
  /-- A program ran to its end. -/
  | finished (printed : Nat)
  /-- A program did not. -/
  | failed (fault : Fault)

namespace Event

/-- How much an event matters. -/
def level : Event → Level
  | skipping _ | ignored _ | trailing _ | notAList _ _ => .debug
  | extraArguments _ _ | calling _ _ => .trace
  | finished _ | failed _ => .info

/-- The name of a level. -/
def Level.name : Level → String
  | trace => "TRACE"
  | debug => "DEBUG"
  | info => "INFO"

/-- The text of an event. -/
def message : Event → String
  | skipping line => "skipping line " ++ toString line.line ++ ": " ++ line.defect.describe
  | ignored line => "line " ++ toString line.line ++ " ignored: " ++ line.defect.describe
  | trailing count => "ignoring " ++ toString count ++ " token(s) after the end keyword"
  | notAList name typeName => "list variable '" ++ name ++ "' bound to a " ++ typeName
  | extraArguments count name => toString count ++ " extra argument(s) to '" ++ name ++ "' ignored"
  | calling name depth => "calling '" ++ name ++ "' at depth " ++ toString depth
  | finished printed => "program finished, " ++ toString printed ++ " line(s) printed"
  | failed fault => "program failed: " ++ fault.message

end Event

end LineScript
