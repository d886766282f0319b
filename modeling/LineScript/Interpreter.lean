import LineScript.Fault.Category
import LineScript.Machine.Statement
import LineScript.Reading.Parse
import LineScript.Sample
import LineScript.Scan

/-!
# Interpreting scripts

A script is read, parsed and run on a machine of its own, so no script sees the variables of
another.
-/

namespace LineScript

/-- How scripts are interpreted. -/
structure Settings where
  /-- The vocabulary they are written in. -/
  vocabulary : Vocabulary := .plain
  /-- How many calls may be active at once. -/
  maxCallDepth : Nat := 1000
deriving DecidableEq, Repr

/-- What a script did: the lines it printed, or its fault. -/
structure Run where
  /-- The lines of a script that ran to its end, or the fault of one that did not. -/
  result : Except Fault (List String)
  /-- What was noted on the way. -/
  journal : List Event

/-- What the user of a script sees of what it did. A script that fails has no lines. -/
structure Report where
  /-- Whether the script ran to its end. -/
  success : Bool
  /-- The lines it printed. -/
  output : List String
  /-- What is said about its fault. -/
  error : Option String
deriving DecidableEq, Repr

/-- What is noted about the end of a program. -/
def Parsed.journal (parsed : Parsed) : List Event :=
  if parsed.ignored = 0 then [] else [.trailing parsed.ignored]

namespace Settings

/-- Interprets a script. -/
def run (settings : Settings) (source : String) : Run :=
  let read := scan source settings.vocabulary
  let lineNotes := read.skipped.map Event.skipping ++ read.skipped.map Event.ignored
  match parse read.tokens with
  | .error fault => ⟨.error fault, lineNotes⟩
  | .ok parsed =>
    let (result, machine) := Machine.initial.run settings.maxCallDepth parsed.program
    ⟨result, lineNotes ++ parsed.journal ++ machine.journal.toList⟩

/-- The note on how a script ended. -/
def closing : Except Fault (List String) → Event
  | .ok lines => .finished lines.length
  | .error fault => .failed fault

/-- What the user sees of the result of a script. -/
def report (settings : Settings) : Except Fault (List String) → Report
  | .ok lines => ⟨true, lines, none⟩
  | .error fault => ⟨false, [], some (fault.localize settings.vocabulary)⟩

/-- Interprets a script for its user. -/
def execute (settings : Settings) (source : String) : Report :=
  settings.report (settings.run source).result

/-- All that is noted when a script is interpreted for its user. -/
def journal (settings : Settings) (source : String) : List Event :=
  let run := settings.run source
  run.journal ++ [closing run.result]

/-- The source of a sample in the vocabulary of the settings. -/
def sampleSource? (settings : Settings) (name : String) : Option String :=
  (Sample.find? name).map (·.source settings.vocabulary)

end Settings

end LineScript
