import LineScript.Interpreter
import LineScript.Session.Command

/-!
# Sessions

A session reads lines, collects them into programs and runs each program when it is complete. Every
line has exactly one reaction, and what is shown depends on the reaction alone.
-/

namespace LineScript

/-- Text for the two outputs of a program. -/
structure Transcript where
  /-- The text of the ordinary output. -/
  out : String := ""
  /-- The text of the output for errors. -/
  err : String := ""
deriving DecidableEq, Repr

namespace Transcript

/-- One text after the other, on each output. -/
def append (first second : Transcript) : Transcript :=
  ⟨first.out ++ second.out, first.err ++ second.err⟩

instance : Append Transcript := ⟨append⟩

/-- Lines on the ordinary output. -/
def lines (lines : List String) : Transcript :=
  { out := String.join (lines.map (· ++ "\n")) }

/-- A line on the output for errors. -/
def errorLine (line : String) : Transcript :=
  { err := line ++ "\n" }

end Transcript

/-- What is shown of a report: its lines and its error. -/
def Report.transcript (report : Report) : Transcript :=
  Transcript.lines report.output ++
    match report.error with
    | none => {}
    | some message => Transcript.errorLine message

/-- The state of a session. -/
structure Session where
  /-- How programs are interpreted. -/
  settings : Settings
  /-- The lines of the program so far, each with a line feed. -/
  buffer : String
deriving DecidableEq, Repr

/-- What a session does on a line. -/
inductive Reaction where
  /-- Nothing: the line is blank and no program was begun. -/
  | ignored
  /-- The session ends. -/
  | left
  /-- The lines so far are thrown away. -/
  | cleared
  /-- The vocabulary is changed. -/
  | switched (vocabulary : Vocabulary)
  /-- A sample is shown and run. -/
  | showed (source : String) (report : Report)
  /-- There is no sample of that name. -/
  | unknownSample (name : String)
  /-- The line is a command that does not exist. -/
  | invalid (message : String)
  /-- The line is kept for the program. -/
  | kept
  /-- The line completes the program, which is run. -/
  | ran (program : String) (report : Report)
deriving DecidableEq, Repr

/-- The line that says which vocabulary is spoken. -/
def Vocabulary.banner (vocabulary : Vocabulary) : String :=
  "Mode: " ++ vocabulary.name ++ ". Programs run from '" ++ vocabulary.keywords.start ++
    ":' to '" ++ vocabulary.keywords.finish ++ ":'. Type 'exit' to quit."

/-- What is shown of a reaction. -/
def Reaction.transcript : Reaction → Transcript
  | ignored | kept => {}
  | left => .lines ["Aavjo!"]
  | cleared => .lines ["Buffer cleared."]
  | switched vocabulary => .lines [vocabulary.banner]
  | showed source report => .lines [source] ++ report.transcript
  | unknownSample name =>
    .errorLine ("Unknown example '" ++ name ++ "'. Try one of: " ++ ", ".intercalate Sample.names)
  | invalid message => .errorLine message
  | ran _ report => report.transcript

namespace Session

/-- A session before its first line. -/
def start (settings : Settings) : Session :=
  ⟨settings, ""⟩

/-- What a session shows before its first prompt. -/
def greeting (session : Session) : Transcript :=
  .lines ["BhaiLang v0.1.0", session.settings.vocabulary.banner]

/-- What a session shows before it reads a line. -/
def prompt (session : Session) : String :=
  if session.buffer.isEmpty then "> " else ". "

/-- A line without the characters that end it. -/
def withoutLineEnd (line : String) : String :=
  String.ofList (line.toList.reverse.dropWhile (fun c => c == '\r' || c == '\n')).reverse

/-- Takes a line into the program, and runs the program if the line completes it. -/
def take (session : Session) (line : String) : Reaction × Session :=
  let program := session.buffer ++ line ++ "\n"
  if closesProgram line session.settings.vocabulary then
    (.ran program (session.settings.execute program), { session with buffer := "" })
  else
    (.kept, { session with buffer := program })

/-- What a session does on a line, and how it goes on. -/
def react (session : Session) (input : String) : Reaction × Session :=
  let line := withoutLineEnd input
  -- Kept lines end with a line feed, so the buffer is empty only if there are none.
  let buffering := !session.buffer.isEmpty
  if !buffering && Text.isBlankText line.toList then (.ignored, session)
  else
    match Command.ofLine line buffering with
    | .exit => (.left, session)
    | .reset => (.cleared, { session with buffer := "" })
    | .speak vocabulary =>
      (.switched vocabulary, { session with settings := { session.settings with vocabulary } })
    | .sample name =>
      match session.settings.sampleSource? name with
      | some source => (.showed source (session.settings.execute source), session)
      | none => (.unknownSample name, session)
    | .invalid message => (.invalid message, session)
    | .source line => session.take line

/-- What is said when a line of the input is no text. -/
def unreadable : Transcript :=
  .errorLine "Error reading input: stream did not contain valid UTF-8"

/-- All that a session shows for an input. A line that is no text ends the session. -/
def play (session : Session) : List (Option String) → Transcript
  | [] => { out := session.prompt ++ "\n" }
  | none :: _ => { out := session.prompt } ++ unreadable
  | some input :: inputs =>
    let (reaction, next) := session.react input
    let shown : Transcript := { out := session.prompt } ++ reaction.transcript
    match reaction with
    | .left => shown
    | _ => shown ++ next.play inputs

end Session

end LineScript
