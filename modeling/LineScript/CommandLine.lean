import LineScript.CommandLine.Folder
import LineScript.CommandLine.Options
import LineScript.Session

/-!
# The command line

What the program does is decided by its arguments, the file that they name and its input, and shown
as an exit code and two outputs. The outer layer only fetches the file and the input.
-/

namespace LineScript.CommandLine

/-- What is to be done. -/
inductive Plan where
  /-- Give a text and an exit code. -/
  | answer (exit : Nat) (text : Transcript)
  /-- Refuse the arguments. -/
  | refuse
  /-- Run the script at a path. -/
  | script (path : String) (settings : Settings) (debug : Bool)
  /-- Start a session. -/
  | session (settings : Settings)

/-- The line that tells the version. -/
def versionLine : String :=
  "bhailang 0.1.0"

/-- The lines that tell the options. -/
def helpLines : List String :=
  ["Gujarati-flavoured toy language in plain and colorful modes",
   "",
   "Usage: bhailang [OPTIONS] [FILE]",
   "",
   "Arguments:",
   "  [FILE]  The script file to execute",
   "",
   "Options:",
   "  -i, --interactive         Start in interactive REPL mode",
   "  -m, --mode <mode>         Keyword vocabulary and error phrasing [default: plain] " ++
     "[possible values: plain, colorful]",
   "      --example <NAME>      Print a built-in example program for the selected mode",
   "      --max-call-depth <N>  Maximum nesting of function calls",
   "  -d, --debug               Log lexer and interpreter decisions to stderr",
   "  -h, --help                Print help",
   "  -V, --version             Print version"]

/-- What is said when the program itself fails. -/
def failure (message : String) : Transcript :=
  .errorLine ("Error: " ++ message)

/-- What options ask for: a sample comes before a script, and a script before a session. -/
def Options.plan (options : Options) : Plan :=
  match options.sample, options.file, options.interactive with
  | some name, _, _ =>
    match options.settings.sampleSource? name with
    | some source => .answer 0 (.lines [source])
    | none =>
      .answer 1 (failure ("unknown example '" ++ name ++ "', expected one of: " ++
        ", ".intercalate Sample.names))
  | none, some path, false => .script path options.settings options.debug
  | none, _, _ => .session options.settings

/-- What the arguments ask for. -/
def plan (args : List String) : Plan :=
  match readArguments args with
  | .error .usage => .refuse
  | .error .version => .answer 0 (.lines [versionLine])
  | .error .help => .answer 0 (.lines helpLines)
  | .ok options => options.plan

/-- What the program leaves. -/
structure Result where
  /-- The exit code. -/
  exit : Nat
  /-- The two outputs, without the report on the source of a fault. -/
  text : Transcript := {}
  /-- The first line of the report on the source of a fault. -/
  report : Option String := none
deriving DecidableEq, Repr

/-- What is left when a file cannot be read. -/
def unreadableFile (path reason : String) : Result :=
  { exit := 1
    text := failure ("failed to read '" ++ path ++ "'\n\nCaused by:\n    " ++ reason) }

/-- Runs a script that was read. -/
def runScript (settings : Settings) (source : String) : Result :=
  match (settings.run source).result with
  | .ok lines => { exit := 0, text := .lines lines }
  | .error fault =>
    let message := fault.localize settings.vocabulary
    { exit := 1
      text := .errorLine message
      report := some ("Error: " ++ fault.phase.label ++ ": " ++ message) }

/-- Runs the script at a path. -/
def runEntry (settings : Settings) (path : String) : Option Entry → Result
  | none => { exit := 1, text := failure ("file '" ++ path ++ "' not found") }
  | some .directory => unreadableFile path "Is a directory (os error 21)"
  | some (.file bytes) =>
    match String.fromUTF8? bytes with
    | none => unreadableFile path "stream did not contain valid UTF-8"
    | some source => runScript settings source

/-- What is noted when the script at a path is run. -/
def entryJournal (settings : Settings) : Option Entry → List Event
  | some (.file bytes) =>
    match String.fromUTF8? bytes with
    | none => []
    | some source => (settings.run source).journal
  | _ => []

/-- The lines of an input with their line feeds. -/
def inputLines (bytes : List UInt8) : List (List UInt8) :=
  bytes.foldr
    (fun byte lines =>
      match lines with
      | line :: rest => if byte = 0x0A then [byte] :: line :: rest else (byte :: line) :: rest
      | [] => [[byte]])
    []

/-- The text of a line of an input, if it is text. -/
def lineText? (bytes : List UInt8) : Option String :=
  String.fromUTF8? ⟨bytes.toArray⟩

/-- All that a session leaves for an input. -/
def runSession (settings : Settings) (input : ByteArray) : Result :=
  let session := Session.start settings
  { exit := 0
    text := session.greeting ++ session.play ((inputLines input.toList).map lineText?) }

/-- What the program leaves for its arguments, what stands at the paths, and its input. -/
def run (args : List String) (entries : String → Option Entry) (input : ByteArray) : Result :=
  match plan args with
  | .answer exit text => { exit, text }
  | .refuse => { exit := 2 }
  | .script path settings _ => runEntry settings path (entries path)
  | .session settings => runSession settings input

end LineScript.CommandLine
