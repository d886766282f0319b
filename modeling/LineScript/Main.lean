import LineScript.CommandLine

/-!
# The program

Fetches the script or the lines of the session, and shows what the library makes of them.
-/

open LineScript LineScript.CommandLine

/-- Shows text on the two outputs. -/
def showTranscript (text : Transcript) : IO Unit := do
  let out ← IO.getStdout
  out.putStr text.out
  out.flush
  (← IO.getStderr).putStr text.err

/-- Shows those events of a journal that are not mere traces. -/
def showJournal (journal : List Event) : IO Unit := do
  for event in journal do
    if event.level ≠ .trace then
      showTranscript (.lines ["[" ++ event.level.name ++ "] " ++ event.message])

/-- What stands at a path: a folder where reading fails with code 21, and nothing where a file is
used as a folder or the path is too long. -/
def fetchEntry (path : String) : IO (Option Entry) := do
  try
    return some (.file (← IO.FS.readBinFile path))
  catch
    | .noFileOrDirectory .. => return none
    | .invalidArgument .. => return none
    | .inappropriateType _ code _ => return if code = 21 then some .directory else none
    | error => throw error

/-- Reads the bytes of a line with its line feed. -/
partial def fetchLine (input : IO.FS.Stream) (bytes : ByteArray) : IO ByteArray := do
  let next ← input.read 1
  if next.isEmpty || next.toList.contains 0x0A then return bytes ++ next
  else fetchLine input (bytes ++ next)

/-- Reads the lines of a session and shows what it does on each. -/
partial def converse (session : Session) : IO Unit := do
  showTranscript { out := session.prompt }
  let bytes ← fetchLine (← IO.getStdin) ByteArray.empty
  if bytes.isEmpty then
    showTranscript { out := "\n" }
  else
    match String.fromUTF8? bytes with
    | none => showTranscript Session.unreadable
    | some line =>
      let (reaction, next) := session.react line
      showTranscript reaction.transcript
      match reaction with
      | .left => return
      | _ => converse next

/-- Runs the command line. -/
def main (args : List String) : IO UInt32 := do
  match plan args with
  | .answer exit text =>
    showTranscript text
    return exit.toUInt32
  | .refuse =>
    showTranscript (.errorLine "error: invalid arguments\n\nFor more information, try '--help'.")
    return 2
  | .script path settings debug =>
    let entry ← fetchEntry path
    if debug then
      showJournal (entryJournal settings entry)
    let result := runEntry settings path entry
    showTranscript result.text
    if let some report := result.report then
      showTranscript (.errorLine report)
    return result.exit.toUInt32
  | .session settings =>
    let session := Session.start settings
    showTranscript session.greeting
    converse session
    return 0
