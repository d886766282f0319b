import LineScript.Vocabulary

/-!
# Session commands

What a line typed into a session asks for. Inside a program, lines are part of the program, and only
the command that throws the program away is still one.
-/

namespace LineScript

/-- What a line of a session asks for. -/
inductive Command where
  /-- Leave the session. -/
  | exit
  /-- Throw away the lines of the program so far. -/
  | reset
  /-- Change the vocabulary. -/
  | speak (vocabulary : Vocabulary)
  /-- Show and run a sample. -/
  | sample (name : String)
  /-- Nothing that can be done, and why. -/
  | invalid (message : String)
  /-- Take the line as part of a program. -/
  | source (line : String)
deriving DecidableEq, Repr

/-- What a line asks for; `buffering` says that a program was begun. -/
def Command.ofLine (line : String) (buffering : Bool) : Command :=
  let text := Text.trim line.toList
  if text = ":reset".toList then .reset
  else if buffering then .source line
  else if text = "exit".toList ∨ text = "quit".toList then .exit
  else
    match Text.after? ":mode".toList text, Text.after? ":example".toList text with
    | some name, _ =>
      match Vocabulary.ofName (String.ofList name) with
      | .ok vocabulary => .speak vocabulary
      | .error unknown => .invalid unknown.message
    | none, some name => .sample (String.ofList (Text.trim name))
    | none, none =>
      if text.head? = some ':' then .invalid ("unknown command '" ++ String.ofList text ++ "'")
      else .source line

/-- Whether a line closes a program: its first word is the keyword for that, with or without a
colon. -/
def closesProgram (line : String) (vocabulary : Vocabulary) : Bool :=
  let finish := vocabulary.keywords.finish.toList
  (Text.words line.toList).head?.any fun word => word = finish || word = finish ++ [':']

end LineScript
