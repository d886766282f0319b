import LineScript.Interpreter

/-!
# Options of the command line

Arguments are read from left to right. Options with a value take it from the same argument, after an
equals sign or, for the short ones, directly, or else from the next argument. Short options may
share one argument. Nothing may be given twice, and two dashes end the options.
-/

namespace LineScript.CommandLine

/-- What the arguments ask for. -/
structure Options where
  /-- Start a session even if there is a file. -/
  interactive : Bool := false
  /-- The vocabulary that was chosen. -/
  vocabulary : Option Vocabulary := none
  /-- The sample to show. -/
  sample : Option String := none
  /-- The limit on calls that was chosen. -/
  maxCallDepth : Option Nat := none
  /-- Show the journal. -/
  debug : Bool := false
  /-- The script to run. -/
  file : Option String := none
deriving DecidableEq, Repr

/-- How scripts are to be interpreted. -/
def Options.settings (options : Options) : Settings :=
  { vocabulary := options.vocabulary.getD .plain
    maxCallDepth := options.maxCallDepth.getD 1000 }

/-- Why the arguments are not read to their end. -/
inductive Stop where
  /-- They are wrong. -/
  | usage
  /-- They ask for the version. -/
  | version
  /-- They ask for help. -/
  | help
deriving DecidableEq, Repr

/-- The options without a value. -/
inductive Flag where
  | interactive
  | debug
  | version
  | help
deriving DecidableEq, Repr

/-- The options with a value. -/
inductive Setting where
  | vocabulary
  | sample
  | maxCallDepth
deriving DecidableEq, Repr

/-- The option without a value of a long name. -/
def Flag.ofName? (name : List Char) : Option Flag :=
  if name = "interactive".toList then some .interactive
  else if name = "debug".toList then some .debug
  else if name = "version".toList then some .version
  else if name = "help".toList then some .help
  else none

/-- The option without a value of a letter. -/
def Flag.ofLetter? : Char → Option Flag
  | 'i' => some .interactive
  | 'd' => some .debug
  | 'V' => some .version
  | 'h' => some .help
  | _ => none

/-- The option with a value of a long name. -/
def Setting.ofName? (name : List Char) : Option Setting :=
  if name = "mode".toList then some .vocabulary
  else if name = "example".toList then some .sample
  else if name = "max-call-depth".toList then some .maxCallDepth
  else none

/-- The natural number that decimal digits spell, if it is below `2 ^ 64`. A plus sign may come
first. -/
def readCount? (text : List Char) : Option Nat :=
  let digits :=
    match text with
    | '+' :: digits => digits
    | digits => digits
  if !digits.isEmpty && digits.all Char.isDigit && Decimal.natOfDigits digits < UInt64.size then
    some (Decimal.natOfDigits digits)
  else
    none

/-- The vocabulary that an argument names exactly. -/
def readVocabulary? (text : List Char) : Option Vocabulary :=
  [Vocabulary.plain, .colorful].find? fun vocabulary => vocabulary.name.toList = text

namespace Options

/-- Takes an option without a value. -/
def raise (options : Options) : Flag → Except Stop Options
  | .interactive =>
    if options.interactive then .error .usage else .ok { options with interactive := true }
  | .debug => if options.debug then .error .usage else .ok { options with debug := true }
  | .version => .error .version
  | .help => .error .help

/-- Takes an option with its value. -/
def assign (options : Options) (setting : Setting) (value : List Char) : Except Stop Options :=
  match setting with
  | .vocabulary =>
    match options.vocabulary, readVocabulary? value with
    | none, some vocabulary => .ok { options with vocabulary := some vocabulary }
    | _, _ => .error .usage
  | .sample =>
    match options.sample with
    | none => .ok { options with sample := some (String.ofList value) }
    | some _ => .error .usage
  | .maxCallDepth =>
    match options.maxCallDepth, readCount? value with
    | none, some count => .ok { options with maxCallDepth := some count }
    | _, _ => .error .usage

/-- Takes the script to run. -/
def addFile (options : Options) (file : List Char) : Except Stop Options :=
  match options.file with
  | none => .ok { options with file := some (String.ofList file) }
  | some _ => .error .usage

/-- Takes letters that share an argument. The second result is the option that still needs a value
from the next argument. -/
def addLetters (options : Options) : List Char → Except Stop (Options × Option Setting)
  | [] => .ok (options, none)
  | ['m'] => .ok (options, some .vocabulary)
  | 'm' :: '=' :: value => (options.assign .vocabulary value).map (·, none)
  | 'm' :: value => (options.assign .vocabulary value).map (·, none)
  | letter :: letters =>
    match Flag.ofLetter? letter with
    | none => .error .usage
    | some flag => (options.raise flag).bind (addLetters · letters)

/-- Takes a long option, given without its dashes. The second result is the option that still needs
a value from the next argument. -/
def addLong (options : Options) (text : List Char) : Except Stop (Options × Option Setting) :=
  let name := text.takeWhile (· != '=')
  match text.dropWhile (· != '='), Setting.ofName? name, Flag.ofName? name with
  | _ :: value, some setting, _ => (options.assign setting value).map (·, none)
  | [], some setting, _ => .ok (options, some setting)
  | [], none, some flag => (options.raise flag).map (·, none)
  | _, _, _ => .error .usage

/-- Takes one argument before the two dashes that end the options. -/
def addArgument (options : Options) : List Char → Except Stop (Options × Option Setting)
  | '-' :: '-' :: text => options.addLong text
  | '-' :: letter :: letters => options.addLetters (letter :: letters)
  | file => (options.addFile file).map (·, none)

/-- Whether an argument can be the value of an option before it. -/
def isValue : List Char → Bool
  | '-' :: _ :: _ => false
  | _ => true

/-- Reads arguments. If an option is `pending`, the next argument is its value. -/
def read (options : Options) (pending : Option Setting) :
    List (List Char) → Except Stop Options
  | [] => if pending.isSome then .error .usage else .ok options
  | arg :: args =>
    match pending with
    | some setting =>
      if isValue arg then
        (options.assign setting arg).bind fun options => options.read none args
      else
        .error .usage
    | none =>
      if arg = ['-', '-'] then
        args.foldlM addFile options
      else
        (options.addArgument arg).bind fun (options, pending) => options.read pending args

end Options

/-- Reads the arguments of the command line. -/
def readArguments (args : List String) : Except Stop Options :=
  Options.read {} none (args.map String.toList)

end LineScript.CommandLine
