import LineScript.Line.Tokens

/-!
# Scanning a source

A source is read line by line, and each line by itself: its tokens depend on nothing but its text,
and their places on how many lines and bytes come before it. Lines with a defect are left out.
-/

namespace LineScript

/-- A line of a source. -/
structure Line where
  /-- How many lines come before it. -/
  before : Nat
  /-- The byte of the source at which it starts. -/
  offset : Nat
  /-- Its characters, without the line feed. -/
  text : List Char
deriving DecidableEq, Repr

namespace Line

/-- Texts as consecutive lines, the first of them after `before` lines and at byte `offset`. -/
def place (before offset : Nat) : List (List Char) → List Line
  | [] => []
  | text :: rest =>
    ⟨before, offset, text⟩ :: place (before + 1) (offset + Text.byteSize text + 1) rest

/-- The tokens of a line, where they stand in the source. -/
def tokens (phrases : List Phrase) (line : Line) : Except Defect (List Token) :=
  (tokensOfLine phrases line.text).map fun tokens =>
    tokens.map (·.shift line.before line.offset)

/-- The tokens that a line adds to a program; a line with a defect adds none. -/
def contribution (phrases : List Phrase) (line : Line) : List Token :=
  match line.tokens phrases with
  | .ok tokens => tokens
  | .error _ => []

/-- The note that a line was left out, if it was. -/
def skipped? (phrases : List Phrase) (line : Line) : Option SkippedLine :=
  match line.tokens phrases with
  | .ok _ => none
  | .error defect => some ⟨line.before + 1, defect⟩

end Line

/-- The lines of a source. -/
def linesOf (source : String) : List Line :=
  Line.place 0 0 (Text.lines source.toList)

/-- What is read from a source. -/
structure Scan where
  /-- The tokens of all lines that can be read, then the token for the end of the source. -/
  tokens : List Token
  /-- The lines that were left out. -/
  skipped : List SkippedLine

/-- Reads a source in a vocabulary. -/
def scan (source : String) (vocabulary : Vocabulary) : Scan :=
  let phrases := vocabulary.keywords.phrases
  let lines := linesOf source
  { tokens :=
      lines.flatMap (Line.contribution phrases) ++
        [Token.endOfSource lines.length (Text.byteSize source.toList)]
    skipped := lines.filterMap (Line.skipped? phrases) }

end LineScript
