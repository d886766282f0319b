import LineScript.Decimal.Basic
import LineScript.Line.Phrase

/-!
# Tokens of a line

Every segment of a line is a keyword, or part of a keyword of several words, or a token of its own.
One segment that is none of these is a defect of the whole line.
-/

namespace LineScript

open Text

/-- Whether a text is a name: a letter or underscore, then word characters. -/
def isIdentifier : List Char → Bool
  | [] => false
  | c :: rest => (isAlphabetic c || c == '_') && rest.all isWordChar

/-- Whether a text begins and ends with the same quote, which are two characters. -/
def isQuotation (text : List Char) : Bool :=
  match text with
  | first :: rest@(_ :: _) => isQuote first && rest.getLast? == some first
  | _ => false

/-- A text without its first and last character. -/
def inner (text : List Char) : List Char :=
  (text.drop 1).dropLast

namespace Literal

/-- What an item of a list literal stands for. -/
def ofItem (item : List Char) : Except Defect Literal :=
  if isQuotation item then .ok (.string (String.ofList (inner item)))
  else if item = "true".toList then .ok (.boolean true)
  else if item = "false".toList then .ok (.boolean false)
  else
    match readNumber? item, item with
    | some value, _ => .ok (.number value)
    | none, '-' :: digits =>
      match readNumber? digits with
      | some value => .ok (.number (-value))
      | none => .error (.invalidArrayItem (String.ofList item))
    | none, _ =>
      if isIdentifier item then .ok (.identifier (String.ofList item))
      else .error (.invalidArrayItem (String.ofList item))

/-- The items of a list literal, given with its brackets. The first item that stands for nothing is
the defect of the literal. -/
def listOf (text : List Char) : Except Defect (List Literal) :=
  let items := inner text
  if isBlankText items then .ok [] else (itemsOf items).mapM fun item => ofItem (trim item)

end Literal

namespace Segment

open Token (Kind Payload)

/-- The kind of a sign. -/
def markKind? : List Char → Option Kind
  | ['='] => some .assign
  | ['{'] => some .leftBrace
  | ['}'] => some .rightBrace
  | ['('] => some .leftParen
  | [')'] => some .rightParen
  | ['['] => some .leftBracket
  | [']'] => some .rightBracket
  | [','] => some .comma
  | [':'] => some .colon
  | ['.'] => some .dot
  | ['+'] => some .plus
  | ['-'] => some .minus
  | ['*'] => some .star
  | ['/'] => some .slash
  | ['>'] => some .greater
  | ['<'] => some .less
  | ['=', '='] => some .equal
  | ['!', '='] => some .notEqual
  | _ => none

/-- What a word that is no keyword phrase stands for. -/
def classifyWord (text : List Char) : Except Defect (Kind × Payload) :=
  let lexeme := String.ofList text
  if text = "and".toList then .ok (.and, .text lexeme)
  else if text = "or".toList then .ok (.or, .text lexeme)
  else if text = "not".toList then .ok (.not, .text lexeme)
  else if text = "true".toList then .ok (.boolean, .boolean true)
  else if text = "false".toList then .ok (.boolean, .boolean false)
  else
    match readNumber? text with
    | some value => .ok (.number, .number value)
    | none =>
      if isIdentifier text then .ok (.identifier, .text lexeme) else .error (.invalidWord lexeme)

/-- What a segment that belongs to no keyword phrase stands for. -/
def classify (segment : Segment) : Except Defect (Kind × Payload) :=
  let lexeme := String.ofList segment.text
  match segment.shape with
  | .quoted => .ok (.string, .string (String.ofList (inner segment.text)))
  | .array => (Literal.listOf segment.text).map fun items => (.array, .array items)
  | .mark =>
    match markKind? segment.text with
    | some kind => .ok (kind, .text lexeme)
    | none => .error (.invalidWord lexeme)
  | .word => classifyWord segment.text

/-- The tokens of the segments of a line, as tokens of a source of that one line. -/
def tokens (phrases : List Phrase) (segments : List Segment) : Except Defect (List Token) :=
  match segments with
  | [] => .ok []
  | segment :: rest =>
    match Phrase.longest? phrases (segment :: rest) with
    | some phrase =>
      let last := ((segment :: rest)[phrase.others.length]?).getD segment
      let token : Token :=
        { kind := phrase.kind
          payload := .text phrase.text
          line := 1
          span := ⟨segment.start, last.stop⟩ }
      (tokens phrases (rest.drop phrase.others.length)).map (token :: ·)
    | none =>
      match segment.classify with
      | .error defect => .error defect
      | .ok (kind, payload) =>
        (tokens phrases rest).map (⟨kind, payload, 1, segment.span⟩ :: ·)
termination_by segments.length

end Segment

/-- The tokens of a line, as tokens of a source of that one line. A line without code has none. -/
def tokensOfLine (phrases : List Phrase) (line : List Char) : Except Defect (List Token) :=
  let code := codeOf line
  if isBlankText code then .ok []
  else
    match segmentsOf code with
    | .error defect => .error defect
    | .ok segments => Segment.tokens phrases segments

end LineScript
