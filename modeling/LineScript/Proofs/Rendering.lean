import LineScript.Proofs.Grammar
import LineScript.Scan

/-!
# Rendering programs

A program is written as a list of lexemes (`Program.lexemes`), one for each token to be read, with
parentheses only where an operator would bind otherwise. A style chooses between the ways in which a
node may be written; it tells nodes apart by their spans. A layout puts the lexemes on lines and
blanks between them. What it may not do is keep apart a name and the bracket of its index, or leave
out the blanks between lexemes that would be read as one.
-/

namespace LineScript

open Grammar Text

/-- What one token of a program is written as. -/
inductive Lexeme where
  /-- A keyword, spelled as the vocabulary says. -/
  | keyword (kind : Token.Kind)
  /-- A sign, or an operator that is a word. -/
  | sign (kind : Token.Kind)
  | name (text : String)
  /-- A number, with the text it is written as. -/
  | number (text : List Char) (value : Float)
  | boolean (value : Bool)
  /-- A text in quotes of one kind. -/
  | string (quote : Char) (value : String)
  /-- A list literal, with the texts its items are written as. -/
  | array (items : List (List Char × Literal))

/-- The spelling of a keyword. -/
def Keywords.spelling (keywords : Keywords) : Token.Kind → String
  | .start => keywords.start
  | .finish => keywords.finish
  | .print => keywords.print
  | .condition => keywords.condition
  | .consequence => keywords.consequence
  | .alternative => keywords.alternative
  | .loop => keywords.loop
  | .times => keywords.times
  | .function => keywords.function
  | .declareList => keywords.declareList
  | .declare => keywords.declare
  | _ => ""

/-- The characters of a sign or of an operator that is a word. -/
def Token.Kind.signText : Token.Kind → List Char
  | .assign => ['=']
  | .leftBrace => ['{']
  | .rightBrace => ['}']
  | .leftParen => ['(']
  | .rightParen => [')']
  | .leftBracket => ['[']
  | .rightBracket => [']']
  | .comma => [',']
  | .colon => [':']
  | .dot => ['.']
  | .plus => ['+']
  | .minus => ['-']
  | .star => ['*']
  | .slash => ['/']
  | .greater => ['>']
  | .less => ['<']
  | .equal => ['=', '=']
  | .notEqual => ['!', '=']
  | .and => "and".toList
  | .or => "or".toList
  | .not => "not".toList
  | _ => []

namespace Lexeme

/-- The characters of a list literal: its items with a comma and a blank between them. -/
def arrayText (items : List (List Char)) : List Char :=
  '[' :: ([',', ' '].intercalate items ++ [']'])

/-- The characters of a lexeme. -/
def text (keywords : Keywords) : Lexeme → List Char
  | keyword kind => (keywords.spelling kind).toList
  | sign kind => kind.signText
  | name text => text.toList
  | number text _ => text
  | boolean value => (toString value).toList
  | string quote value => quote :: (value.toList ++ [quote])
  | array items => arrayText (items.map Prod.fst)

/-- Whether a lexeme is read as a word. -/
def isWord : Lexeme → Bool
  | keyword _ | name _ | number _ _ | boolean _ => true
  | sign kind => kind == .and || kind == .or || kind == .not
  | string _ _ | array _ => false

/-- Whether two lexemes would be read as something else if there was no blank between them. -/
def clashes : Lexeme → Lexeme → Bool
  | number _ _, sign .dot => true
  | sign .assign, sign .assign | sign .assign, sign .equal => true
  | left, array _ => left.isWord
  | left, right => left.isWord && right.isWord

end Lexeme

/-! ### Lexemes of a program -/

/-- How the nodes of a program are written, where there is a choice. -/
structure Style where
  /-- The text of a number. -/
  literal : Float → Span → List Char
  /-- The quotes around a text. -/
  quote : String → Span → Char
  /-- Whether an assignment starts with the phrase that declares a variable, if there is one. -/
  declares : Span → Bool
  /-- Whether a colon follows the keyword of a print statement. -/
  printColon : Span → Bool
  /-- Whether a colon follows the keyword that opens the program. -/
  startColon : Bool
  /-- Whether a colon follows the keyword that closes the program. -/
  finishColon : Bool

/-- The place of the class of an operator among the classes, the loosest of which comes first. -/
def BinaryOperator.level (operator : BinaryOperator) : Nat :=
  precedence.findIdx (·.contains operator)

/-- The place of what is no operator with two operands. -/
abbrev tightest : Nat :=
  precedence.length

namespace Lexeme

/-- Lexemes in parentheses, or without. -/
def grouped (parentheses : Bool) (lexemes : List Lexeme) : List Lexeme :=
  if parentheses then sign .leftParen :: (lexemes ++ [sign .rightParen]) else lexemes

/-- A colon, or nothing. -/
def colon (present : Bool) : List Lexeme :=
  if present then [sign .colon] else []

/-- Items with a comma between them. -/
def separated (items : List (List Lexeme)) : List Lexeme :=
  [sign .comma].intercalate items

end Lexeme

namespace Expr

open Lexeme (grouped)

/-- An item of a list literal: its characters and what they stand for. -/
def item (style : Style) : Expr → List Char × Literal
  | number value span => (style.literal value span, .number value)
  | string value span =>
    (style.quote value span :: (value.toList ++ [style.quote value span]), .string value)
  | boolean value _ => ((toString value).toList, .boolean value)
  | identifier name _ => (name.toList, .identifier name)
  | _ => ([], .boolean false)

/-- The lexemes of an expression that stands where operators of the level `least` or tighter ones
may stand without parentheses. -/
def lexemes (style : Style) : Expr → Nat → List Lexeme
  | number value span, _ => [.number (style.literal value span) value]
  | string value span, _ => [.string (style.quote value span) value]
  | boolean value _, _ => [.boolean value]
  | array items _, _ => [.array (items.map (item style))]
  | identifier name _, _ => [.name name]
  | index name position _, _ =>
    .name name :: .sign .leftBracket :: (position.lexemes style 0 ++ [.sign .rightBracket])
  | property name key _, _ => [.name name, .sign .dot, .name key]
  | unary operator operand _, _ => .sign operator.kind :: operand.lexemes style tightest
  | binary operator left right _, least =>
    -- Operators bind to the left, so a right operand of the same level needs parentheses.
    grouped (operator.level < least)
      (left.lexemes style operator.level ++
        .sign operator.kind :: right.lexemes style (operator.level + 1))

/-- How many levels are open at once in the lexemes of an expression. -/
def depth : Expr → Nat → Nat
  | index _ position _, _ => position.depth 0 + 1
  | unary _ operand _, _ => operand.depth tightest + 1
  | binary operator left right _, least =>
    max (left.depth operator.level) (right.depth (operator.level + 1)) +
      (if operator.level < least then 1 else 0)
  | _, _ => 0

end Expr

namespace Stmt

open Lexeme (colon separated)

variable (vocabulary : Vocabulary) (style : Style)

/-- What an assignment starts with. -/
def declarationLexemes (isList : Bool) (span : Span) : List Lexeme :=
  if isList then [.keyword .declareList]
  else if vocabulary.keywords.declarationPhrase?.isSome && style.declares span then
    [.keyword .declare]
  else []

mutual

/-- The lexemes of a statement. -/
def lexemes : Stmt → List Lexeme
  | print value span =>
    .keyword .print :: (colon (style.printColon span) ++ value.lexemes style 0)
  | assign name value isList span =>
    declarationLexemes vocabulary style isList span ++
      .name name :: .sign .assign :: value.lexemes style 0
  | function name params body _ =>
    .keyword .function :: .name name :: .sign .leftParen ::
      (separated (params.map fun param => [.name param]) ++
        .sign .rightParen :: .sign .leftBrace :: (lexemesAll body ++ [.sign .rightBrace]))
  | branch condition consequence alternative _ =>
    .keyword .condition :: .sign .leftParen ::
      (condition.lexemes style 0 ++ .sign .rightParen :: .keyword .consequence ::
        .sign .leftBrace :: (lexemesAll consequence ++ .sign .rightBrace ::
          lexemesAlternative alternative))
  | loop count body _ =>
    .keyword .loop :: (count.lexemes style 0 ++ .keyword .times :: .sign .leftBrace ::
      (lexemesAll body ++ [.sign .rightBrace]))
  | call name args _ =>
    .name name :: .sign .leftParen ::
      (separated (args.map fun arg => arg.lexemes style 0) ++ [.sign .rightParen])

/-- The lexemes of statements one after the other. -/
def lexemesAll : List Stmt → List Lexeme
  | [] => []
  | stmt :: stmts => stmt.lexemes ++ lexemesAll stmts

/-- The lexemes of an alternative, if there is one. -/
def lexemesAlternative : Option (List Stmt) → List Lexeme
  | none => []
  | some stmts =>
    .keyword .alternative :: .sign .leftBrace :: (lexemesAll stmts ++ [.sign .rightBrace])

end

mutual

/-- How many levels are open at once in the lexemes of a statement. -/
def depth : Stmt → Nat
  | print value _ | assign _ value _ _ => value.depth 0
  | function _ _ body _ => depthAll body + 1
  | branch condition consequence alternative _ =>
    max (condition.depth 0) (max (depthAll consequence + 1) (depthAlternative alternative))
  | loop count body _ => max (count.depth 0) (depthAll body + 1)
  | call _ args _ => (args.map fun arg => arg.depth 0).foldr max 0

/-- How many levels are open at once in the lexemes of statements. -/
def depthAll : List Stmt → Nat
  | [] => 0
  | stmt :: stmts => max stmt.depth (depthAll stmts)

/-- How many levels are open at once in the lexemes of an alternative. -/
def depthAlternative : Option (List Stmt) → Nat
  | none => 0
  | some stmts => depthAll stmts + 1

end

end Stmt

namespace Program

/-- The lexemes of a program. -/
def lexemes (vocabulary : Vocabulary) (style : Style) (program : Program) : List Lexeme :=
  .keyword .start :: (Lexeme.colon style.startColon ++
    (Stmt.lexemesAll vocabulary style program.body ++
      .keyword .finish :: Lexeme.colon style.finishColon))

end Program

/-! ### Programs that can be written -/

/-- The words that are no names in either vocabulary. -/
def reservedWords : List (List Char) :=
  [Vocabulary.plain, .colorful].flatMap (fun vocabulary =>
    vocabulary.keywords.phrases.flatMap Phrase.words) ++
  ["and", "or", "not", "true", "false"].map String.toList

/-- A text that is read as a name in both vocabularies. -/
structure IsName (text : String) : Prop where
  /-- It is made of the right characters. -/
  identifier : isIdentifier text.toList = true
  /-- It means nothing else. -/
  unreserved : text.toList ∉ reservedWords

/-- A text that is read as a number. -/
structure IsNumeral (text : List Char) (value : Float) : Prop where
  /-- It begins with a digit. -/
  digit : text.head?.any Char.isDigit = true
  /-- It spells the number. -/
  spells : readNumber? text = some value

/-- A text that can stand between quotes. -/
structure IsQuotable (quote : Char) (value : String) : Prop where
  /-- The quotes are quotes. -/
  isQuote : isQuote quote = true
  /-- They do not close too early. -/
  unclosed : quote ∉ value.toList
  /-- The text stays on its line. -/
  oneLine : '\n' ∉ value.toList

/-- A text that is read as an item of a list literal. Only here may a number have a sign. -/
def IsItem (text : List Char) : Literal → Prop
  | .number value =>
    IsNumeral text value ∨
      ∃ digits opposite, text = '-' :: digits ∧ IsNumeral digits opposite ∧ value = -opposite
  | .string value => ∃ quote, IsQuotable quote value ∧ text = quote :: (value.toList ++ [quote])
  | .boolean value => text = (toString value).toList
  | .identifier name => IsName name ∧ text = name.toList

namespace Expr

/-- Whether an expression is one that may be an item of a list literal. -/
def isLeaf : Expr → Bool
  | number _ _ | string _ _ | boolean _ _ | identifier _ _ => true
  | _ => false

/-- The expression can be written in the style. -/
def Printable (style : Style) : Expr → Prop
  | number value span => IsNumeral (style.literal value span) value
  | string value span => IsQuotable (style.quote value span) value
  | boolean _ _ => True
  | array items _ =>
    ∀ expr ∈ items, expr.isLeaf = true ∧ IsItem (expr.item style).1 (expr.item style).2
  | identifier name _ => IsName name
  | index name position _ => IsName name ∧ position.Printable style
  | property name key _ => IsName name ∧ IsName key
  | unary _ operand _ => operand.Printable style
  | binary _ left right _ => left.Printable style ∧ right.Printable style

end Expr

namespace Stmt

mutual

/-- The statement can be written in the style. -/
def Printable (style : Style) : Stmt → Prop
  | print value _ => value.Printable style
  | assign name value _ _ => IsName name ∧ value.Printable style
  | function name params body _ =>
    IsName name ∧ (∀ param ∈ params, IsName param) ∧ PrintableAll style body
  | branch condition consequence alternative _ =>
    condition.Printable style ∧ PrintableAll style consequence ∧
      PrintableAlternative style alternative
  | loop count body _ => count.Printable style ∧ PrintableAll style body
  | call name args _ => IsName name ∧ ∀ arg ∈ args, arg.Printable style

/-- The statements can be written in the style. -/
def PrintableAll (style : Style) : List Stmt → Prop
  | [] => True
  | stmt :: stmts => stmt.Printable style ∧ PrintableAll style stmts

/-- The alternative, if there is one, can be written in the style. -/
def PrintableAlternative (style : Style) : Option (List Stmt) → Prop
  | none => True
  | some stmts => PrintableAll style stmts

end

end Stmt

/-- The program can be written in the style, with at most 256 levels open at once. -/
structure Program.Printable (style : Style) (program : Program) : Prop where
  /-- Its statements can be written. -/
  body : Stmt.PrintableAll style program.body
  /-- They are not nested too deeply. -/
  depth : Stmt.depthAll program.body ≤ 256

/-! ### Layouts -/

/-- A lexeme with the blanks before it. -/
structure Piece where
  /-- The blanks. -/
  gap : List Char
  /-- What follows them. -/
  lexeme : Lexeme

/-- A line of a rendering. -/
structure RenderedLine where
  /-- The lexemes of the line with the blanks before them. -/
  pieces : List Piece
  /-- The blanks at its end. -/
  trailing : List Char

/-- A rendering line by line. -/
abbrev Layout := List RenderedLine

/-- The blanks stay on their line. -/
def IsGap (gap : List Char) : Prop :=
  ∀ c ∈ gap, isBlank c = true ∧ c ≠ '\n'

namespace Piece

/-- A piece may follow what stands before it on its line. The bracket of an index directly follows a
name, and other lexemes that would be read as one with what stands before them do not. -/
def FitsAfter (previous : Option Lexeme) (piece : Piece) : Prop :=
  match piece.lexeme with
  | .sign .leftBracket => piece.gap = [] ∧ ∃ name, previous = some (.name name)
  | lexeme => piece.gap = [] → previous.all (!·.clashes lexeme) = true

/-- The pieces may follow each other, and the first of them what stands before it. -/
def Admissible (previous : Option Lexeme) : List Piece → Prop
  | [] => True
  | piece :: pieces =>
    IsGap piece.gap ∧ piece.FitsAfter previous ∧ Admissible (some piece.lexeme) pieces

/-- The characters of pieces. -/
def text (keywords : Keywords) (pieces : List Piece) : List Char :=
  pieces.flatMap fun piece => piece.gap ++ piece.lexeme.text keywords

end Piece

namespace Layout

/-- The lexemes that a layout puts on lines. -/
def lexemes (layout : Layout) : List Lexeme :=
  layout.flatMap fun line => line.pieces.map Piece.lexeme

/-- Every line of the layout is read as its lexemes. -/
def Admissible (layout : Layout) : Prop :=
  ∀ line ∈ layout, Piece.Admissible none line.pieces ∧ IsGap line.trailing

/-- The characters of a line. -/
def lineText (keywords : Keywords) (line : RenderedLine) : List Char :=
  Piece.text keywords line.pieces ++ line.trailing

/-- The characters of all lines. -/
def text (keywords : Keywords) (layout : Layout) : List Char :=
  ['\n'].intercalate (layout.map (lineText keywords))

end Layout

/-- The text is a rendering of the program. -/
def Program.Renders (vocabulary : Vocabulary) (style : Style) (program : Program)
    (source : String) : Prop :=
  ∃ layout : Layout, layout.Admissible ∧ layout.lexemes = program.lexemes vocabulary style ∧
    source.toList = layout.text vocabulary.keywords

end LineScript
