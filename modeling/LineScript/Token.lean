import LineScript.Span

/-!
# Tokens

A token is a piece of a line with its kind, what it stands for, and where it is.
-/

namespace LineScript

/-- An item of a list literal. -/
inductive Literal where
  | number (value : Float)
  | string (value : String)
  | boolean (value : Bool)
  | identifier (name : String)

namespace Token

/-- The kinds of tokens. -/
inductive Kind where
  /-- The keyword that opens a program. -/
  | start
  /-- The keyword that closes a program. -/
  | finish
  | print
  | condition
  | consequence
  | alternative
  | loop
  | times
  | function
  | declare
  | declareList
  | assign
  | leftBrace
  | rightBrace
  | leftParen
  | rightParen
  | leftBracket
  | rightBracket
  | comma
  | colon
  | dot
  | plus
  | minus
  | star
  | slash
  | greater
  | less
  | equal
  | notEqual
  | and
  | or
  | not
  | boolean
  | string
  | number
  /-- A list literal. -/
  | array
  | identifier
  /-- The end of the source. -/
  | eof
deriving DecidableEq, Repr, Inhabited

/-- The name of a kind in messages. -/
def Kind.describe : Kind → String
  | start => "start keyword"
  | finish => "end keyword"
  | print => "print keyword"
  | condition => "'jo'"
  | consequence => "'to'"
  | alternative => "'nahi to'"
  | loop => "'repeat'"
  | times => "'vaar'"
  | function => "'function'"
  | declare => "variable declaration keyword"
  | declareList => "list keyword"
  | assign => "'='"
  | leftBrace => "'\x7b'"
  | rightBrace => "'\x7d'"
  | leftParen => "'('"
  | rightParen => "')'"
  | leftBracket => "'['"
  | rightBracket => "']'"
  | comma => "','"
  | colon => "':'"
  | dot => "'.'"
  | plus => "'+'"
  | minus => "'-'"
  | star => "'*'"
  | slash => "'/'"
  | greater => "'>'"
  | less => "'<'"
  | equal => "'=='"
  | notEqual => "'!='"
  | and => "'and'"
  | or => "'or'"
  | not => "'not'"
  | boolean => "boolean"
  | string => "string"
  | number => "number"
  | array => "array literal"
  | identifier => "identifier"
  | eof => "end of input"

/-- Whether an expression may begin with a token of this kind. -/
def Kind.startsExpression : Kind → Bool
  | number | string | boolean | array | identifier | leftParen | minus | not => true
  | _ => false

/-- What a token stands for: its text, or the value of a literal. -/
inductive Payload where
  | text (text : String)
  | number (value : Float)
  | string (value : String)
  | boolean (value : Bool)
  | array (items : List Literal)

end Token

/-- A token of a source text. -/
structure Token where
  /-- What the grammar sees. -/
  kind : Token.Kind
  /-- What the token stands for. -/
  payload : Token.Payload
  /-- The line it is on, counted from one. -/
  line : Nat
  /-- The bytes it covers. -/
  span : Span

namespace Token

/-- The text of a name, keyword or sign. Literals have none. -/
def text (token : Token) : String :=
  match token.payload with
  | .text text => text
  | _ => ""

/-- The token that marks the end of a source of `bytes` bytes and `lines` lines. -/
def endOfSource (lines bytes : Nat) : Token :=
  { kind := .eof, payload := .text "", line := lines, span := ⟨bytes, bytes⟩ }

/-- A token of a text that follows `lines` lines and `bytes` bytes of another one, as a token of the
whole. -/
def shift (token : Token) (lines bytes : Nat) : Token :=
  { token with line := lines + token.line, span := token.span.shift bytes }

end Token

end LineScript
