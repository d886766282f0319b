import LineScript.Span

/-!
# Programs

The syntax trees of expressions, statements and programs. Every node knows the bytes of the source
it was read from.
-/

namespace LineScript

/-- The operators with one operand. -/
inductive UnaryOperator where
  | negate
  | not
deriving DecidableEq, Repr

/-- The spelling of an operator with one operand. -/
def UnaryOperator.symbol : UnaryOperator → String
  | negate => "-"
  | not => "not"

/-- The operators with two operands. -/
inductive BinaryOperator where
  | add
  | subtract
  | multiply
  | divide
  | equal
  | notEqual
  | less
  | greater
  | and
  | or
deriving DecidableEq, Repr

/-- The spelling of an operator with two operands. -/
def BinaryOperator.symbol : BinaryOperator → String
  | add => "+"
  | subtract => "-"
  | multiply => "*"
  | divide => "/"
  | equal => "=="
  | notEqual => "!="
  | less => "<"
  | greater => ">"
  | and => "and"
  | or => "or"

/-- Expressions. -/
inductive Expr where
  | number (value : Float) (span : Span)
  | string (value : String) (span : Span)
  | boolean (value : Bool) (span : Span)
  | array (items : List Expr) (span : Span)
  | identifier (name : String) (span : Span)
  /-- The item of a list variable at a position. -/
  | index (name : String) (position : Expr) (span : Span)
  /-- A property of the value of a variable. -/
  | property (name : String) (property : String) (span : Span)
  | unary (operator : UnaryOperator) (operand : Expr) (span : Span)
  | binary (operator : BinaryOperator) (left right : Expr) (span : Span)
deriving Inhabited

/-- The bytes an expression was read from. -/
def Expr.span : Expr → Span
  | number _ span | string _ span | boolean _ span | array _ span | identifier _ span
  | index _ _ span | property _ _ span | unary _ _ span | binary _ _ _ span => span

/-- Statements. -/
inductive Stmt where
  /-- Prints the value of an expression. -/
  | print (value : Expr) (span : Span)
  /-- Gives a variable a value; `isList` says that it was declared to hold a list. -/
  | assign (name : String) (value : Expr) (isList : Bool) (span : Span)
  /-- Defines a function. -/
  | function (name : String) (params : List String) (body : List Stmt) (span : Span)
  /-- Runs one of two blocks; the second may be missing. -/
  | branch (condition : Expr) (consequence : List Stmt) (alternative : Option (List Stmt))
      (span : Span)
  /-- Runs a block a number of times. -/
  | loop (count : Expr) (body : List Stmt) (span : Span)
  /-- Calls a function. -/
  | call (name : String) (args : List Expr) (span : Span)
deriving Inhabited

/-- The bytes a statement was read from. -/
def Stmt.span : Stmt → Span
  | print _ span | assign _ _ _ span | function _ _ _ span | branch _ _ _ span | loop _ _ span
  | call _ _ span => span

/-- A program: the statements between the keywords that open and close it. -/
structure Program where
  /-- The statements in order. -/
  body : List Stmt
deriving Inhabited

end LineScript
