import LineScript.Program
import LineScript.Reading.Cursor

/-!
# Reading expressions

Binary operators bind, from the loosest to the tightest, in the order `or`, `and`, equality, order,
sums, products, and all of them to the left. What stands inside parentheses, brackets or after an
operator with one operand is read one nesting level further in; the reading for that level is passed
to the outer one, so the limit on nesting is what makes reading end.
-/

namespace LineScript

/-- An item of a list literal as an expression. Items share the span of their literal. -/
def Literal.toExpr (span : Span) : Literal → Expr
  | number value => .number value span
  | string value => .string value span
  | boolean value => .boolean value span
  | identifier name => .identifier name span

namespace Reading

/-- Reads an expression, provided that one can start here. -/
def startingIn (construct : Construct) (help : Option String) (body : Reading Expr) :
    Reading Expr := do
  if (← kind).startsExpression then body
  else refuse (.expectedExpression construct) help

/-- Reads an operand of the operator spelled `symbol`. -/
def operandOf (symbol : String) (operand : Reading Expr) : Reading Expr :=
  startingIn .expression (some ("'" ++ symbol ++ "' needs an expression on both sides.")) operand

/-- The operators of one level of binding, by the kinds of their tokens. -/
abbrev Level := List (Token.Kind × BinaryOperator)

/-- Reads one more operator of a level and its right operand, if such an operator comes. What was
read before is its left operand. -/
def joined? (level : Level) (operand : Reading Expr) (left : Expr) : Reading (Option Expr) := do
  match level.lookup (← kind) with
  | none => return none
  | some operator =>
    let _ ← token
    let right ← operandOf operator.symbol operand
    return some (.binary operator left right (left.span.cover right.span))

/-- Reads operands joined by the operators of one level, which bind to the left. -/
def chain (level : Level) (operand : Reading Expr) : Reading Expr := do
  let first ← operand
  iterate (joined? level operand) first

/-- The levels of binding, the loosest first. -/
def levels : List Level :=
  [[(.or, .or)],
   [(.and, .and)],
   [(.equal, .equal), (.notEqual, .notEqual)],
   [(.greater, .greater), (.less, .less)],
   [(.plus, .add), (.minus, .subtract)],
   [(.star, .multiply), (.slash, .divide)]]

/-- Reads an expression of operands that `unary` reads. -/
def expressionOf (unary : Reading Expr) : Reading Expr :=
  levels.foldr chain unary

/-- Reads the expression that a construct needs. -/
def expressionIn (construct : Construct) (unary : Reading Expr) : Reading Expr :=
  startingIn construct none (expressionOf unary)

/-- Reads what may follow a name: an index in brackets, or a property after a point. -/
def nameTail (deeper : Option (Reading Expr)) (name : String) (span : Span) : Reading Expr := do
  if ← skip .leftBracket then
    let position ← nested deeper (expressionIn .index)
    let close ← expect .rightBracket .index (some "Index a list with brackets: `mitro[0]`.")
    return .index name position (span.cover close.span)
  else if ← skip .dot then
    let property ← expect .identifier .property
    return .property name property.text (span.cover property.span)
  else
    return .identifier name span

/-- Reads what follows the parenthesis that opens a group: an expression, and the one that closes
it. -/
def groupTail (deeper : Option (Reading Expr)) : Reading Expr := do
  let inner ← nested deeper (expressionIn .grouping)
  let _ ← expect .rightParen .grouping
    (some "Every opening parenthesis '(' must have a matching closing parenthesis ')'.")
  return inner

/-- Reads a literal, a name with what follows it, or an expression in parentheses. -/
def primary (deeper : Option (Reading Expr)) : Reading Expr := do
  match ← peek? with
  | none => refuse (.expectedExpression .expression)
  | some head =>
    match head.payload with
    | .number value => let _ ← token; return .number value head.span
    | .string value => let _ ← token; return .string value head.span
    | .boolean value => let _ ← token; return .boolean value head.span
    | .array items => let _ ← token; return .array (items.map (·.toExpr head.span)) head.span
    | .text text =>
      match head.kind with
      | .identifier =>
        let _ ← token
        nameTail deeper text head.span
      | .leftParen =>
        let _ ← token
        groupTail deeper
      | _ => refuse (.expectedExpression .expression)

/-- Reads the operand of an operator that stands before it. -/
def negation (operator : UnaryOperator) (deeper : Option (Reading Expr)) : Reading Expr := do
  let sign ← token
  let operand ← nested deeper (operandOf operator.symbol)
  return .unary operator operand (sign.span.cover operand.span)

/-- Reads an operand of the binary operators, given the reading of one that is nested in it. -/
def unaryOf (deeper : Option (Reading Expr)) : Reading Expr := do
  match ← kind with
  | .not => negation .not deeper
  | .minus => negation .negate deeper
  | _ => primary deeper

/-- Reads an operand of the binary operators where `room` more levels may be opened. -/
def unary (room : Nat) : Reading Expr := fun cursor =>
  match room with
  | 0 => unaryOf none cursor
  | room + 1 => unaryOf (some (unary room)) cursor

/-- Reads the expression that a construct needs, where `room` more levels may be opened. -/
def expression (construct : Construct) (room : Nat) : Reading Expr :=
  expressionIn construct (unary room)

end Reading

end LineScript
