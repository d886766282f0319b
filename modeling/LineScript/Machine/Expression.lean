import LineScript.Environment
import LineScript.Fault
import LineScript.Program
import LineScript.Value.Comparison

/-!
# Evaluating expressions

An expression has a value or a fault that depend on the environment and on nothing else. All
operands are evaluated, from left to right, before an operator is applied, also those of `and` and
`or`.
-/

namespace LineScript

/-- The value of a variable. -/
def Environment.lookup (env : Environment) (name : String) (span : Span) : Except Fault Value :=
  match env.get? name with
  | some value => .ok value
  | none =>
    .error
      { cause := .undefinedVariable name
        span
        help := some ("Assign it before use: `" ++ name ++ " = ...`.") }

namespace Value

/-- The item of a list at a position, which must be a whole number below the length. -/
def itemAt? (items : List Value) (position : Value) : Option Value :=
  match position with
  | number n => (toNat? n).bind (items[·]?)
  | _ => none

/-- The item at a position of a list that the variable `name` holds. -/
def itemAt (name : String) (items : List Value) (position : Value) (span : Span) :
    Except Fault Value :=
  match itemAt? items position with
  | some item => .ok item
  | none =>
    .error
      { cause := .indexOutOfBounds position.display items.length
        span
        help := some ("Valid indexes for '" ++ name ++ "' are 0 to " ++
          toString (items.length - 1) ++ ".") }

/-- A property of a value. Lists and strings have a length, and there are no other properties. -/
def property (value : Value) (property : String) (span : Span) : Except Fault Value :=
  match value, property with
  | list items, "length" => .ok (number (Float.ofNat items.length))
  | string text, "length" => .ok (number (Float.ofNat text.length))
  | _, _ =>
    .error
      { cause := .unknownProperty property value.typeName
        span
        help := some "Lists and strings have a `length` property." }

/-- Applies an operator with one operand. -/
def applyUnary (operator : UnaryOperator) (value : Value) (span : Span) : Except Fault Value :=
  match operator, value with
  | .not, value => .ok (boolean (!value.isTruthy))
  | .negate, number n => .ok (number (-n))
  | .negate, value =>
    .error { cause := .typeMismatch operator.symbol "nothing" value.typeName, span }

/-- The fault of an operator that applies to numbers only. -/
def numbersNeeded (operator : BinaryOperator) (left right : Value) (span : Span) : Fault :=
  { cause := .typeMismatch operator.symbol left.typeName right.typeName, span }

/-- Applies an operator with two operands. Numbers are added; all else is joined as text. -/
def applyBinary (operator : BinaryOperator) (left right : Value) (span : Span) :
    Except Fault Value :=
  match operator with
  | .add =>
    match left, right with
    | number l, number r => .ok (number (l + r))
    | l, r => .ok (string (l.display ++ r.display))
  | .subtract =>
    match left, right with
    | number l, number r => .ok (number (l - r))
    | l, r => .error (numbersNeeded operator l r span)
  | .multiply =>
    match left, right with
    | number l, number r => .ok (number (l * r))
    | l, r => .error (numbersNeeded operator l r span)
  | .divide =>
    match left, right with
    | number l, number r =>
      if r == 0 then
        .error { cause := .divisionByZero, span, help := some "Check the divisor before dividing." }
      else
        .ok (number (l / r))
    | l, r => .error (numbersNeeded operator l r span)
  | .equal => .ok (boolean (left.looseEq right))
  | .notEqual => .ok (boolean (!left.looseEq right))
  | .less => .ok (boolean (left.compare right == some .lt))
  | .greater => .ok (boolean (left.compare right == some .gt))
  | .and => .ok (boolean (left.isTruthy && right.isTruthy))
  | .or => .ok (boolean (left.isTruthy || right.isTruthy))

end Value

namespace Expr

mutual

/-- The value of an expression in an environment. -/
def eval (env : Environment) : Expr → Except Fault Value
  | number value _ => .ok (.number value)
  | string value _ => .ok (.string value)
  | boolean value _ => .ok (.boolean value)
  | array items _ => (evalAll env items).map .list
  | identifier name span => env.lookup name span
  | index name position span =>
    match env.lookup name span with
    | .error fault => .error fault
    | .ok (.list items) =>
      match position.eval env with
      | .error fault => .error fault
      | .ok value => Value.itemAt name items value position.span
    | .ok value =>
      .error
        { cause := .notAList name value.typeName
          span
          help := some ("'" ++ name ++ "' holds a " ++ value.typeName ++
            "; only lists can be indexed. Declare one with `list " ++ name ++ " = [...]`.") }
  | property name key span =>
    match env.lookup name span with
    | .error fault => .error fault
    | .ok value => value.property key span
  | unary operator operand span =>
    match operand.eval env with
    | .error fault => .error fault
    | .ok value => Value.applyUnary operator value span
  | binary operator left right span =>
    match left.eval env with
    | .error fault => .error fault
    | .ok l =>
      match right.eval env with
      | .error fault => .error fault
      | .ok r => Value.applyBinary operator l r span

/-- The values of expressions, evaluated from left to right. -/
def evalAll (env : Environment) : List Expr → Except Fault (List Value)
  | [] => .ok []
  | expr :: exprs =>
    match expr.eval env with
    | .error fault => .error fault
    | .ok value => (evalAll env exprs).map (value :: ·)

end

end Expr

end LineScript
