import LineScript.Reading.Expression

/-!
# Reading statements and programs

Statements follow one another without separators; a block ends at its closing brace, and also where
the program ends. As with expressions, the reading of the statements of a block is passed to the
reading of the statement that holds the block.
-/

namespace LineScript.Reading

/-- Reads a comma and one more item, unless a closing parenthesis comes. The last item comes
first. -/
def itemAfter? {α : Type} (construct : Construct) (item : Reading α) (items : List α) :
    Reading (Option (List α)) := do
  if (← kind) = .rightParen then
    return none
  else
    let _ ← expect .comma construct
    return some ((← item) :: items)

/-- Reads items with commas between them, if there are any, up to the closing parenthesis. -/
def commaSeparated {α : Type} (construct : Construct) (item : Reading α) : Reading (List α) := do
  if (← kind) = .rightParen then
    return []
  else
    let first ← item
    let reversed ← iterate (itemAfter? construct item) [first]
    return reversed.reverse

/-- Reads one more statement, unless a token of one of the given kinds comes. The last statement
comes first. -/
def statementAfter? (stops : List Token.Kind) (statement : Reading Stmt) (statements : List Stmt) :
    Reading (Option (List Stmt)) := do
  if (← kind) ∈ stops then
    return none
  else
    return some ((← statement) :: statements)

/-- Reads statements up to a token of one of the given kinds. -/
def statementsUntil (stops : List Token.Kind) (statement : Reading Stmt) :
    Reading (List Stmt) := do
  let reversed ← iterate (statementAfter? stops statement) []
  return reversed.reverse

/-- Reads the statements of a block, up to a closing brace, the keyword that closes the program, or
the end. -/
def statementsOf (statement : Reading Stmt) : Reading (List Stmt) :=
  statementsUntil [.rightBrace, .finish, .eof] statement

/-- Reads a block: statements in braces. Gives the statements and the span of the closing brace. -/
def block (construct : Construct) (deeper : Option (Reading Stmt)) :
    Reading (List Stmt × Span) := do
  let _ ← expect .leftBrace construct (some "Blocks are wrapped in braces: `\x7b ... \x7d`.")
  let statements ← nested deeper statementsOf
  let close ← expect .rightBrace .block (some "Every '\x7b' needs a matching '\x7d'.")
  return (statements, close.span)

/-- Reads a print statement. -/
def printStatement (unary : Reading Expr) : Reading Stmt := do
  let keyword ← token
  let _ ← skip .colon
  let value ← expressionIn .print unary
  return .print value (keyword.span.cover value.span)

/-- Reads what follows the name in an assignment that starts with `start`: the sign and the
value. -/
def assignmentTail (start : Span) (name : String) (isList : Bool) (unary : Reading Expr) :
    Reading Stmt := do
  let _ ← expect .assign .assignment
    (some "Give the variable a value with '=': `umar = 25`.")
  let value ← expressionIn .assignment unary
  return .assign name value isList (start.cover value.span)

/-- Reads the name, the sign and the value of an assignment that starts with `start`. -/
def assignmentFrom (start : Span) (construct : Construct) (isList : Bool) (unary : Reading Expr) :
    Reading Stmt := do
  let name ← expect .identifier construct
    (some "Variable names start with a letter or '_': `umar = 25`.")
  assignmentTail start name.text isList unary

/-- Reads an assignment that a keyword declares. -/
def declaration (isList : Bool) (unary : Reading Expr) : Reading Stmt := do
  let keyword ← token
  assignmentFrom keyword.span .declaration isList unary

/-- Reads the definition of a function. -/
def functionStatement (deeper : Option (Reading Stmt)) : Reading Stmt := do
  let keyword ← token
  let name ← expect .identifier .function
  let _ ← expect .leftParen .function
    (some "Parameters go in parentheses after the name: `function bolavo(naam) \x7b ... \x7d`.")
  let params ← commaSeparated .parameters (expect .identifier .parameters)
  let _ ← expect .rightParen .parameters
  let (body, close) ← block .function deeper
  return .function name.text (params.map Token.text) body (keyword.span.cover close)

/-- Reads a condition with its block and, if there is one, the block of its alternative. -/
def branchStatement (unary : Reading Expr) (deeper : Option (Reading Stmt)) : Reading Stmt := do
  let keyword ← token
  let _ ← expect .leftParen .condition
    (some "Conditions are written in parentheses: `jo (umar > 18) to \x7b ... \x7d`.")
  let condition ← expressionIn .condition unary
  let _ ← expect .rightParen .condition (some "Close the condition with ')' before 'to'.")
  let _ ← expect .consequence .condition
    (some "The condition is followed by 'to' and a block: `jo (x) to \x7b ... \x7d`.")
  let (consequence, close) ← block .condition deeper
  if ← skip .alternative then
    let (alternative, lastClose) ← block .condition deeper
    return .branch condition consequence (some alternative) (keyword.span.cover lastClose)
  else
    return .branch condition consequence none (keyword.span.cover close)

/-- Reads a loop. -/
def loopStatement (unary : Reading Expr) (deeper : Option (Reading Stmt)) : Reading Stmt := do
  let keyword ← token
  let count ← expressionIn .loop unary
  let _ ← expect .times .loop (some "Loops read `repeat 5 vaar \x7b ... \x7d`.")
  let (body, close) ← block .loop deeper
  return .loop count body (keyword.span.cover close)

/-- Reads what follows the name in a call: its arguments in parentheses. -/
def callTail (name : String) (span : Span) (unary : Reading Expr) : Reading Stmt := do
  let _ ← expect .leftParen .call
  let args ← commaSeparated .call (expressionIn .call unary)
  let close ← expect .rightParen .call
  return .call name args (span.cover close.span)

/-- Reads a call. -/
def callStatement (unary : Reading Expr) : Reading Stmt := do
  let name ← token
  callTail name.text name.span unary

/-- Whether a name is followed by a parenthesis, which makes it a call. -/
def atCall : Reading Bool := fun cursor =>
  .ok ((cursor.rest.drop 1).head?.any (·.kind = .leftParen), cursor)

/-- Refuses a token that no statement starts with. -/
def refuseStatement : Reading Stmt :=
  refuse .unexpectedToken
    (some "A statement starts with print, a declaration, function, jo, repeat, or a name.")

/-- Reads a statement, given the reading of its operands and of the statements of its blocks. -/
def statementOf (unary : Reading Expr) (deeper : Option (Reading Stmt)) : Reading Stmt := do
  match ← peek? with
  | none => refuseStatement
  | some head =>
    match head.kind with
    | .print => printStatement unary
    | .declare => declaration false unary
    | .declareList => declaration true unary
    | .function => functionStatement deeper
    | .condition => branchStatement unary deeper
    | .loop => loopStatement unary deeper
    | .identifier =>
      if ← atCall then callStatement unary
      else assignmentFrom head.span .assignment false unary
    | _ => refuseStatement

/-- Reads a statement where `room` more levels may be opened. -/
def statement (room : Nat) : Reading Stmt := fun cursor =>
  match room with
  | 0 => statementOf (unary 0) none cursor
  | room + 1 => statementOf (unary (room + 1)) (some (statement room)) cursor

/-- Reads a program with its two keywords, each of which a colon may follow, where `room` levels may
be opened. Its statements end at the keyword that closes it, or at the end. -/
def programWithin (room : Nat) : Reading Program := do
  if ← skip .start then
    let _ ← skip .colon
    let statements ← statementsUntil [.finish, .eof] (statement room)
    if ← skip .finish then
      let _ ← skip .colon
      return ⟨statements⟩
    else
      refuse .missingFinish
        (some "Programs end with `end:` in plain mode or `samaapt:` in colorful mode.")
  else
    refuse .missingStart
      (some "Programs begin with `start:` in plain mode or `sharu:` in colorful mode.")

/-- Reads a program. -/
def program : Reading Program :=
  programWithin nestingLimit

end LineScript.Reading
