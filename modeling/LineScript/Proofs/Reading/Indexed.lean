import LineScript.Reading.Parse

/-!
# Reading by index

A second way to read a program. It keeps the whole list of tokens and the index of the token to
come, looks tokens up without asking whether they are there, and counts open levels up and down in
its state. It repeats while there is something to read, and calls itself for what is nested.

What could go wrong in this is an outcome of its own: a token is looked up outside of the list, or
the calls and rounds that are allowed for do not suffice. The state also keeps a record of where the
index has been, and of every call of a function that reads a statement, a block or an expression.
-/

namespace LineScript.Indexed

/-- A call of a function that has ended. -/
structure Visit where
  /-- The index at which it began. -/
  enter : Nat
  /-- How many levels were open when it began. -/
  enterDepth : Nat
  /-- The index at which it ended. -/
  leave : Nat
  /-- How many levels were open when it ended. -/
  leaveDepth : Nat
  /-- Whether it gave a result. -/
  gave : Bool

/-- The state of a reader. -/
structure State where
  /-- The index of the token to come. -/
  index : Nat
  /-- How many levels are open. -/
  depth : Nat
  /-- All values that the index has had, the last one first. -/
  trail : List Nat
  /-- The calls that have ended, the last one first. -/
  visits : List Visit

/-- The state before all tokens. -/
def State.initial : State :=
  { index := 0, depth := 0, trail := [0], visits := [] }

/-- Why a reader has no result. -/
inductive Stop where
  /-- The tokens are not those of a program. -/
  | fault (fault : Fault)
  /-- There is no token at an index that was looked up. -/
  | outside (index : Nat)
  /-- The calls or rounds that are allowed for do not suffice. -/
  | endless

/-- A reader of something from a list of tokens. -/
abbrev Reader := ReaderT (List Token) (ExceptT Stop (StateM State))

variable {α σ : Type}

/-! ### Tokens -/

/-- The token at an index. -/
def look (index : Nat) : Reader Token := do
  match (← read)[index]? with
  | some token => return token
  | none => throw (.outside index)

/-- The token to come. -/
def peek : Reader Token := do
  look (← get).index

/-- The kind of the token to come. -/
def kind : Reader Token.Kind := do
  return (← peek).kind

/-- The token after the one to come, or the one to come if it is the last one. -/
def peekNext : Reader Token := do
  match (← read)[(← get).index + 1]? with
  | some token => return token
  | none => peek

/-- The token before the one to come, or the one to come if it is the first one. -/
def previous : Reader Token := do
  look ((← get).index - 1)

/-- Whether the end is to come. -/
def atEnd : Reader Bool := do
  return (← kind) = .eof

/-- Whether a token of the given kind is to come, and not the end. -/
def check (expected : Token.Kind) : Reader Bool := do
  if ← atEnd then return false else return (← kind) = expected

/-- Goes on by one token, except at the end, and gives the token before the one to come. -/
def advance : Reader Token := do
  unless ← atEnd do
    modify fun state =>
      { state with index := state.index + 1, trail := (state.index + 1) :: state.trail }
  previous

/-- Goes on if a token of the given kind is to come, and says whether it was. -/
def skip (expected : Token.Kind) : Reader Bool := do
  if ← check expected then
    let _ ← advance
    return true
  else
    return false

/-- The bytes a fault is about: those of the token to come, and at the end those just after the
token before it, if there is one. -/
def place : Reader Span := do
  let token ← peek
  let state ← get
  if token.kind = .eof ∧ 0 < state.index then
    return Span.single (← look (state.index - 1)).span.stop
  else
    return token.span

/-- Refuses to go on. The cause may name the kind of the token to come. -/
def refuse (cause : Token.Kind → Cause) (help : Option String := none) : Reader α := do
  throw (.fault { cause := cause (← kind), span := ← place, help })

/-- Goes on over a token of the given kind, which must be there. -/
def expect (expected : Token.Kind) (construct : Construct) (help : Option String := none) :
    Reader Token := do
  if ← check expected then advance else refuse (.expected expected construct) help

/-! ### Control -/

/-- Runs a reader with one more level open, and closes it however the reader ends. -/
def nested (body : Reader α) : Reader α := do
  if Reading.nestingLimit ≤ (← get).depth then
    refuse (fun _ => .tooDeeplyNested Reading.nestingLimit)
      (some "Move part of it into a variable or a function.")
  else
    fun tokens state =>
      let (result, last) := body tokens { state with depth := state.depth + 1 }
      (result, { last with depth := last.depth - 1 })

/-- Runs a reader and records the call. -/
def watched (body : Reader α) : Reader α := fun tokens state =>
  let (result, last) := body tokens state
  let visit :=
    { enter := state.index, enterDepth := state.depth, leave := last.index,
      leaveDepth := last.depth, gave := result.isOk }
  (result, { last with visits := visit :: last.visits })

/-- Repeats a step, which says by `none` that it has nothing more to add, for at most the given
number of rounds. -/
def repeated (step : σ → Reader (Option σ)) : Nat → σ → Reader σ
  | 0, _ => throw .endless
  | rounds + 1, state => do
    match ← step state with
    | none => return state
    | some next => repeated step rounds next

/-! ### Expressions -/

section

variable (rounds : Nat)

/-- Reads an expression, provided that one can start here. -/
def startingIn (construct : Construct) (help : Option String) (body : Reader Expr) :
    Reader Expr := do
  if (← kind).startsExpression then body
  else refuse (.expectedExpression construct) help

/-- Reads an operand of the operator spelled `symbol`. -/
def operandOf (symbol : String) (operand : Reader Expr) : Reader Expr :=
  watched (startingIn .expression (some ("'" ++ symbol ++ "' needs an expression on both sides."))
    operand)

/-- The first operator of a level whose token is to come. -/
def operator? : Reading.Level → Reader (Option BinaryOperator)
  | [] => return none
  | (expected, operator) :: level => do
    if ← check expected then return some operator else operator? level

/-- Reads one more operator of a level and its right operand, if such an operator comes. What was
read before is its left operand. -/
def joined? (level : Reading.Level) (operand : Reader Expr) (left : Expr) :
    Reader (Option Expr) := do
  match ← operator? level with
  | none => return none
  | some operator =>
    let _ ← advance
    let right ← operandOf operator.symbol operand
    return some (.binary operator left right (left.span.cover right.span))

/-- Reads operands joined by the operators of one level, which bind to the left. -/
def chain (level : Reading.Level) (operand : Reader Expr) : Reader Expr :=
  watched do
    let first ← operand
    repeated (joined? level operand) rounds first

/-- Reads the expression that a construct needs. -/
def expressionIn (construct : Construct) (unary : Reader Expr) : Reader Expr :=
  watched (startingIn construct none (Reading.levels.foldr (chain rounds) unary))

/-- Reads what may follow a name: an index in brackets, or a property after a point. There may be no
such thing, so a call of this is recorded as a part of the one that has read the name. -/
def nameTail (unary : Reader Expr) (name : String) (span : Span) : Reader Expr := do
  if ← skip .leftBracket then
    let position ← nested (expressionIn rounds .index unary)
    let close ← expect .rightBracket .index (some "Index a list with brackets: `mitro[0]`.")
    return .index name position (span.cover close.span)
  else if ← skip .dot then
    let property ← expect .identifier .property
    return .property name property.text (span.cover property.span)
  else
    return .identifier name span

/-- Reads what follows the parenthesis that opens a group. -/
def groupTail (unary : Reader Expr) : Reader Expr := do
  let inner ← nested (expressionIn rounds .grouping unary)
  let _ ← expect .rightParen .grouping
    (some "Every opening parenthesis '(' must have a matching closing parenthesis ')'.")
  return inner

/-- Reads a literal, a name with what follows it, or an expression in parentheses. -/
def primary (unary : Reader Expr) : Reader Expr :=
  watched do
    let head ← peek
    match head.payload with
    | .number value => let _ ← advance; return .number value head.span
    | .string value => let _ ← advance; return .string value head.span
    | .boolean value => let _ ← advance; return .boolean value head.span
    | .array items => let _ ← advance; return .array (items.map (·.toExpr head.span)) head.span
    | .text text =>
      match head.kind with
      | .identifier =>
        let _ ← advance
        nameTail rounds unary text head.span
      | .leftParen =>
        let _ ← advance
        groupTail rounds unary
      | _ => refuse (.expectedExpression .expression)

/-- Reads the operand of an operator that stands before it. -/
def negation (operator : UnaryOperator) (unary : Reader Expr) : Reader Expr := do
  let sign ← advance
  let operand ← nested (operandOf operator.symbol unary)
  return .unary operator operand (sign.span.cover operand.span)

/-- Reads an operand of the binary operators, given the reader of one that is nested in it. -/
def unaryOf (unary : Reader Expr) : Reader Expr :=
  watched do
    match ← kind with
    | .not => negation .not unary
    | .minus => negation .negate unary
    | _ => primary rounds unary

/-- Reads an operand of the binary operators, with at most the given number of calls of itself
inside one another. -/
def unary : Nat → Reader Expr
  | 0 => throw .endless
  | calls + 1 => unaryOf rounds (unary calls)

/-! ### Statements -/

/-- Reads a comma and one more item, unless a closing parenthesis comes. The last item comes first.
-/
def itemAfter? (construct : Construct) (item : Reader α) (items : List α) :
    Reader (Option (List α)) := do
  if ← check .rightParen then
    return none
  else
    let _ ← expect .comma construct
    return some ((← item) :: items)

/-- Reads items with commas between them, if there are any, up to the closing parenthesis. -/
def commaSeparated (construct : Construct) (item : Reader α) : Reader (List α) := do
  if ← check .rightParen then
    return []
  else
    let first ← item
    let reversed ← repeated (itemAfter? construct item) rounds [first]
    return reversed.reverse

/-- Whether a token of one of the given kinds is to come, or the end. -/
def reaches : List Token.Kind → Reader Bool
  | [] => atEnd
  | expected :: kinds => do
    if ← check expected then return true else reaches kinds

/-- Reads one more statement, unless a token of one of the given kinds or the end comes. The last
statement comes first. -/
def statementAfter? (stops : List Token.Kind) (statement : Reader Stmt) (statements : List Stmt) :
    Reader (Option (List Stmt)) := do
  if ← reaches stops then
    return none
  else
    return some ((← statement) :: statements)

/-- Reads statements up to a token of one of the given kinds or the end. -/
def statementsUntil (stops : List Token.Kind) (statement : Reader Stmt) :
    Reader (List Stmt) := do
  let reversed ← repeated (statementAfter? stops statement) rounds []
  return reversed.reverse

/-- Reads a block: statements in braces. Gives the statements and the span of the closing brace. -/
def block (construct : Construct) (statement : Reader Stmt) : Reader (List Stmt × Span) :=
  watched do
    let _ ← expect .leftBrace construct (some "Blocks are wrapped in braces: `\x7b ... \x7d`.")
    let statements ← nested (statementsUntil rounds [.rightBrace, .finish] statement)
    let close ← expect .rightBrace .block (some "Every '\x7b' needs a matching '\x7d'.")
    return (statements, close.span)

/-- Reads a print statement. -/
def printStatement (unary : Reader Expr) : Reader Stmt :=
  watched do
    let keyword ← advance
    let _ ← skip .colon
    let value ← expressionIn rounds .print unary
    return .print value (keyword.span.cover value.span)

/-- Reads the name, the sign and the value of an assignment that starts with `start`. -/
def assignmentFrom (start : Span) (construct : Construct) (isList : Bool) (unary : Reader Expr) :
    Reader Stmt := do
  let name ← expect .identifier construct
    (some "Variable names start with a letter or '_': `umar = 25`.")
  let _ ← expect .assign .assignment
    (some "Give the variable a value with '=': `umar = 25`.")
  let value ← expressionIn rounds .assignment unary
  return .assign name.text value isList (start.cover value.span)

/-- Reads an assignment, with or without a keyword that declares it. -/
def variableStatement (unary : Reader Expr) : Reader Stmt :=
  watched do
    let head ← peek
    match head.kind with
    | .declareList =>
      let _ ← advance
      assignmentFrom rounds head.span .declaration true unary
    | .declare =>
      let _ ← advance
      assignmentFrom rounds head.span .declaration false unary
    | _ => assignmentFrom rounds head.span .assignment false unary

/-- Reads the definition of a function. -/
def functionStatement (statement : Reader Stmt) : Reader Stmt :=
  watched do
    let keyword ← advance
    let name ← expect .identifier .function
    let _ ← expect .leftParen .function
      (some "Parameters go in parentheses after the name: `function bolavo(naam) \x7b ... \x7d`.")
    let params ← commaSeparated rounds .parameters (expect .identifier .parameters)
    let _ ← expect .rightParen .parameters
    let (body, close) ← block rounds .function statement
    return .function name.text (params.map Token.text) body (keyword.span.cover close)

/-- Reads a condition with its block and, if there is one, the block of its alternative. -/
def branchStatement (unary : Reader Expr) (statement : Reader Stmt) : Reader Stmt :=
  watched do
    let keyword ← advance
    let _ ← expect .leftParen .condition
      (some "Conditions are written in parentheses: `jo (umar > 18) to \x7b ... \x7d`.")
    let condition ← expressionIn rounds .condition unary
    let _ ← expect .rightParen .condition (some "Close the condition with ')' before 'to'.")
    let _ ← expect .consequence .condition
      (some "The condition is followed by 'to' and a block: `jo (x) to \x7b ... \x7d`.")
    let (consequence, close) ← block rounds .condition statement
    if ← skip .alternative then
      let (alternative, lastClose) ← block rounds .condition statement
      return .branch condition consequence (some alternative) (keyword.span.cover lastClose)
    else
      return .branch condition consequence none (keyword.span.cover close)

/-- Reads a loop. -/
def loopStatement (unary : Reader Expr) (statement : Reader Stmt) : Reader Stmt :=
  watched do
    let keyword ← advance
    let count ← expressionIn rounds .loop unary
    let _ ← expect .times .loop (some "Loops read `repeat 5 vaar \x7b ... \x7d`.")
    let (body, close) ← block rounds .loop statement
    return .loop count body (keyword.span.cover close)

/-- Reads a call. -/
def callStatement (unary : Reader Expr) : Reader Stmt :=
  watched do
    let name ← advance
    let _ ← expect .leftParen .call
    let args ← commaSeparated rounds .call (expressionIn rounds .call unary)
    let close ← expect .rightParen .call
    return .call name.text args (name.span.cover close.span)

/-- Refuses a token that no statement starts with. -/
def refuseStatement : Reader Stmt :=
  refuse .unexpectedToken
    (some "A statement starts with print, a declaration, function, jo, repeat, or a name.")

/-- Reads a statement, given the readers of its operands and of the statements of its blocks. -/
def statementOf (unary : Reader Expr) (statement : Reader Stmt) : Reader Stmt :=
  watched do
    match ← kind with
    | .print => printStatement rounds unary
    | .declare | .declareList => variableStatement rounds unary
    | .function => functionStatement rounds statement
    | .condition => branchStatement rounds unary statement
    | .loop => loopStatement rounds unary statement
    | .identifier =>
      if (← peekNext).kind = .leftParen then callStatement rounds unary
      else variableStatement rounds unary
    | _ => refuseStatement

/-- Reads a statement, with at most the given number of calls of itself inside one another. -/
def statement (unary : Reader Expr) : Nat → Reader Stmt
  | 0 => throw .endless
  | calls + 1 => statementOf rounds unary (statement unary calls)

/-- Reads a program with its two keywords, each of which a colon may follow. -/
def program (statement : Reader Stmt) : Reader Program := do
  if ← skip .start then
    let _ ← skip .colon
    let statements ← statementsUntil rounds [.finish] statement
    if ← skip .finish then
      let _ ← skip .colon
      return ⟨statements⟩
    else
      refuse .missingFinish
        (some "Programs end with `end:` in plain mode or `samaapt:` in colorful mode.")
  else
    refuse .missingStart
      (some "Programs begin with `start:` in plain mode or `sharu:` in colorful mode.")

end

/-- How many tokens follow the one to come, which must be there. -/
def following : Reader Nat := do
  let length := (← read).length
  let index := (← get).index
  if index < length then return length - index - 1 else throw (.outside index)

/-- How many tokens are ignored, which are none if the end is to come. -/
def ignored : Reader Nat := do
  if ← atEnd then return 0 else following

/-- Reads a program and counts the tokens that are ignored after it. -/
def parsed (rounds : Nat) (statement : Reader Stmt) : Reader Parsed := do
  let program ← program rounds statement
  return { program, ignored := ← ignored }

/-- Reads the program that a list of tokens begins with, with at most the given number of calls
inside one another and of rounds in one repetition. -/
def parse (calls rounds : Nat) (tokens : List Token) : Except Stop Parsed × State :=
  parsed rounds (statement rounds (unary rounds calls) calls) (TokenList.closed tokens) .initial

end LineScript.Indexed
