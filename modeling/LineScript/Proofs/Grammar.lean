import LineScript.Reading.Parse
import Mathlib

/-!
# The grammar of programs

The documented grammar, as relations between a list of tokens and the tree it derives. Every
relation also says how many more blocks, groupings, indexes and operators with one operand may be
open at once in the derivation: a number, or `⊤` for the grammar without a limit.

The grammar has no notion of how tokens are read: a derivation may use any split of the tokens, and
nothing says that the first fitting rule wins.
-/

namespace LineScript

/-- The kind of token that an operator with two operands is written as. -/
def BinaryOperator.kind : BinaryOperator → Token.Kind
  | add => .plus
  | subtract => .minus
  | multiply => .star
  | divide => .slash
  | equal => .equal
  | notEqual => .notEqual
  | less => .less
  | greater => .greater
  | and => .and
  | or => .or

theorem BinaryOperator.kind_ne_eof (operator : BinaryOperator) : operator.kind ≠ .eof := by
  cases operator <;> decide

/-- The kind of token that an operator with one operand is written as. -/
def UnaryOperator.kind : UnaryOperator → Token.Kind
  | negate => .minus
  | not => .not

theorem UnaryOperator.kind_ne_eof (operator : UnaryOperator) : operator.kind ≠ .eof := by
  cases operator <;> decide

namespace Token

/-- Whether tokens of a kind can stand for a payload: literals for a value of their own type, and
all other tokens for their text. -/
def Kind.fits : Kind → Payload → Bool
  | number, .number _ | string, .string _ | boolean, .boolean _ | array, .array _ => true
  | number, _ | string, _ | boolean, _ | array, _ => false
  | _, .text _ => true
  | _, _ => false

/-- The kind and the payload of a token agree. -/
def Agrees (token : Token) : Prop :=
  token.kind.fits token.payload = true

instance (token : Token) : Decidable token.Agrees :=
  inferInstanceAs (Decidable (_ = true))

end Token

namespace Grammar

/-- The classes of operators with two operands, the loosest first. -/
def precedence : List (List BinaryOperator) :=
  [[.or], [.and], [.equal, .notEqual], [.greater, .less], [.add, .subtract], [.multiply, .divide]]

/-- A token of the given kind, or nothing. -/
inductive Optional (kind : Token.Kind) : List Token → Prop
  | absent : Optional kind []
  | present {token : Token} : token.kind = kind → Optional kind [token]

/-- One or more items with commas between them. -/
inductive Separated {α : Type} (Item : List Token → α → Prop) : List Token → List α → Prop
  | one {tokens : List Token} {item : α} : Item tokens item → Separated Item tokens [item]
  | more {tokens rest : List Token} {items : List α} {comma : Token} {item : α} :
      Separated Item tokens items → comma.kind = .comma → Item rest item →
        Separated Item (tokens ++ comma :: rest) (items ++ [item])

/-- Items with commas between them, or nothing. -/
inductive Listed {α : Type} (Item : List Token → α → Prop) : List Token → List α → Prop
  | none : Listed Item [] []
  | some {tokens : List Token} {items : List α} : Separated Item tokens items →
      Listed Item tokens items

/-- Expressions in which the operators of `classes` may stand outside parentheses, the first class
binding loosest. All operators bind to the left, so the right operand is of the tighter classes.
Without any class this is an operand. -/
inductive Joined : List (List BinaryOperator) → ℕ∞ → List Token → Expr → Prop
  | number {room : ℕ∞} {token : Token} {value : Float} :
      token.kind = .number → token.payload = .number value →
        Joined [] room [token] (.number value token.span)
  | string {room : ℕ∞} {token : Token} {value : String} :
      token.kind = .string → token.payload = .string value →
        Joined [] room [token] (.string value token.span)
  | boolean {room : ℕ∞} {token : Token} {value : Bool} :
      token.kind = .boolean → token.payload = .boolean value →
        Joined [] room [token] (.boolean value token.span)
  | array {room : ℕ∞} {token : Token} {items : List Literal} :
      token.kind = .array → token.payload = .array items →
        Joined [] room [token] (.array (items.map (·.toExpr token.span)) token.span)
  | identifier {room : ℕ∞} {name : Token} :
      name.kind = .identifier → Joined [] room [name] (.identifier name.text name.span)
  | index {room : ℕ∞} {name left right : Token} {tokens : List Token} {position : Expr} :
      name.kind = .identifier → left.kind = .leftBracket →
        Joined precedence room tokens position → right.kind = .rightBracket →
          Joined [] (room + 1) (name :: left :: (tokens ++ [right]))
            (.index name.text position (name.span.cover right.span))
  | property {room : ℕ∞} {name dot property : Token} :
      name.kind = .identifier → dot.kind = .dot → property.kind = .identifier →
        Joined [] room [name, dot, property]
          (.property name.text property.text (name.span.cover property.span))
  | group {room : ℕ∞} {left right : Token} {tokens : List Token} {expr : Expr} :
      left.kind = .leftParen → Joined precedence room tokens expr → right.kind = .rightParen →
        Joined [] (room + 1) (left :: (tokens ++ [right])) expr
  | unary {room : ℕ∞} {sign : Token} {tokens : List Token} {operator : UnaryOperator}
      {operand : Expr} :
      sign.kind = operator.kind → Joined [] room tokens operand →
        Joined [] (room + 1) (sign :: tokens)
          (.unary operator operand (sign.span.cover operand.span))
  | tighter {classes : List (List BinaryOperator)} {operators : List BinaryOperator} {room : ℕ∞}
      {tokens : List Token} {expr : Expr} :
      Joined classes room tokens expr → Joined (operators :: classes) room tokens expr
  | binary {classes : List (List BinaryOperator)} {operators : List BinaryOperator} {room : ℕ∞}
      {tokens rest : List Token} {sign : Token} {operator : BinaryOperator} {left right : Expr} :
      Joined (operators :: classes) room tokens left → operator ∈ operators →
        sign.kind = operator.kind → Joined classes room rest right →
          Joined (operators :: classes) room (tokens ++ sign :: rest)
            (.binary operator left right (left.span.cover right.span))

/-- Expressions. -/
abbrev Expression : ℕ∞ → List Token → Expr → Prop :=
  Joined precedence

/-- Parameters, which are given by the tokens of their names. -/
inductive Parameter : List Token → Token → Prop
  | name {token : Token} : token.kind = .identifier → Parameter [token] token

mutual

/-- Statements. -/
inductive Statement : ℕ∞ → List Token → Stmt → Prop
  | print {room : ℕ∞} {keyword : Token} {colon tokens : List Token} {value : Expr} :
      keyword.kind = .print → Optional .colon colon → Expression room tokens value →
        Statement room (keyword :: (colon ++ tokens))
          (.print value (keyword.span.cover value.span))
  | declare {room : ℕ∞} {keyword name sign : Token} {tokens : List Token} {value : Expr}
      {isList : Bool} :
      keyword.kind = (if isList then .declareList else .declare) → name.kind = .identifier →
        sign.kind = .assign → Expression room tokens value →
          Statement room (keyword :: name :: sign :: tokens)
            (.assign name.text value isList (keyword.span.cover value.span))
  | assign {room : ℕ∞} {name sign : Token} {tokens : List Token} {value : Expr} :
      name.kind = .identifier → sign.kind = .assign → Expression room tokens value →
        Statement room (name :: sign :: tokens)
          (.assign name.text value false (name.span.cover value.span))
  | function {room : ℕ∞} {keyword name left right : Token} {tokens block : List Token}
      {params : List Token} {body : List Stmt} {close : Span} :
      keyword.kind = .function → name.kind = .identifier → left.kind = .leftParen →
        Listed Parameter tokens params → right.kind = .rightParen →
          Block room block body close →
            Statement room (keyword :: name :: left :: (tokens ++ right :: block))
              (.function name.text (params.map Token.text) body (keyword.span.cover close))
  | branch {room : ℕ∞} {keyword left right consequence : Token} {tokens block : List Token}
      {condition : Expr} {body : List Stmt} {close : Span} :
      keyword.kind = .condition → left.kind = .leftParen → Expression room tokens condition →
        right.kind = .rightParen → consequence.kind = .consequence →
          Block room block body close →
            Statement room (keyword :: left :: (tokens ++ right :: consequence :: block))
              (.branch condition body none (keyword.span.cover close))
  | branchElse {room : ℕ∞} {keyword left right consequence alternative : Token}
      {tokens block other : List Token} {condition : Expr} {body otherBody : List Stmt}
      {close otherClose : Span} :
      keyword.kind = .condition → left.kind = .leftParen → Expression room tokens condition →
        right.kind = .rightParen → consequence.kind = .consequence →
          Block room block body close → alternative.kind = .alternative →
            Block room other otherBody otherClose →
              Statement room
                (keyword :: left ::
                  (tokens ++ right :: consequence :: (block ++ alternative :: other)))
                (.branch condition body (some otherBody) (keyword.span.cover otherClose))
  | loop {room : ℕ∞} {keyword times : Token} {tokens block : List Token} {count : Expr}
      {body : List Stmt} {close : Span} :
      keyword.kind = .loop → Expression room tokens count → times.kind = .times →
        Block room block body close →
          Statement room (keyword :: (tokens ++ times :: block))
            (.loop count body (keyword.span.cover close))
  | call {room : ℕ∞} {name left right : Token} {tokens : List Token} {args : List Expr} :
      name.kind = .identifier → left.kind = .leftParen →
        Listed (Expression room) tokens args → right.kind = .rightParen →
          Statement room (name :: left :: (tokens ++ [right]))
            (.call name.text args (name.span.cover right.span))

/-- Statements one after the other. -/
inductive Statements : ℕ∞ → List Token → List Stmt → Prop
  | none {room : ℕ∞} : Statements room [] []
  | more {room : ℕ∞} {tokens rest : List Token} {statements : List Stmt} {statement : Stmt} :
      Statements room tokens statements → Statement room rest statement →
        Statements room (tokens ++ rest) (statements ++ [statement])

/-- Statements in braces, with the span of the closing one. -/
inductive Block : ℕ∞ → List Token → List Stmt → Span → Prop
  | braces {room : ℕ∞} {left right : Token} {tokens : List Token} {body : List Stmt} :
      left.kind = .leftBrace → Statements room tokens body → right.kind = .rightBrace →
        Block (room + 1) (left :: (tokens ++ [right])) body right.span

end

/-- Induction over statements one after the other, from the first to the last, that does not look
into the blocks they have. -/
theorem Statements.induction {room : ℕ∞}
    {motive : ∀ tokens statements, Statements room tokens statements → Prop}
    (none : motive [] [] .none)
    (more : ∀ {tokens rest statements statement} (hbefore : Statements room tokens statements)
      (hlast : Statement room rest statement), motive tokens statements hbefore →
        motive (tokens ++ rest) (statements ++ [statement]) (.more hbefore hlast))
    {tokens : List Token} {statements : List Stmt} (h : Statements room tokens statements) :
    motive tokens statements h := by
  induction hlength : statements.length generalizing tokens statements with
  | zero =>
    cases h with
    | none => exact none
    | more => simp at hlength
  | succ length ih =>
    cases h with
    | none => exact none
    | more hbefore hlast => exact more hbefore hlast (ih hbefore (by simpa using hlength))

/-- Programs. -/
inductive Derives (room : ℕ∞) : List Token → Program → Prop
  | program {start finish : Token} {colon tokens lastColon : List Token} {body : List Stmt} :
      start.kind = .start → Optional .colon colon → Statements room tokens body →
        finish.kind = .finish → Optional .colon lastColon →
          Derives room (start :: (colon ++ (tokens ++ finish :: lastColon))) ⟨body⟩

end Grammar

end LineScript
