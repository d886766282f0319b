import LineScript.Proofs.Grammar.Exact
import LineScript.Proofs.Rendering

/-!
# Lexemes derive their program

Tokens that the lexemes of a program are read as derive this program, up to spans: the parentheses
that are left out are not needed. The number of levels that the derivation opens is the depth of the
lexemes.
-/

namespace LineScript

open Grammar

/-- The lexeme is read as the token. -/
def Lexeme.ReadAs (token : Token) : Lexeme → Prop
  | keyword kind | sign kind => token.kind = kind ∧ token.Agrees
  | name text => token.kind = .identifier ∧ token.payload = .text text
  | number _ value => token.kind = .number ∧ token.payload = .number value
  | boolean value => token.kind = .boolean ∧ token.payload = .boolean value
  | string _ value => token.kind = .string ∧ token.payload = .string value
  | array items => token.kind = .array ∧ token.payload = .array (items.map Prod.snd)

/-- The lexemes are read as the tokens, one by one. -/
abbrev Lexeme.ReadAll (lexemes : List Lexeme) (tokens : List Token) : Prop :=
  List.Forall₂ (fun lexeme token => lexeme.ReadAs token) lexemes tokens

namespace Lexeme

theorem ReadAll.exists_cons {lexeme : Lexeme} {lexemes : List Lexeme} {tokens : List Token}
    (h : ReadAll (lexeme :: lexemes) tokens) :
    ∃ token rest, tokens = token :: rest ∧ lexeme.ReadAs token ∧ ReadAll lexemes rest := by
  cases h with
  | cons htoken hrest => exact ⟨_, _, rfl, htoken, hrest⟩

theorem ReadAll.exists_singleton {lexeme : Lexeme} {tokens : List Token}
    (h : ReadAll [lexeme] tokens) : ∃ token, tokens = [token] ∧ lexeme.ReadAs token := by
  obtain ⟨token, rest, rfl, htoken, hrest⟩ := h.exists_cons
  cases hrest
  exact ⟨token, rfl, htoken⟩

theorem ReadAll.exists_append {first second : List Lexeme} {tokens : List Token}
    (h : ReadAll (first ++ second) tokens) :
    ∃ left right, tokens = left ++ right ∧ ReadAll first left ∧ ReadAll second right := by
  induction first generalizing tokens with
  | nil => exact ⟨[], tokens, rfl, .nil, h⟩
  | cons lexeme first ih =>
    obtain ⟨token, rest, rfl, htoken, hrest⟩ := h.exists_cons
    obtain ⟨left, right, rfl, hleft, hright⟩ := ih hrest
    exact ⟨token :: left, right, rfl, .cons htoken hleft, hright⟩

/-- What ends in one lexeme is read as what ends in one token. -/
theorem ReadAll.exists_concat {first : List Lexeme} {last : Lexeme} {tokens : List Token}
    (h : ReadAll (first ++ [last]) tokens) :
    ∃ left token, tokens = left ++ [token] ∧ ReadAll first left ∧ last.ReadAs token := by
  obtain ⟨left, right, rfl, hleft, hright⟩ := h.exists_append
  obtain ⟨token, rfl, htoken⟩ := hright.exists_singleton
  exact ⟨left, token, rfl, hleft, htoken⟩

end Lexeme

theorem Token.text_of_readAs {token : Token} {text : String}
    (h : (Lexeme.name text).ReadAs token) : token.text = text := by
  rw [Token.text, h.2]

/-! ### Expressions -/

/-- Where looser operators may stand, tighter ones may as well. -/
theorem Grammar.Joined.of_drop {least level : Nat} (hle : least ≤ level) {room : ℕ∞}
    {tokens : List Token} {expr : Expr} (h : Joined (precedence.drop level) room tokens expr) :
    Joined (precedence.drop least) room tokens expr := by
  induction level with
  | zero => rwa [Nat.le_zero.mp hle]
  | succ level ih =>
    rcases Nat.eq_or_lt_of_le hle with rfl | hlt
    · exact h
    · refine ih (by omega) ?_
      rcases Nat.lt_or_ge level precedence.length with hlength | hlength
      · rw [List.drop_eq_getElem_cons hlength]
        exact h.tighter
      · rwa [List.drop_eq_nil_of_le hlength, ← List.drop_eq_nil_of_le (Nat.le_succ_of_le hlength)]

/-- Without operators outside parentheses an expression may stand anywhere. -/
theorem Grammar.Joined.of_operand {least : Nat} {room : ℕ∞} {tokens : List Token} {expr : Expr}
    (h : Joined [] room tokens expr) : Joined (precedence.drop least) room tokens expr := by
  rcases Nat.le_or_ge least precedence.length with hle | hge
  · exact Joined.of_drop hle (by rwa [List.drop_length])
  · rwa [List.drop_eq_nil_of_le hge]

/-- The classes from that of an operator on begin with its own. -/
theorem BinaryOperator.drop_level (operator : BinaryOperator) :
    ∃ operators, operator ∈ operators ∧
      precedence.drop operator.level = operators :: precedence.drop (operator.level + 1) := by
  cases operator <;> exact ⟨_, by decide, rfl⟩

/-- Parentheses open a level, and nothing else is known of what they hold. -/
theorem joined_of_grouped (level : Nat) {parentheses : Bool} {lexemes : List Lexeme}
    {tokens : List Token} {expr : Expr} {least depth room : Nat}
    (hlevel : parentheses = false → least ≤ level)
    (hroom : depth + (if parentheses then 1 else 0) ≤ room)
    (h : ∀ tokens (room : Nat), depth ≤ room → Lexeme.ReadAll lexemes tokens →
      ∃ other, Joined (precedence.drop level) room tokens other ∧ other.erase = expr.erase)
    (htokens : Lexeme.ReadAll (Lexeme.grouped parentheses lexemes) tokens) :
    ∃ other, Joined (precedence.drop least) room tokens other ∧ other.erase = expr.erase := by
  cases parentheses with
  | false =>
    obtain ⟨other, hother, herase⟩ := h tokens room hroom htokens
    exact ⟨other, hother.of_drop (hlevel rfl), herase⟩
  | true =>
    -- Inside parentheses every operator may stand, so the level of what they hold is forgotten.
    obtain ⟨left, rest, rfl, hleft, hrest⟩ := Lexeme.ReadAll.exists_cons htokens
    obtain ⟨inner, right, rfl, hinner, hright⟩ := hrest.exists_concat
    obtain ⟨room, rfl⟩ : ∃ inside, room = inside + 1 := ⟨room - 1, by simp at hroom; omega⟩
    obtain ⟨other, hother, herase⟩ := h inner room (by simpa using hroom) hinner
    have hwhole : Expression room inner other := Joined.of_drop (Nat.zero_le level) hother
    refine ⟨other, Joined.of_operand ?_, herase⟩
    push_cast
    exact .group hleft.1 hwhole hright.1

namespace Expr

variable {style : Style}

/-- Items of a list literal stand for the expressions they are items of. -/
theorem erase_toExpr_item {expr : Expr} (h : expr.isLeaf = true) (span : Span) :
    ((expr.item style).2.toExpr span).erase = expr.erase := by
  cases expr <;> first | rfl | simp [isLeaf] at h

/-- Tokens that the lexemes of an expression are read as derive it. -/
theorem joined_of_readAll (expr : Expr) (least : Nat) {tokens : List Token} {room : Nat}
    (hprintable : expr.Printable style) (hroom : expr.depth least ≤ room)
    (h : Lexeme.ReadAll (expr.lexemes style least) tokens) :
    ∃ other, Joined (precedence.drop least) room tokens other ∧ other.erase = expr.erase := by
  match expr with
  | number value span =>
    obtain ⟨token, rfl, hkind, hpayload⟩ := Lexeme.ReadAll.exists_singleton h
    exact ⟨_, .of_operand (.number hkind hpayload), rfl⟩
  | string value span =>
    obtain ⟨token, rfl, hkind, hpayload⟩ := Lexeme.ReadAll.exists_singleton h
    exact ⟨_, .of_operand (.string hkind hpayload), rfl⟩
  | boolean value span =>
    obtain ⟨token, rfl, hkind, hpayload⟩ := Lexeme.ReadAll.exists_singleton h
    exact ⟨_, .of_operand (.boolean hkind hpayload), rfl⟩
  | array items span =>
    obtain ⟨token, rfl, hkind, hpayload⟩ := Lexeme.ReadAll.exists_singleton h
    refine ⟨_, .of_operand (.array hkind hpayload), ?_⟩
    simp only [erase, eraseAll_eq_map, List.map_map]
    congr 1
    exact List.map_congr_left fun expr hmem => erase_toExpr_item (hprintable expr hmem).1 _
  | identifier name span =>
    obtain ⟨token, rfl, hname⟩ := Lexeme.ReadAll.exists_singleton h
    refine ⟨_, .of_operand (.identifier hname.1), ?_⟩
    rw [erase, Token.text_of_readAs hname, erase]
  | index name position span =>
    obtain ⟨token, _, rfl, hname, h⟩ := Lexeme.ReadAll.exists_cons h
    obtain ⟨left, _, rfl, hleft, h⟩ := h.exists_cons
    obtain ⟨inner, right, rfl, hinner, hright⟩ := h.exists_concat
    obtain ⟨room, rfl⟩ : ∃ inside, room = inside + 1 := ⟨room - 1, by rw [depth] at hroom; omega⟩
    obtain ⟨other, hother, herase⟩ := joined_of_readAll position 0 hprintable.2
      (Nat.le_of_succ_le_succ hroom) hinner
    refine ⟨.index token.text other (token.span.cover right.span), .of_operand ?_, ?_⟩
    · push_cast
      exact .index hname.1 hleft.1 hother hright.1
    · rw [erase, erase, Token.text_of_readAs hname, herase]
  | property name key span =>
    obtain ⟨token, _, rfl, hname, h⟩ := Lexeme.ReadAll.exists_cons h
    obtain ⟨dot, _, rfl, hdot, h⟩ := h.exists_cons
    obtain ⟨last, rfl, hkey⟩ := h.exists_singleton
    refine ⟨_, .of_operand (.property hname.1 hdot.1 hkey.1), ?_⟩
    rw [erase, erase, Token.text_of_readAs hname, Token.text_of_readAs hkey]
  | unary operator operand span =>
    obtain ⟨sign, rest, rfl, hsign, h⟩ := Lexeme.ReadAll.exists_cons h
    obtain ⟨room, rfl⟩ : ∃ inside, room = inside + 1 := ⟨room - 1, by rw [depth] at hroom; omega⟩
    obtain ⟨other, hother, herase⟩ := joined_of_readAll operand tightest hprintable
      (Nat.le_of_succ_le_succ hroom) h
    refine ⟨.unary operator other (sign.span.cover other.span), .of_operand ?_, ?_⟩
    · push_cast
      exact .unary hsign.1 hother
    · rw [erase, erase, herase]
  | binary operator left right span =>
    -- Without parentheses the operator is loose enough for its place, whatever its operands are.
    obtain ⟨operators, hmem, hclasses⟩ := operator.drop_level
    rw [depth] at hroom
    rw [lexemes] at h
    refine joined_of_grouped operator.level (by simp) (by simpa using hroom) ?_ h
    intro tokens room hroom h
    obtain ⟨before, _, rfl, hbefore, h⟩ := h.exists_append
    obtain ⟨sign, after, rfl, hsign, hafter⟩ := h.exists_cons
    have hroomLeft : left.depth operator.level ≤ room := le_trans (le_max_left _ _) hroom
    have hroomRight : right.depth (operator.level + 1) ≤ room := le_trans (le_max_right _ _) hroom
    obtain ⟨first, hfirst, hleft⟩ :=
      joined_of_readAll left operator.level hprintable.1 hroomLeft hbefore
    obtain ⟨second, hsecond, hright⟩ :=
      joined_of_readAll right (operator.level + 1) hprintable.2 hroomRight hafter
    refine ⟨.binary operator first second (first.span.cover second.span), ?_, ?_⟩
    · rw [hclasses] at hfirst ⊢
      exact .binary hfirst hmem hsign.1 hsecond
    · rw [erase, erase, hleft, hright]

end Expr

/-! ### Statements -/

/-- An item may also be put before others. -/
theorem Grammar.Separated.cons {α : Type} {Item : List Token → α → Prop} {tokens rest : List Token}
    {item : α} {items : List α} {comma : Token} (hitem : Item tokens item)
    (hcomma : comma.kind = .comma) (h : Separated Item rest items) :
    Separated Item (tokens ++ comma :: rest) (item :: items) := by
  induction h with
  | one hlast => exact .more (.one hitem) hcomma hlast
  | more _ hnext hlast ih =>
    rw [← List.cons_append, ← List.append_assoc, ← List.cons_append]
    exact .more ih hnext hlast

theorem Lexeme.separated_cons_cons (first second : List Lexeme) (rest : List (List Lexeme)) :
    separated (first :: second :: rest) = first ++ sign .comma :: separated (second :: rest) := by
  simp [separated, List.intercalate]

section

variable {ι α γ : Type} {Item : List Token → α → Prop} (lex : ι → List Lexeme) (view : α → γ)
  (goal : ι → γ)

theorem separated_of_readAll (item : ι) (items : List ι) {tokens : List Token}
    (hitem : ∀ item' ∈ item :: items, ∀ tokens, Lexeme.ReadAll (lex item') tokens →
      ∃ other, Item tokens other ∧ view other = goal item')
    (h : Lexeme.ReadAll (Lexeme.separated ((item :: items).map lex)) tokens) :
    ∃ others, Separated Item tokens others ∧ others.map view = (item :: items).map goal := by
  induction items generalizing item tokens with
  | nil =>
    have hone : Lexeme.ReadAll (lex item) tokens := by
      simpa [Lexeme.separated, List.intercalate] using h
    obtain ⟨other, hother, hview⟩ := hitem item (by simp) tokens hone
    exact ⟨[other], .one hother, by simp [hview]⟩
  | cons next items ih =>
    rw [List.map_cons, List.map_cons, Lexeme.separated_cons_cons] at h
    obtain ⟨first, _, rfl, hfirst, h⟩ := h.exists_append
    obtain ⟨comma, rest, rfl, hcomma, h⟩ := h.exists_cons
    obtain ⟨other, hother, hview⟩ := hitem item (by simp) first hfirst
    obtain ⟨others, hothers, hviews⟩ :=
      ih next (fun item' hmem => hitem item' (List.mem_cons_of_mem _ hmem)) h
    refine ⟨other :: others, .cons hother hcomma.1 hothers, ?_⟩
    rw [List.map_cons, hview, hviews]
    rfl

/-- Items that are read one by one are read as items with commas between them. -/
theorem listed_of_readAll (items : List ι) {tokens : List Token}
    (hitem : ∀ item ∈ items, ∀ tokens, Lexeme.ReadAll (lex item) tokens →
      ∃ other, Item tokens other ∧ view other = goal item)
    (h : Lexeme.ReadAll (Lexeme.separated (items.map lex)) tokens) :
    ∃ others, Listed Item tokens others ∧ others.map view = items.map goal := by
  cases items with
  | nil =>
    cases h
    exact ⟨[], .none, rfl⟩
  | cons item items =>
    obtain ⟨others, hothers, hviews⟩ := separated_of_readAll lex view goal item items hitem h
    exact ⟨others, .some hothers, hviews⟩

end

/-- Statements may also be put before others. -/
theorem Grammar.Statements.cons {room : ℕ∞} {tokens rest : List Token} {stmt : Stmt}
    {stmts : List Stmt} (hstmt : Statement room tokens stmt) (h : Statements room rest stmts) :
    Statements room (tokens ++ rest) (stmt :: stmts) := by
  induction h using Statements.induction with
  | none => simpa using Statements.more .none hstmt
  | more _ hlast ih =>
    rw [← List.append_assoc, ← List.cons_append]
    exact .more ih hlast

theorem optional_of_readAll {present : Bool} {tokens : List Token}
    (h : Lexeme.ReadAll (Lexeme.colon present) tokens) : Optional .colon tokens := by
  cases present with
  | false =>
    cases h
    exact .absent
  | true =>
    obtain ⟨token, rfl, htoken⟩ := Lexeme.ReadAll.exists_singleton h
    exact .present htoken.1

namespace Stmt

variable {vocabulary : Vocabulary} {style : Style}

theorem depth_le_of_mem {arg : Expr} {args : List Expr} (h : arg ∈ args) :
    arg.depth 0 ≤ (args.map fun arg => arg.depth 0).foldr max 0 := by
  induction args with
  | nil => cases h
  | cons first args ih =>
    rw [List.map_cons, List.foldr_cons]
    rcases List.mem_cons.mp h with rfl | hmem
    · exact le_max_left _ _
    · exact le_trans (ih hmem) (le_max_right _ _)

/-- Statements in braces are read as a block, which opens a level. -/
theorem block_of_readAll {body : List Stmt} {room : Nat} (hroom : depthAll body + 1 ≤ room)
    (hbody : ∀ tokens (room : Nat), depthAll body ≤ room →
      Lexeme.ReadAll (lexemesAll vocabulary style body) tokens →
        ∃ others, Statements room tokens others ∧ eraseAll others = eraseAll body)
    {tokens : List Token}
    (h : Lexeme.ReadAll (.sign .leftBrace :: (lexemesAll vocabulary style body ++
      [.sign .rightBrace])) tokens) :
    ∃ others close, Block room tokens others close ∧ eraseAll others = eraseAll body := by
  obtain ⟨left, _, rfl, hleft, h⟩ := h.exists_cons
  obtain ⟨inner, right, rfl, hinner, hright⟩ := h.exists_concat
  obtain ⟨room, rfl⟩ : ∃ inside, room = inside + 1 := ⟨room - 1, by omega⟩
  obtain ⟨others, hothers, herase⟩ := hbody inner room (by omega) hinner
  refine ⟨others, right.span, ?_, herase⟩
  push_cast
  exact .braces hleft.1 hothers hright.1

/-- The tokens of an assignment derive it, whatever it starts with. -/
theorem statement_of_assignment {name : String} {value : Expr} {isList : Bool} {span : Span}
    {room : Nat} (hvalue : value.Printable style) (hroom : value.depth 0 ≤ room)
    {tokens : List Token}
    (h : Lexeme.ReadAll ((assign name value isList span).lexemes vocabulary style) tokens) :
    ∃ other, Statement room tokens other ∧ other.erase = (assign name value isList span).erase := by
  obtain ⟨start, _, rfl, hstart, h⟩ := Lexeme.ReadAll.exists_append h
  obtain ⟨token, _, rfl, hname, h⟩ := h.exists_cons
  obtain ⟨sign, rest, rfl, hsign, h⟩ := h.exists_cons
  obtain ⟨other, hother, herase⟩ := value.joined_of_readAll 0 hvalue hroom h
  -- A keyword that declares makes no difference to the tree.
  have hkeyword {keyword : Token}
      (hkind : keyword.kind = if isList then .declareList else .declare) :
      ∃ stmt, Statement room ([keyword] ++ token :: sign :: rest) stmt ∧
        stmt.erase = (assign name value isList span).erase := by
    refine ⟨_, .declare hkind hname.1 hsign.1 hother, ?_⟩
    rw [erase, erase, Token.text_of_readAs hname, herase]
  unfold declarationLexemes at hstart
  cases isList with
  | true =>
    obtain ⟨keyword, rfl, hkind⟩ := Lexeme.ReadAll.exists_singleton hstart
    exact hkeyword hkind.1
  | false =>
    rw [if_neg (by simp)] at hstart
    split at hstart
    · obtain ⟨keyword, rfl, hkind⟩ := hstart.exists_singleton
      exact hkeyword hkind.1
    · cases hstart
      refine ⟨_, .assign hname.1 hsign.1 hother, ?_⟩
      rw [erase, erase, Token.text_of_readAs hname, herase]

mutual

/-- Tokens that the lexemes of a statement are read as derive it. -/
theorem statement_of_readAll (stmt : Stmt) {tokens : List Token} {room : Nat}
    (hprintable : stmt.Printable style) (hroom : stmt.depth ≤ room)
    (h : Lexeme.ReadAll (stmt.lexemes vocabulary style) tokens) :
    ∃ other, Statement room tokens other ∧ other.erase = stmt.erase := by
  match stmt with
  | print value span =>
    obtain ⟨keyword, _, rfl, hkeyword, h⟩ := Lexeme.ReadAll.exists_cons h
    obtain ⟨colon, rest, rfl, hcolon, h⟩ := h.exists_append
    obtain ⟨other, hother, herase⟩ := value.joined_of_readAll 0 hprintable hroom h
    refine ⟨_, .print hkeyword.1 (optional_of_readAll hcolon) hother, ?_⟩
    rw [erase, erase, herase]
  | assign name value isList span => exact statement_of_assignment hprintable.2 hroom h
  | function name params body span =>
    obtain ⟨keyword, _, rfl, hkeyword, h⟩ := Lexeme.ReadAll.exists_cons h
    obtain ⟨token, _, rfl, hname, h⟩ := h.exists_cons
    obtain ⟨left, _, rfl, hleft, h⟩ := h.exists_cons
    obtain ⟨inner, _, rfl, hinner, h⟩ := h.exists_append
    obtain ⟨right, block, rfl, hright, hblock⟩ := h.exists_cons
    have hparam : ∀ param ∈ params, ∀ tokens, Lexeme.ReadAll [.name param] tokens →
        ∃ other, Parameter tokens other ∧ other.text = param := by
      intro param _ tokens htokens
      obtain ⟨token, rfl, htoken⟩ := htokens.exists_singleton
      exact ⟨token, .name htoken.1, Token.text_of_readAs htoken⟩
    obtain ⟨names, hnames, htexts⟩ :=
      listed_of_readAll (fun param => [.name param]) Token.text id params hparam hinner
    obtain ⟨others, close, hothers, herase⟩ := block_of_readAll hroom
      (fun _ _ hroom => statements_of_readAll body hprintable.2.2 hroom) hblock
    refine ⟨_, .function hkeyword.1 hname.1 hleft.1 hnames hright.1 hothers, ?_⟩
    rw [erase, erase, Token.text_of_readAs hname, htexts, herase, List.map_id]
  | branch condition consequence alternative span =>
    obtain ⟨keyword, _, rfl, hkeyword, h⟩ := Lexeme.ReadAll.exists_cons h
    obtain ⟨left, _, rfl, hleft, h⟩ := h.exists_cons
    obtain ⟨inner, _, rfl, hinner, h⟩ := h.exists_append
    obtain ⟨right, _, rfl, hright, h⟩ := h.exists_cons
    obtain ⟨follows, _, rfl, hthen, h⟩ := h.exists_cons
    rw [List.append_cons, ← List.cons_append] at h
    obtain ⟨block, rest, rfl, hblock, hrest⟩ := h.exists_append
    have hroomBoth : max (depthAll consequence + 1) (depthAlternative alternative) ≤ room :=
      le_trans (le_max_right _ _) hroom
    obtain ⟨other, hother, hcondition⟩ := condition.joined_of_readAll 0 hprintable.1
      (le_trans (le_max_left _ _) hroom) hinner
    obtain ⟨others, close, hothers, hbody⟩ :=
      block_of_readAll (le_trans (le_max_left _ _) hroomBoth)
        (fun _ _ hroom => statements_of_readAll consequence hprintable.2.1 hroom) hblock
    match alternative with
    | none =>
      cases hrest
      refine ⟨.branch other others none (keyword.span.cover close), ?_, ?_⟩
      · rw [List.append_nil]
        exact .branch hkeyword.1 hleft.1 hother hright.1 hthen.1 hothers
      · rw [erase, erase, hcondition, hbody]
    | some stmts =>
      obtain ⟨otherwise, last, rfl, hotherwise, hlast⟩ := Lexeme.ReadAll.exists_cons hrest
      obtain ⟨lasts, lastClose, hlasts, halternative⟩ :=
        block_of_readAll (le_trans (le_max_right _ _) hroomBoth)
          (fun _ _ hroom => statements_of_readAll stmts hprintable.2.2 hroom) hlast
      refine ⟨_, .branchElse hkeyword.1 hleft.1 hother hright.1 hthen.1 hothers hotherwise.1 hlasts,
        ?_⟩
      rw [erase, erase, hcondition, hbody, eraseAlternative, eraseAlternative, halternative]
  | loop count body span =>
    obtain ⟨keyword, _, rfl, hkeyword, h⟩ := Lexeme.ReadAll.exists_cons h
    obtain ⟨inner, _, rfl, hinner, h⟩ := h.exists_append
    obtain ⟨times, block, rfl, htimes, hblock⟩ := h.exists_cons
    obtain ⟨other, hother, hcount⟩ := count.joined_of_readAll 0 hprintable.1
      (le_trans (le_max_left _ _) hroom) hinner
    obtain ⟨others, close, hothers, hbody⟩ := block_of_readAll (le_trans (le_max_right _ _) hroom)
      (fun _ _ hroom => statements_of_readAll body hprintable.2 hroom) hblock
    refine ⟨_, .loop hkeyword.1 hother htimes.1 hothers, ?_⟩
    rw [erase, erase, hcount, hbody]
  | call name args span =>
    obtain ⟨token, _, rfl, hname, h⟩ := Lexeme.ReadAll.exists_cons h
    obtain ⟨left, _, rfl, hleft, h⟩ := h.exists_cons
    obtain ⟨inner, right, rfl, hinner, hright⟩ := h.exists_concat
    have harg : ∀ arg ∈ args, ∀ tokens, Lexeme.ReadAll (arg.lexemes style 0) tokens →
        ∃ other, Expression room tokens other ∧ other.erase = arg.erase := by
      intro arg hmem tokens htokens
      exact arg.joined_of_readAll 0 (hprintable.2 arg hmem)
        (le_trans (depth_le_of_mem hmem) hroom) htokens
    obtain ⟨others, hothers, herase⟩ :=
      listed_of_readAll (fun arg => arg.lexemes style 0) Expr.erase Expr.erase args harg hinner
    refine ⟨_, .call hname.1 hleft.1 hothers hright.1, ?_⟩
    rw [erase, erase, Token.text_of_readAs hname, Expr.eraseAll_eq_map, herase,
      Expr.eraseAll_eq_map]

/-- Tokens that the lexemes of statements are read as derive them. -/
theorem statements_of_readAll (stmts : List Stmt) {tokens : List Token} {room : Nat}
    (hprintable : PrintableAll style stmts) (hroom : depthAll stmts ≤ room)
    (h : Lexeme.ReadAll (lexemesAll vocabulary style stmts) tokens) :
    ∃ others, Statements room tokens others ∧ eraseAll others = eraseAll stmts := by
  match stmts with
  | [] =>
    cases h
    exact ⟨[], .none, rfl⟩
  | stmt :: stmts =>
    obtain ⟨first, rest, rfl, hfirst, hrest⟩ := Lexeme.ReadAll.exists_append h
    obtain ⟨other, hother, hstmt⟩ := statement_of_readAll stmt hprintable.1
      (le_trans (le_max_left _ _) hroom) hfirst
    obtain ⟨others, hothers, hstmts⟩ := statements_of_readAll stmts hprintable.2
      (le_trans (le_max_right _ _) hroom) hrest
    refine ⟨other :: others, .cons hother hothers, ?_⟩
    rw [eraseAll, eraseAll, hstmt, hstmts]

end

end Stmt

/-! ### Programs -/

/-- A lexeme is read as a token whose kind and payload agree. -/
theorem Lexeme.ReadAs.agrees {lexeme : Lexeme} {token : Token} (h : lexeme.ReadAs token) :
    token.Agrees := by
  cases lexeme with
  | keyword | sign => exact h.2
  | _ =>
    rw [Token.Agrees, h.1, h.2]
    rfl

theorem Lexeme.ReadAll.agrees {lexemes : List Lexeme} {tokens : List Token}
    (h : ReadAll lexemes tokens) : ∀ token ∈ tokens, token.Agrees := by
  induction h with
  | nil => simp
  | cons hhead _ ih => simpa using ⟨hhead.agrees, ih⟩

/-- Tokens that the lexemes of a program are read as derive it within the limit. -/
theorem Program.derives_of_readAll {vocabulary : Vocabulary} {style : Style} {program : Program}
    (hprintable : program.Printable style) {tokens : List Token}
    (h : Lexeme.ReadAll (program.lexemes vocabulary style) tokens) :
    ∃ other, Derives 256 tokens other ∧ other.erase = program.erase := by
  obtain ⟨start, _, rfl, hstart, h⟩ := Lexeme.ReadAll.exists_cons h
  obtain ⟨colon, _, rfl, hcolon, h⟩ := h.exists_append
  obtain ⟨body, _, rfl, hbody, h⟩ := h.exists_append
  obtain ⟨finish, lastColon, rfl, hfinish, hlast⟩ := h.exists_cons
  obtain ⟨others, hothers, herase⟩ :=
    Stmt.statements_of_readAll program.body hprintable.body hprintable.depth hbody
  refine ⟨⟨others⟩, ?_, congrArg Program.mk herase⟩
  exact .program hstart.1 (optional_of_readAll hcolon) hothers hfinish.1 (optional_of_readAll hlast)

/-- Tokens that the lexemes of a program are read as are parsed as the program, up to spans. -/
theorem Program.parse_of_readAll {vocabulary : Vocabulary} {style : Style} {program : Program}
    (hprintable : program.Printable style) {tokens : List Token} {stop : Token}
    (hstop : stop.kind = .eof) (h : Lexeme.ReadAll (program.lexemes vocabulary style) tokens) :
    ∃ parsed, parse (tokens ++ [stop]) = .ok parsed ∧ parsed.program.erase = program.erase := by
  obtain ⟨other, hderives, herase⟩ := program.derives_of_readAll hprintable h
  obtain ⟨after, hresult⟩ :=
    (program_ok_iff h.agrees).mpr ⟨tokens, List.prefix_refl tokens, hderives⟩
  exact ⟨_, parse_of_ok hstop hderives.kind_ne_eof hresult, herase⟩

end LineScript
