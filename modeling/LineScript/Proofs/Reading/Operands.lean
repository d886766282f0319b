import LineScript.Proofs.Grammar.Exact

/-!
# Operands are only read where one starts

An operand is read where a token comes that an expression may start with, and then it is a sign, a
literal, a name or a group. So the last case of `Reading.primary`, which asks for an expression
without a word about what needs it, is never met when kinds and payloads agree: the refusal of a
program is never vague in this way (`specific_programWithin`). Which kind a token has and what it
stands for are asked for in turn, so tokens on which the two disagree could get there.
-/

namespace LineScript

/-- A refusal asks for an expression, and does not say for what. -/
def Refusal.Vague (refusal : Refusal) : Prop :=
  (∃ found, refusal.cause = .expectedExpression .expression found) ∧ refusal.help = none

namespace Reading

variable {α β σ : Type}

/-- An outcome leaves only tokens whose kinds and payloads agree, or is a refusal that is not
vague. -/
def Clear : Except Refusal (α × Cursor) → Prop
  | .ok (_, after) => ∀ token ∈ after.rest, token.Agrees
  | .error refusal => ¬ refusal.Vague

/-- A reading has no vague refusal at tokens whose kinds and payloads agree, if the first of them
has one of the given kinds. -/
def Specific (kinds : Token.Kind → Prop) (reading : Reading α) : Prop :=
  ∀ cursor : Cursor, (∀ token ∈ cursor.rest, token.Agrees) → kinds cursor.kind →
    Clear (reading cursor)

/-- All kinds. -/
def AnyKind : Token.Kind → Prop := fun _ => True

/-- The kinds of tokens that an expression may start with. -/
def Starts : Token.Kind → Prop := fun kind => kind.startsExpression = true

variable {kinds more : Token.Kind → Prop}

/-! ### Rules -/

theorem Specific.mono {reading : Reading α} (h : Specific more reading)
    (hkinds : ∀ kind, kinds kind → more kind) : Specific kinds reading :=
  fun cursor hagrees hkind => h cursor hagrees (hkinds _ hkind)

theorem Specific.weaken {reading : Reading α} (h : Specific AnyKind reading) :
    Specific kinds reading :=
  h.mono fun _ _ => trivial

theorem specific_pure (a : α) : Specific kinds (pure a : Reading α) :=
  fun _ hagrees _ => hagrees

/-- A refusal is not vague if it helps, or asks for something else. -/
theorem specific_refuse {cause : Token.Kind → Cause} {help : Option String}
    (h : help = none → ∀ kind found, cause kind ≠ .expectedExpression .expression found) :
    Specific kinds (refuse cause help : Reading α) := by
  rintro cursor - - ⟨⟨found, hcause⟩, hhelp⟩
  exact h hhelp _ found hcause

/-- In a sequence the first reading is the one that meets the token to come. -/
theorem Specific.bind {reading : Reading α} {next : α → Reading β} (h : Specific kinds reading)
    (hnext : ∀ a, Specific AnyKind (next a)) : Specific kinds (reading >>= next) := by
  intro cursor hagrees hkind
  have hclear := h cursor hagrees hkind
  cases hresult : reading cursor with
  | error refusal =>
    rw [hresult] at hclear
    rw [bind_of_error hresult]
    exact hclear
  | ok pair =>
    obtain ⟨a, after⟩ := pair
    rw [hresult] at hclear
    rw [bind_of_ok hresult]
    exact hnext a after hclear trivial

/-- What follows a look at the kind of the token to come meets that kind. -/
theorem specific_kind_bind {next : Token.Kind → Reading α}
    (h : ∀ kind, kinds kind → Specific (· = kind) (next kind)) :
    Specific kinds (kind >>= next) :=
  fun cursor hagrees hkind => h cursor.kind hkind cursor hagrees rfl

theorem specific_peek_bind {next : Option Token → Reading α}
    (h : ∀ head?, Specific AnyKind (next head?)) : Specific kinds (peek? >>= next) :=
  fun cursor hagrees _ => h cursor.rest.head? cursor hagrees trivial

theorem specific_atCall_bind {next : Bool → Reading α} (h : ∀ call, Specific AnyKind (next call)) :
    Specific kinds (atCall >>= next) :=
  fun cursor hagrees _ => h _ cursor hagrees trivial

theorem specific_token : Specific kinds token := by
  rintro ⟨last?, tokens⟩ hagrees -
  cases tokens with
  | nil =>
    rintro ⟨⟨found, hcause⟩, -⟩
    cases hcause
  | cons head rest => exact fun token hmem => hagrees token (List.mem_cons_of_mem _ hmem)

theorem specific_expect (kind : Token.Kind) (construct : Construct) (help : Option String) :
    Specific kinds (expect kind construct help) := by
  intro cursor hagrees hkind
  unfold expect
  split
  · exact specific_token cursor hagrees hkind
  · rintro ⟨⟨found, hcause⟩, -⟩
    cases hcause

theorem specific_skip (kind : Token.Kind) : Specific kinds (skip kind) := by
  rintro ⟨last?, tokens⟩ hagrees -
  cases tokens with
  | nil => exact hagrees
  | cons head rest =>
    rw [skip]
    dsimp only
    split
    · exact fun token hmem => hagrees token (List.mem_cons_of_mem _ hmem)
    · exact hagrees

/-- A repetition meets any tokens since its steps do. -/
theorem specific_iterate {step : σ → Reading (Option σ)}
    (hstep : ∀ state, Specific AnyKind (step state)) (state : σ) :
    Specific AnyKind (iterate step state) := by
  intro cursor hagrees hkind
  -- The tokens to come get fewer with every step that is repeated.
  induction hlength : cursor.rest.length using Nat.strong_induction_on
    generalizing cursor state with
  | _ length ih =>
    have hclear := hstep state cursor hagrees trivial
    rw [iterate]
    generalize step state cursor = result at hclear ⊢
    obtain refusal | ⟨_ | next, after⟩ := result
    · exact hclear
    · exact hclear
    · dsimp only
      split
      next hshorter => exact ih _ (by omega) next after hclear trivial rfl
      next => exact hclear

theorem specific_nested {deeper : Option (Reading α)} {body : Reading α → Reading β}
    (h : ∀ inner, deeper = some inner → Specific AnyKind (body inner)) :
    Specific AnyKind (nested deeper body) := by
  cases deeper with
  | none =>
    rw [nested]
    exact specific_refuse fun hhelp => by cases hhelp
  | some inner => exact h inner rfl

/-! ### Expressions -/

/-- An expression is only read where one starts, and its refusal says what needs it. -/
theorem specific_startingIn {construct : Construct} {help : Option String} {body : Reading Expr}
    (h : Specific Starts body) (hclear : help = none → construct ≠ .expression) :
    Specific AnyKind (startingIn construct help body) := by
  refine specific_kind_bind fun kind _ => ?_
  split
  next hkind => exact h.mono fun _ heq => heq ▸ hkind
  next =>
    refine specific_refuse fun hhelp kind found hcause => hclear hhelp ?_
    exact (Cause.expectedExpression.inj hcause).1

section

variable {operand : Reading Expr} (hoperand : Specific Starts operand)

include hoperand

theorem specific_operandOf (symbol : String) : Specific AnyKind (operandOf symbol operand) :=
  specific_startingIn hoperand nofun

theorem specific_chain (level : Level) : Specific Starts (chain level operand) := by
  refine hoperand.bind (specific_iterate fun left => specific_kind_bind fun kind _ => ?_)
  split
  · exact specific_pure _
  · refine specific_token.bind fun _ => ?_
    exact (specific_operandOf hoperand _).bind fun _ => specific_pure _

theorem specific_expressionIn {construct : Construct} (hconstruct : construct ≠ .expression) :
    Specific AnyKind (expressionIn construct operand) := by
  refine specific_startingIn ?_ fun _ => hconstruct
  rw [expressionOf]
  induction levels with
  | nil => exact hoperand
  | cons level levels ih => exact specific_chain ih level

end

section

variable {deeper : Option (Reading Expr)}
  (hdeeper : ∀ inner, deeper = some inner → Specific Starts inner)

include hdeeper

theorem specific_nameTail (name : String) (span : Span) :
    Specific AnyKind (nameTail deeper name span) := by
  refine (specific_skip _).bind fun bracket => ?_
  cases bracket with
  | true =>
    refine (specific_nested fun inner hinner =>
      specific_expressionIn (hdeeper inner hinner) (by decide)).bind fun _ => ?_
    exact (specific_expect _ _ _).bind fun _ => specific_pure _
  | false =>
    refine (specific_skip _).bind fun dot => ?_
    cases dot with
    | true => exact (specific_expect _ _ _).bind fun _ => specific_pure _
    | false => exact specific_pure _

theorem specific_groupTail : Specific AnyKind (groupTail deeper) := by
  refine (specific_nested fun inner hinner =>
    specific_expressionIn (hdeeper inner hinner) (by decide)).bind fun _ => ?_
  exact (specific_expect _ _ _).bind fun _ => specific_pure _

theorem specific_negation (operator : UnaryOperator) :
    Specific kinds (negation operator deeper) := by
  refine specific_token.bind fun _ => ?_
  refine (specific_nested fun inner hinner =>
    specific_operandOf (hdeeper inner hinner) _).bind fun _ => ?_
  exact specific_pure _

/-- Where an expression starts with no sign, a literal, a name or a group does. -/
theorem specific_primary : Specific
    (fun kind => Starts kind ∧ kind ≠ .not ∧ kind ≠ .minus) (primary deeper) := by
  rintro ⟨last?, tokens⟩ hagrees ⟨hstarts, hnot, hminus⟩
  cases tokens with
  | nil => cases hstarts
  | cons head rest =>
    have hhead : head.Agrees := hagrees head List.mem_cons_self
    have hrest : ∀ token ∈ rest, token.Agrees := fun token hmem =>
      hagrees token (List.mem_cons_of_mem _ hmem)
    rw [primary, peek_bind]
    dsimp only [List.head?_cons]
    cases hpayload : head.payload with
    | number value => exact hrest
    | string value => exact hrest
    | boolean value => exact hrest
    | array items => exact hrest
    | text text =>
      rw [Token.Agrees, hpayload] at hhead
      change Starts head.kind at hstarts
      change head.kind ≠ .not at hnot
      change head.kind ≠ .minus at hminus
      cases hkind : head.kind with
      | identifier => exact specific_nameTail hdeeper _ _ ⟨some head, rest⟩ hrest trivial
      | leftParen => exact specific_groupTail hdeeper ⟨some head, rest⟩ hrest trivial
      | _ => simp_all [Starts, Token.Kind.startsExpression, Token.Kind.fits]

theorem specific_unaryOf : Specific Starts (unaryOf deeper) := by
  refine specific_kind_bind fun kind hkind => ?_
  split
  · exact specific_negation hdeeper _
  · exact specific_negation hdeeper _
  next hnot hminus =>
    refine (specific_primary hdeeper).mono ?_
    rintro _ rfl
    exact ⟨hkind, hnot, hminus⟩

end

theorem specific_unary (room : Nat) : Specific Starts (unary room) := by
  induction room with
  -- No reading is deeper than the innermost level.
  | zero => exact specific_unaryOf nofun
  | succ room ih =>
    refine specific_unaryOf ?_
    rintro inner ⟨⟩
    exact ih

/-! ### Statements -/

theorem specific_commaSeparated (construct : Construct) {item : Reading α}
    (h : Specific AnyKind item) : Specific AnyKind (commaSeparated construct item) := by
  refine specific_kind_bind fun kind _ => Specific.weaken ?_
  split
  · exact specific_pure _
  · refine h.bind fun first => (specific_iterate (fun items => ?_) _).bind fun _ => specific_pure _
    refine specific_kind_bind fun kind _ => Specific.weaken ?_
    split
    · exact specific_pure _
    · exact (specific_expect _ _ _).bind fun _ => h.bind fun _ => specific_pure _

theorem specific_statementsUntil (stops : List Token.Kind) {statement : Reading Stmt}
    (h : Specific AnyKind statement) : Specific AnyKind (statementsUntil stops statement) := by
  refine (specific_iterate (fun statements => ?_) _).bind fun _ => specific_pure _
  refine specific_kind_bind fun kind _ => Specific.weaken ?_
  split
  · exact specific_pure _
  · exact h.bind fun _ => specific_pure _

section

variable {unary : Reading Expr} {deeper : Option (Reading Stmt)} (hunary : Specific Starts unary)
  (hdeeper : ∀ inner, deeper = some inner → Specific AnyKind inner)

include hdeeper in
theorem specific_block (construct : Construct) : Specific AnyKind (block construct deeper) := by
  refine (specific_expect _ _ _).bind fun _ => ?_
  refine (specific_nested fun inner hinner =>
    specific_statementsUntil _ (hdeeper inner hinner)).bind fun _ => ?_
  exact (specific_expect _ _ _).bind fun _ => specific_pure _

include hunary in
theorem specific_printStatement : Specific AnyKind (printStatement unary) := by
  refine specific_token.bind fun _ => (specific_skip _).bind fun _ => ?_
  exact (specific_expressionIn hunary (by decide)).bind fun _ => specific_pure _

include hunary in
theorem specific_assignmentFrom (start : Span) (construct : Construct) (isList : Bool) :
    Specific AnyKind (assignmentFrom start construct isList unary) := by
  refine (specific_expect _ _ _).bind fun _ => (specific_expect _ _ _).bind fun _ => ?_
  exact (specific_expressionIn hunary (by decide)).bind fun _ => specific_pure _

include hunary in
theorem specific_declaration (isList : Bool) : Specific AnyKind (declaration isList unary) :=
  specific_token.bind fun _ => specific_assignmentFrom hunary _ _ _

include hdeeper in
theorem specific_functionStatement : Specific AnyKind (functionStatement deeper) := by
  refine specific_token.bind fun _ => (specific_expect _ _ _).bind fun _ => ?_
  refine (specific_expect _ _ _).bind fun _ => ?_
  refine (specific_commaSeparated _ (specific_expect _ _ _)).bind fun _ => ?_
  refine (specific_expect _ _ _).bind fun _ => ?_
  exact (specific_block hdeeper _).bind fun _ => specific_pure _

include hunary hdeeper in
theorem specific_branchStatement : Specific AnyKind (branchStatement unary deeper) := by
  refine specific_token.bind fun _ => (specific_expect _ _ _).bind fun _ => ?_
  refine (specific_expressionIn hunary (by decide)).bind fun _ => ?_
  refine (specific_expect _ _ _).bind fun _ => (specific_expect _ _ _).bind fun _ => ?_
  refine (specific_block hdeeper _).bind fun _ => (specific_skip _).bind fun there => ?_
  cases there with
  | true => exact (specific_block hdeeper _).bind fun _ => specific_pure _
  | false => exact specific_pure _

include hunary hdeeper in
theorem specific_loopStatement : Specific AnyKind (loopStatement unary deeper) := by
  refine specific_token.bind fun _ => (specific_expressionIn hunary (by decide)).bind fun _ => ?_
  refine (specific_expect _ _ _).bind fun _ => ?_
  exact (specific_block hdeeper _).bind fun _ => specific_pure _

include hunary in
theorem specific_callStatement : Specific AnyKind (callStatement unary) := by
  refine specific_token.bind fun _ => (specific_expect _ _ _).bind fun _ => ?_
  refine (specific_commaSeparated _ (specific_expressionIn hunary (by decide))).bind fun _ => ?_
  exact (specific_expect _ _ _).bind fun _ => specific_pure _

include hunary hdeeper in
theorem specific_statementOf : Specific AnyKind (statementOf unary deeper) := by
  have hrefuse : Specific AnyKind refuseStatement := specific_refuse fun hhelp => by cases hhelp
  refine specific_peek_bind fun head? => ?_
  cases head? with
  | none => exact hrefuse
  | some head =>
    dsimp only
    cases head.kind with
    | print => exact specific_printStatement hunary
    | declare => exact specific_declaration hunary _
    | declareList => exact specific_declaration hunary _
    | function => exact specific_functionStatement hdeeper
    | condition => exact specific_branchStatement hunary hdeeper
    | loop => exact specific_loopStatement hunary hdeeper
    | identifier =>
      refine specific_atCall_bind fun call => ?_
      split
      · exact specific_callStatement hunary
      · exact specific_assignmentFrom hunary _ _ _
    | _ => exact hrefuse

end

theorem specific_statement (room : Nat) : Specific AnyKind (statement room) := by
  induction room with
  | zero => exact specific_statementOf (specific_unary 0) nofun
  | succ room ih =>
    refine specific_statementOf (specific_unary _) ?_
    rintro inner ⟨⟩
    exact ih

theorem specific_programWithin (room : Nat) : Specific AnyKind (programWithin room) := by
  refine (specific_skip _).bind fun opened => ?_
  cases opened with
  | true =>
    refine (specific_skip _).bind fun _ => ?_
    refine (specific_statementsUntil _ (specific_statement room)).bind fun _ => ?_
    refine (specific_skip _).bind fun closed => ?_
    cases closed with
    | true => exact (specific_skip _).bind fun _ => specific_pure _
    | false => exact specific_refuse fun hhelp => by cases hhelp
  | false => exact specific_refuse fun hhelp => by cases hhelp

end Reading

/-- The fault of tokens whose kinds and payloads agree is never that an expression is wanted without
a word about what needs it. -/
theorem help_ne_none_of_parse {tokens : List Token} (h : TokenList.Proper tokens) {fault : Fault}
    (hfault : parse tokens = .error fault) {found : Token.Kind}
    (hcause : fault.cause = .expectedExpression .expression found) : fault.help ≠ none := by
  obtain ⟨hagrees, body, stop, rfl, hstop, hbody⟩ := h
  have hclear := Reading.specific_programWithin Reading.nestingLimit ⟨none, body⟩
    (fun token hmem => hagrees token (List.mem_append_left _ hmem)) trivial
  rw [← Reading.program] at hclear
  cases hresult : Reading.program ⟨none, body⟩ with
  | ok pair =>
    rw [parse_of_ok hstop hbody hresult] at hfault
    cases hfault
  | error refusal =>
    rw [parse_of_error hstop hbody hresult] at hfault
    cases hfault
    rw [hresult] at hclear
    exact fun hhelp => hclear ⟨⟨found, hcause⟩, hhelp⟩

end LineScript
