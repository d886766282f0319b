import LineScript.Reading.Parse

/-!
# How readings are composed

Every reading of the grammar is put together from a few basic ones in a few ways. What holds of any
reading that is put together like this needs one induction only, over `Reading.Composed`.
-/

namespace LineScript.Reading

variable {α β σ : Type} {least : Nat}

/-- A reading is composed of basic ones, in such a way that it consumes at least `least` tokens when
it goes through. -/
inductive Composed : {α : Type} → Nat → Reading α → Prop
  | pure {α : Type} (a : α) : Composed 0 (Pure.pure a : Reading α)
  | refuse {α : Type} {least : Nat} (cause : Token.Kind → Cause) (help : Option String) :
      Composed least (Reading.refuse cause help : Reading α)
  | token : Composed 1 Reading.token
  | expect (kind : Token.Kind) (construct : Construct) (help : Option String) :
      Composed 1 (Reading.expect kind construct help)
  | skip (kind : Token.Kind) : Composed 0 (Reading.skip kind)
  | weaken {α : Type} {least : Nat} {reading : Reading α} : Composed least reading →
      Composed 0 reading
  /-- In a sequence it is enough that the first reading consumes tokens. -/
  | bind {α β : Type} {least : Nat} {reading : Reading α} {next : α → Reading β} :
      Composed least reading → (∀ a, Composed 0 (next a)) → Composed least (reading >>= next)
  | kind {α : Type} {least : Nat} {next : Token.Kind → Reading α} :
      (∀ kind, Composed least (next kind)) → Composed least (Reading.kind >>= next)
  | peek {α : Type} {least : Nat} {next : Option Token → Reading α} :
      (∀ head?, Composed least (next head?)) → Composed least (Reading.peek? >>= next)
  /-- A look at the token after the next one comes before the next one is consumed. -/
  | atCall {α : Type} {next : Bool → Reading α} : (∀ call, Composed 1 (next call)) →
      Composed 1 (Reading.atCall >>= next)
  | iterate {σ : Type} {step : σ → Reading (Option σ)} : (∀ state, Composed 0 (step state)) →
      ∀ state, Composed 0 (Reading.iterate step state)

/-- What is read one level further in is composed, if it is allowed there at all. -/
theorem composed_nested {deeper : Option (Reading α)} {body : Reading α → Reading β}
    (h : ∀ inner, deeper = some inner → Composed least (body inner)) :
    Composed least (nested deeper body) := by
  cases deeper with
  | none =>
    rw [nested]
    exact .refuse _ _
  | some inner => exact h inner rfl

/-! ### Expressions -/

theorem composed_startingIn (construct : Construct) (help : Option String) {body : Reading Expr}
    (h : Composed least body) : Composed least (startingIn construct help body) := by
  refine .kind fun kind => ?_
  split
  · exact h
  · exact .refuse _ _

theorem composed_joined? (level : Level) {operand : Reading Expr} (h : Composed 1 operand)
    (left : Expr) : Composed 0 (joined? level operand left) := by
  refine .kind fun kind => ?_
  split
  · exact .pure _
  · refine Composed.token.weaken.bind fun _ => ?_
    exact (composed_startingIn _ _ h).weaken.bind fun _ => .pure _

theorem composed_chain (level : Level) {operand : Reading Expr} (h : Composed 1 operand) :
    Composed 1 (chain level operand) :=
  h.bind (Composed.iterate (composed_joined? level h))

theorem composed_expressionIn (construct : Construct) {unary : Reading Expr}
    (h : Composed 1 unary) : Composed 1 (expressionIn construct unary) := by
  refine composed_startingIn _ _ ?_
  rw [expressionOf]
  induction levels with
  | nil => exact h
  | cons level levels ih => exact composed_chain level ih

section

variable {deeper : Option (Reading Expr)}
  (hdeeper : ∀ inner, deeper = some inner → Composed 1 inner)

include hdeeper

theorem composed_nameTail (name : String) (span : Span) :
    Composed 0 (nameTail deeper name span) := by
  refine (Composed.skip _).bind fun bracket => ?_
  cases bracket with
  | true =>
    refine (composed_nested fun inner hinner =>
      (composed_expressionIn _ (hdeeper inner hinner)).weaken).bind fun _ => ?_
    exact (Composed.expect _ _ _).weaken.bind fun _ => .pure _
  | false =>
    refine (Composed.skip _).bind fun dot => ?_
    cases dot with
    | true => exact (Composed.expect _ _ _).weaken.bind fun _ => .pure _
    | false => exact .pure _

theorem composed_groupTail : Composed 0 (groupTail deeper) := by
  refine (composed_nested fun inner hinner =>
    (composed_expressionIn _ (hdeeper inner hinner)).weaken).bind fun _ => ?_
  exact (Composed.expect _ _ _).weaken.bind fun _ => .pure _

theorem composed_primary : Composed 1 (primary deeper) := by
  refine .peek fun head? => ?_
  cases head? with
  | none => exact .refuse _ _
  | some head =>
    dsimp only
    cases head.payload with
    | number value => exact Composed.token.bind fun _ => .pure _
    | string value => exact Composed.token.bind fun _ => .pure _
    | boolean value => exact Composed.token.bind fun _ => .pure _
    | array items => exact Composed.token.bind fun _ => .pure _
    | text text =>
      cases head.kind with
      | identifier => exact Composed.token.bind fun _ => composed_nameTail hdeeper _ _
      | leftParen => exact Composed.token.bind fun _ => composed_groupTail hdeeper
      | _ => exact .refuse _ _

theorem composed_negation (operator : UnaryOperator) : Composed 1 (negation operator deeper) := by
  refine Composed.token.bind fun _ => ?_
  refine (composed_nested fun inner hinner =>
    (composed_startingIn _ _ (hdeeper inner hinner)).weaken).bind fun _ => ?_
  exact .pure _

theorem composed_unaryOf : Composed 1 (unaryOf deeper) := by
  refine .kind fun kind => ?_
  cases kind with
  | not => exact composed_negation hdeeper _
  | minus => exact composed_negation hdeeper _
  | _ => exact composed_primary hdeeper

end

theorem composed_unary (room : Nat) : Composed 1 (unary room) := by
  induction room with
  -- No reading is deeper than the innermost level.
  | zero => exact composed_unaryOf nofun
  | succ room ih =>
    refine composed_unaryOf ?_
    rintro inner ⟨⟩
    exact ih

/-! ### Statements -/

theorem composed_commaSeparated (construct : Construct) {item : Reading α} (h : Composed 1 item) :
    Composed 0 (commaSeparated construct item) := by
  refine .kind fun kind => ?_
  split
  · -- There may be no item at all, so no token is certain to be consumed.
    exact .pure _
  · refine h.weaken.bind fun first => (Composed.iterate (fun items => ?_) _).bind fun _ => .pure _
    refine .kind fun kind => ?_
    split
    · exact .pure _
    · exact (Composed.expect _ _ _).weaken.bind fun _ => h.weaken.bind fun _ => .pure _

theorem composed_statementsUntil (stops : List Token.Kind) {statement : Reading Stmt}
    (h : Composed 1 statement) : Composed 0 (statementsUntil stops statement) := by
  refine (Composed.iterate (fun statements => ?_) _).bind fun _ => .pure _
  refine .kind fun kind => ?_
  split
  · exact .pure _
  · exact h.weaken.bind fun _ => .pure _

section

variable {unary : Reading Expr} {deeper : Option (Reading Stmt)} (hunary : Composed 1 unary)
  (hdeeper : ∀ inner, deeper = some inner → Composed 1 inner)

include hdeeper in
theorem composed_block (construct : Construct) : Composed 1 (block construct deeper) := by
  refine (Composed.expect _ _ _).bind fun _ => ?_
  refine (composed_nested fun inner hinner =>
    composed_statementsUntil _ (hdeeper inner hinner)).bind fun _ => ?_
  exact (Composed.expect _ _ _).weaken.bind fun _ => .pure _

include hunary in
theorem composed_printStatement : Composed 1 (printStatement unary) := by
  refine Composed.token.bind fun _ => (Composed.skip _).bind fun _ => ?_
  exact (composed_expressionIn _ hunary).weaken.bind fun _ => .pure _

include hunary in
theorem composed_assignmentFrom (start : Span) (construct : Construct) (isList : Bool) :
    Composed 1 (assignmentFrom start construct isList unary) := by
  refine (Composed.expect _ _ _).bind fun _ => (Composed.expect _ _ _).weaken.bind fun _ => ?_
  exact (composed_expressionIn _ hunary).weaken.bind fun _ => .pure _

include hunary in
theorem composed_declaration (isList : Bool) : Composed 1 (declaration isList unary) :=
  Composed.token.bind fun _ => (composed_assignmentFrom hunary _ _ _).weaken

include hdeeper in
theorem composed_functionStatement : Composed 1 (functionStatement deeper) := by
  refine Composed.token.bind fun _ => (Composed.expect _ _ _).weaken.bind fun _ => ?_
  refine (Composed.expect _ _ _).weaken.bind fun _ => ?_
  refine (composed_commaSeparated _ (Composed.expect _ _ _)).bind fun _ => ?_
  refine (Composed.expect _ _ _).weaken.bind fun _ => ?_
  exact (composed_block hdeeper _).weaken.bind fun _ => .pure _

include hunary hdeeper in
theorem composed_branchStatement : Composed 1 (branchStatement unary deeper) := by
  refine Composed.token.bind fun _ => (Composed.expect _ _ _).weaken.bind fun _ => ?_
  refine (composed_expressionIn _ hunary).weaken.bind fun _ => ?_
  refine (Composed.expect _ _ _).weaken.bind fun _ => ?_
  refine (Composed.expect _ _ _).weaken.bind fun _ => ?_
  refine (composed_block hdeeper _).weaken.bind fun _ => (Composed.skip _).bind fun there => ?_
  cases there with
  | true => exact (composed_block hdeeper _).weaken.bind fun _ => .pure _
  | false => exact .pure _

include hunary hdeeper in
theorem composed_loopStatement : Composed 1 (loopStatement unary deeper) := by
  refine Composed.token.bind fun _ => (composed_expressionIn _ hunary).weaken.bind fun _ => ?_
  refine (Composed.expect _ _ _).weaken.bind fun _ => ?_
  exact (composed_block hdeeper _).weaken.bind fun _ => .pure _

include hunary in
theorem composed_callStatement : Composed 1 (callStatement unary) := by
  refine Composed.token.bind fun _ => (Composed.expect _ _ _).weaken.bind fun _ => ?_
  refine (composed_commaSeparated _ (composed_expressionIn _ hunary)).bind fun _ => ?_
  exact (Composed.expect _ _ _).weaken.bind fun _ => .pure _

include hunary hdeeper in
theorem composed_statementOf : Composed 1 (statementOf unary deeper) := by
  refine .peek fun head? => ?_
  cases head? with
  | none => exact .refuse _ _
  | some head =>
    dsimp only
    cases head.kind with
    | print => exact composed_printStatement hunary
    | declare => exact composed_declaration hunary _
    | declareList => exact composed_declaration hunary _
    | function => exact composed_functionStatement hdeeper
    | condition => exact composed_branchStatement hunary hdeeper
    | loop => exact composed_loopStatement hunary hdeeper
    | identifier =>
      refine .atCall fun call => ?_
      split
      · exact composed_callStatement hunary
      · exact composed_assignmentFrom hunary _ _ _
    | _ => exact .refuse _ _

end

theorem composed_statement (room : Nat) : Composed 1 (statement room) := by
  induction room with
  | zero => exact composed_statementOf (composed_unary 0) nofun
  | succ room ih =>
    refine composed_statementOf (composed_unary _) ?_
    rintro inner ⟨⟩
    exact ih

/-! ### Programs -/

/-- Reads a program up to the keyword that closes it, and gives its statements. -/
def opening (room : Nat) : Reading (List Stmt) := do
  if ← skip .start then
    let _ ← skip .colon
    statementsUntil [.finish, .eof] (statement room)
  else
    refuse .missingStart
      (some "Programs begin with `start:` in plain mode or `sharu:` in colorful mode.")

/-- Reads the keyword that closes a program of the given statements. -/
def closing (statements : List Stmt) : Reading Program := do
  if ← skip .finish then
    let _ ← skip .colon
    return ⟨statements⟩
  else
    refuse .missingFinish
      (some "Programs end with `end:` in plain mode or `samaapt:` in colorful mode.")

/-- A program is read up to the keyword that closes it, then that keyword is read. -/
theorem programWithin_eq_bind (room : Nat) : programWithin room = opening room >>= closing := by
  rw [programWithin, opening, bind_assoc]
  refine bind_congr fun there => ?_
  cases there with
  | true => exact (bind_assoc _ _ _).symm
  | false => rfl

theorem composed_opening (room : Nat) : Composed 0 (opening room) := by
  refine (Composed.skip _).bind fun there => ?_
  cases there with
  | true =>
    exact (Composed.skip _).bind fun _ => composed_statementsUntil _ (composed_statement room)
  | false => exact .refuse _ _

theorem composed_closing (statements : List Stmt) : Composed 0 (closing statements) := by
  refine (Composed.skip _).bind fun there => ?_
  cases there with
  | true => exact (Composed.skip _).bind fun _ => .pure _
  | false => exact .refuse _ _

theorem composed_programWithin (room : Nat) : Composed 0 (programWithin room) := by
  rw [programWithin_eq_bind]
  exact (composed_opening room).bind composed_closing

end LineScript.Reading
