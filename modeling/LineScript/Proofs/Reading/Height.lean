import LineScript.Proofs.Grammar.Exact
import LineScript.Proofs.Program.Height

/-!
# Heights of programs that are read

Every level of binding adds at most one to the height of what is read, as long as steps to left
operands have no weight, and every level of nesting adds those of an expression and one more. So the
limit on nesting bounds the height of a program (`parse_height_le`). It does not bound how far an
expression leans to the left: operators that follow one another open no level
(`parse_height_unbounded`).
-/

namespace LineScript

namespace Reading

variable {α β σ : Type} {P : α → Prop} {Q : β → Prop}

/-- Whatever a reading gives has a property. -/
def Gives (P : α → Prop) (reading : Reading α) : Prop :=
  ∀ cursor a after, reading cursor = .ok (a, after) → P a

/-! ### Rules -/

theorem gives_true (reading : Reading α) : Gives (fun _ => True) reading :=
  fun _ _ _ _ => trivial

theorem gives_pure {a : α} (h : P a) : Gives P (pure a : Reading α) := by
  rintro cursor _ _ ⟨⟩
  exact h

theorem gives_refuse (cause : Token.Kind → Cause) (help : Option String) :
    Gives P (refuse cause help) := by
  rintro cursor a after hresult
  cases hresult

theorem Gives.bind {reading : Reading α} {next : α → Reading β} (h : Gives P reading)
    (hnext : ∀ a, P a → Gives Q (next a)) : Gives Q (reading >>= next) := by
  intro cursor b last hresult
  cases hfirst : reading cursor with
  | error refusal =>
    rw [bind_of_error hfirst] at hresult
    cases hresult
  | ok pair =>
    obtain ⟨a, after⟩ := pair
    rw [bind_of_ok hfirst] at hresult
    exact hnext a (h cursor a after hfirst) after b last hresult

/-- A reading of which nothing is asked may come first. -/
theorem gives_bind (reading : Reading α) {next : α → Reading β} (h : ∀ a, Gives Q (next a)) :
    Gives Q (reading >>= next) :=
  (gives_true reading).bind fun a _ => h a

/-- What every step keeps is kept by the repetition. -/
theorem gives_iterate {P : σ → Prop} {step : σ → Reading (Option σ)}
    (hstep : ∀ state, P state → Gives (fun next? => ∀ next ∈ next?, P next) (step state))
    {state : σ} (h : P state) : Gives P (iterate step state) := by
  intro cursor last after hresult
  -- The tokens to come get fewer with every step that is repeated.
  induction hlength : cursor.rest.length using Nat.strong_induction_on
    generalizing cursor state with
  | _ length ih =>
    rw [iterate] at hresult
    split at hresult
    next => cases hresult
    next =>
      cases hresult
      exact h
    next next after hnext =>
      have hkept := hstep state h cursor _ after hnext next rfl
      split at hresult
      next hshorter => exact ih _ (by omega) hkept after hresult rfl
      next =>
        cases hresult
        exact hkept

theorem gives_nested {deeper : Option (Reading α)} {body : Reading α → Reading β}
    (h : ∀ inner, deeper = some inner → Gives Q (body inner)) : Gives Q (nested deeper body) := by
  cases deeper with
  | none =>
    rw [nested]
    exact gives_refuse _ _
  | some inner => exact h inner rfl

/-! ### Expressions -/

/-- A reading gives expressions that are no higher than a bound, apart from steps to left
operands. -/
abbrev GivesExpr (bound : Nat) : Reading Expr → Prop :=
  Gives fun expr => expr.height 0 ≤ bound

variable {bound : Nat}

theorem gives_startingIn (construct : Construct) (help : Option String) {body : Reading Expr}
    (h : GivesExpr bound body) : GivesExpr bound (startingIn construct help body) := by
  refine gives_bind kind fun head => ?_
  split
  · exact h
  · exact gives_refuse _ _

/-- A level of binding adds at most one: the right operand of an operation is one step down, and the
left operand is not counted. -/
theorem gives_chain (level : Level) {operand : Reading Expr} (h : GivesExpr bound operand) :
    GivesExpr (bound + 1) (chain level operand) := by
  refine h.bind fun first hfirst => gives_iterate (fun left hleft => ?_) (Nat.le_succ_of_le hfirst)
  refine gives_bind kind fun head => ?_
  split
  · exact gives_pure nofun
  · refine gives_bind token fun _ => (gives_startingIn _ _ h).bind fun right hright => ?_
    refine gives_pure ?_
    rintro _ ⟨⟩
    exact Nat.max_le.mpr ⟨hleft, Nat.succ_le_succ hright⟩

theorem gives_expressionIn (construct : Construct) {unary : Reading Expr}
    (h : GivesExpr bound unary) : GivesExpr (bound + 6) (expressionIn construct unary) := by
  have hlevels : ∀ levels : List Level,
      GivesExpr (bound + levels.length) (levels.foldr chain unary) := by
    intro levels
    induction levels with
    | nil => exact h
    | cons level levels ih => exact gives_chain level ih
  exact gives_startingIn _ _ (hlevels levels)

/-- A list literal holds literals and names, so it is at most two high. -/
theorem height_array_literal_le (left : Nat) (items : List Literal) (span : Span) :
    (Expr.array (items.map (·.toExpr span)) span).height left ≤ 2 := by
  refine Nat.succ_le_succ (Expr.heightAll_le_iff.mpr (List.forall_mem_map.mpr ?_))
  rintro (value | value | value | name) - <;> exact Nat.le_refl 1

section

variable {deeper : Option (Reading Expr)}
  (hdeeper : ∀ inner, deeper = some inner → GivesExpr bound inner)

include hdeeper

theorem gives_nested_expressionIn (construct : Construct) :
    GivesExpr (bound + 6) (nested deeper (expressionIn construct)) :=
  gives_nested fun inner hinner => gives_expressionIn construct (hdeeper inner hinner)

theorem gives_nameTail (name : String) (span : Span) :
    GivesExpr (bound + 7) (nameTail deeper name span) := by
  refine gives_bind _ fun bracket => ?_
  cases bracket with
  | true =>
    refine (gives_nested_expressionIn hdeeper _).bind fun position hposition => ?_
    exact gives_bind _ fun _ => gives_pure (Nat.succ_le_succ hposition)
  | false =>
    refine gives_bind _ fun dot => ?_
    cases dot with
    | true => exact gives_bind _ fun _ => gives_pure (Nat.le_add_left 1 _)
    | false => exact gives_pure (Nat.le_add_left 1 _)

theorem gives_groupTail : GivesExpr (bound + 7) (groupTail deeper) := by
  refine (gives_nested_expressionIn hdeeper _).bind fun inner hinner => ?_
  exact gives_bind _ fun _ => gives_pure (Nat.le_succ_of_le hinner)

theorem gives_primary : GivesExpr (bound + 7) (primary deeper) := by
  refine gives_bind _ fun head? => ?_
  cases head? with
  | none => exact gives_refuse _ _
  | some head =>
    dsimp only
    cases head.payload with
    | number value => exact gives_bind _ fun _ => gives_pure (Nat.le_add_left 1 _)
    | string value => exact gives_bind _ fun _ => gives_pure (Nat.le_add_left 1 _)
    | boolean value => exact gives_bind _ fun _ => gives_pure (Nat.le_add_left 1 _)
    | array items =>
      -- The items of a list literal are no expressions of their own.
      refine gives_bind _ fun _ => gives_pure ?_
      exact Nat.le_trans (height_array_literal_le 0 items head.span) (Nat.le_add_left 2 _)
    | text text =>
      cases head.kind with
      | identifier => exact gives_bind _ fun _ => gives_nameTail hdeeper _ _
      | leftParen => exact gives_bind _ fun _ => gives_groupTail hdeeper
      | _ => exact gives_refuse _ _

theorem gives_negation (operator : UnaryOperator) :
    GivesExpr (bound + 7) (negation operator deeper) := by
  refine gives_bind _ fun sign => ?_
  refine (gives_nested fun inner hinner =>
    gives_startingIn _ _ (hdeeper inner hinner)).bind fun operand hoperand => gives_pure ?_
  rw [Expr.height]
  omega

theorem gives_unaryOf : GivesExpr (bound + 7) (unaryOf deeper) := by
  refine gives_bind kind fun head => ?_
  cases head with
  | not => exact gives_negation hdeeper _
  | minus => exact gives_negation hdeeper _
  | _ => exact gives_primary hdeeper

end

/-- Seven steps lead down one level of nesting: those of the six levels of binding, and the one that
opens it. -/
theorem gives_unary (room : Nat) : GivesExpr (7 * (room + 1)) (unary room) := by
  induction room with
  -- No reading is deeper than the innermost level.
  | zero =>
    have hnone : ∀ inner, none = some inner → GivesExpr 0 inner := nofun
    exact gives_unaryOf hnone
  | succ room ih =>
    refine gives_unaryOf ?_
    rintro inner ⟨⟩
    exact ih

/-! ### Statements -/

/-- A reading gives statements that are no higher than a bound, apart from steps to left operands.
-/
abbrev GivesStmt (bound : Nat) : Reading Stmt → Prop :=
  Gives fun stmt => stmt.height 0 ≤ bound

theorem gives_commaSeparated (construct : Construct) {item : Reading α} (h : Gives P item) :
    Gives (fun items => ∀ item ∈ items, P item) (commaSeparated construct item) := by
  refine gives_bind kind fun head => ?_
  split
  · exact gives_pure nofun
  · refine h.bind fun first hfirst => ?_
    refine (gives_iterate (P := fun items => ∀ item ∈ items, P item) (fun items hitems => ?_)
      (List.forall_mem_singleton.mpr hfirst)).bind fun items hitems =>
        gives_pure fun item hmem => hitems item (List.mem_reverse.mp hmem)
    refine gives_bind kind fun head => ?_
    split
    · exact gives_pure nofun
    · refine gives_bind _ fun _ => h.bind fun next hnext => gives_pure ?_
      rintro _ ⟨⟩
      exact List.forall_mem_cons.mpr ⟨hnext, hitems⟩

theorem gives_statementsUntil (stops : List Token.Kind) {statement : Reading Stmt}
    (h : GivesStmt bound statement) :
    Gives (fun statements => Stmt.heightAll 0 statements ≤ bound)
      (statementsUntil stops statement) := by
  refine (gives_iterate (P := fun statements => ∀ stmt ∈ statements, stmt.height 0 ≤ bound)
    (fun statements hstatements => ?_) nofun).bind fun statements hstatements => gives_pure ?_
  · refine gives_bind kind fun head => ?_
    split
    · exact gives_pure nofun
    · refine h.bind fun next hnext => gives_pure ?_
      rintro _ ⟨⟩
      exact List.forall_mem_cons.mpr ⟨hnext, hstatements⟩
  · exact Stmt.heightAll_le_iff.mpr fun stmt hmem => hstatements stmt (List.mem_reverse.mp hmem)

section

variable {unary : Reading Expr} {deeper : Option (Reading Stmt)} (hunary : GivesExpr bound unary)
  (hdeeper : ∀ inner, deeper = some inner → GivesStmt bound inner)

include hdeeper in
theorem gives_block (construct : Construct) :
    Gives (fun block => Stmt.heightAll 0 block.1 ≤ bound) (block construct deeper) := by
  refine gives_bind _ fun _ => ?_
  refine (gives_nested fun inner hinner =>
    gives_statementsUntil _ (hdeeper inner hinner)).bind fun statements hstatements => ?_
  exact gives_bind _ fun _ => gives_pure hstatements

include hunary in
theorem gives_printStatement : GivesStmt (bound + 7) (printStatement unary) := by
  refine gives_bind _ fun _ => gives_bind _ fun _ => ?_
  exact (gives_expressionIn _ hunary).bind fun value hvalue =>
    gives_pure (Nat.succ_le_succ hvalue)

include hunary in
theorem gives_assignmentFrom (start : Span) (construct : Construct) (isList : Bool) :
    GivesStmt (bound + 7) (assignmentFrom start construct isList unary) := by
  refine gives_bind _ fun _ => gives_bind _ fun _ => ?_
  exact (gives_expressionIn _ hunary).bind fun value hvalue =>
    gives_pure (Nat.succ_le_succ hvalue)

include hunary in
theorem gives_declaration (isList : Bool) : GivesStmt (bound + 7) (declaration isList unary) :=
  gives_bind _ fun _ => gives_assignmentFrom hunary _ _ _

include hdeeper in
theorem gives_functionStatement : GivesStmt (bound + 7) (functionStatement deeper) := by
  refine gives_bind _ fun _ => gives_bind _ fun _ => gives_bind _ fun _ => gives_bind _ fun _ => ?_
  refine gives_bind _ fun _ => (gives_block hdeeper _).bind fun body hbody => gives_pure ?_
  rw [Stmt.height]
  omega

include hunary hdeeper in
theorem gives_branchStatement : GivesStmt (bound + 7) (branchStatement unary deeper) := by
  refine gives_bind _ fun _ => gives_bind _ fun _ => ?_
  refine (gives_expressionIn _ hunary).bind fun condition hcondition => ?_
  refine gives_bind _ fun _ => gives_bind _ fun _ => ?_
  refine (gives_block hdeeper _).bind fun consequence hconsequence => ?_
  refine gives_bind _ fun there => ?_
  cases there with
  | true =>
    refine (gives_block hdeeper _).bind fun alternative halternative => gives_pure ?_
    rw [Stmt.height, Stmt.heightAlternative]
    omega
  | false =>
    refine gives_pure ?_
    rw [Stmt.height, Stmt.heightAlternative]
    omega

include hunary hdeeper in
theorem gives_loopStatement : GivesStmt (bound + 7) (loopStatement unary deeper) := by
  refine gives_bind _ fun _ => (gives_expressionIn _ hunary).bind fun count hcount => ?_
  refine gives_bind _ fun _ => (gives_block hdeeper _).bind fun body hbody => gives_pure ?_
  rw [Stmt.height]
  omega

include hunary in
theorem gives_callStatement : GivesStmt (bound + 7) (callStatement unary) := by
  refine gives_bind _ fun _ => gives_bind _ fun _ => ?_
  refine (gives_commaSeparated _ (gives_expressionIn _ hunary)).bind fun args hargs => ?_
  refine gives_bind _ fun _ => gives_pure ?_
  exact Nat.succ_le_succ (Expr.heightAll_le_iff.mpr hargs)

include hunary hdeeper in
theorem gives_statementOf : GivesStmt (bound + 7) (statementOf unary deeper) := by
  refine gives_bind _ fun head? => ?_
  cases head? with
  | none => exact gives_refuse _ _
  | some head =>
    dsimp only
    cases head.kind with
    | print => exact gives_printStatement hunary
    | declare => exact gives_declaration hunary _
    | declareList => exact gives_declaration hunary _
    | function => exact gives_functionStatement hdeeper
    | condition => exact gives_branchStatement hunary hdeeper
    | loop => exact gives_loopStatement hunary hdeeper
    | identifier =>
      refine gives_bind _ fun call => ?_
      split
      · exact gives_callStatement hunary
      · exact gives_assignmentFrom hunary _ _ _
    | _ => exact gives_refuse _ _

end

theorem gives_statement (room : Nat) : GivesStmt (7 * (room + 2)) (statement room) := by
  induction room with
  | zero => exact gives_statementOf (gives_unary 0) nofun
  | succ room ih =>
    refine gives_statementOf (gives_unary (room + 1)) ?_
    rintro inner ⟨⟩
    exact ih

/-- The statements of a program are no higher than the levels that may be opened allow, apart from
steps to left operands. -/
theorem gives_programWithin (room : Nat) :
    Gives (fun program => Stmt.heightAll 0 program.body ≤ 7 * (room + 2)) (programWithin room) := by
  refine gives_bind _ fun there => ?_
  cases there with
  | false => exact gives_refuse _ _
  | true =>
    refine gives_bind _ fun _ => ?_
    refine (gives_statementsUntil _ (gives_statement room)).bind fun statements hstatements => ?_
    refine gives_bind _ fun there => ?_
    cases there with
    | false => exact gives_refuse _ _
    | true => exact gives_bind _ fun _ => gives_pure hstatements

end Reading

/-! ### Sums -/

/-- The kinds of the tokens of a sum with `more` signs. -/
def sumKinds : Nat → List Token.Kind
  | 0 => [.boolean]
  | more + 1 => sumKinds more ++ [.plus, .boolean]

/-- A sum with `more` signs, which leans to the left. -/
def leaningSum : Nat → Expr
  | 0 => .boolean true ⟨0, 0⟩
  | more + 1 => .binary .add (leaningSum more) (.boolean true ⟨0, 0⟩) ⟨0, 0⟩

theorem span_leaningSum (more : Nat) : (leaningSum more).span = ⟨0, 0⟩ := by
  cases more <;> rfl

theorem height_leaningSum (more : Nat) : (leaningSum more).height 1 = more + 1 := by
  induction more with
  | zero => rfl
  | succ more ih =>
    rw [leaningSum, Expr.height, ih, Expr.height]
    omega

theorem leading_leaningSum (more : Nat) : (leaningSum more).leading = more := by
  induction more with
  | zero => rfl
  | succ more ih => rw [leaningSum, Expr.leading, ih]

theorem all_leading_leaningSum {more longest : Nat} (h : more ≤ longest) :
    (Node.expr (leaningSum more)).All fun below => below.leading ≤ longest := by
  induction more with
  | zero => exact Node.all_of_children (Nat.zero_le longest) nofun
  | succ more ih =>
    have hleft := ih (by omega)
    have hright : (Node.expr (.boolean true ⟨0, 0⟩)).All fun below => below.leading ≤ longest :=
      Node.all_of_children (Nat.zero_le longest) nofun
    refine Node.all_of_children ?_
      (List.forall_mem_cons.mpr ⟨hleft, List.forall_mem_singleton.mpr hright⟩)
    rw [Node.leading, leading_leaningSum]
    exact h

theorem joined_leaningSum (more : Nat) :
    Grammar.Joined [[.add, .subtract], [.multiply, .divide]] 256
      ((sumKinds more).map Token.Kind.sample) (leaningSum more) := by
  induction more with
  | zero => exact Reading.joined_sample _
  | succ more ih =>
    have hright : Grammar.Joined [[.multiply, .divide]] 256 [Token.Kind.boolean.sample]
        (.boolean true ⟨0, 0⟩) := Reading.joined_sample _
    have hkind : Token.Kind.plus.sample.kind = BinaryOperator.add.kind := rfl
    -- The sum so far is the left operand of the last sign.
    have hbinary := ih.binary List.mem_cons_self hkind hright
    rw [span_leaningSum] at hbinary
    rw [sumKinds, List.map_append]
    exact hbinary

/-- The kinds of the tokens of a program that prints a sum. -/
def sumProgramKinds (more : Nat) : List Token.Kind :=
  .start :: .print :: (sumKinds more ++ [.finish])

/-- A program that prints a sum is parsed, however long the sum is. -/
theorem parse_leaningSum (more : Nat) :
    ∃ ignored,
      parse ((sumProgramKinds more).map Token.Kind.sample ++ [Token.Kind.eof.sample]) =
        .ok ⟨⟨[.print (leaningSum more) ⟨0, 0⟩]⟩, ignored⟩ := by
  have hvalue : Grammar.Expression 256 ((sumKinds more).map Token.Kind.sample)
      (leaningSum more) := .tighter (.tighter (.tighter (.tighter (joined_leaningSum more))))
  have hprint : Grammar.Statement 256 ((.print :: sumKinds more).map Token.Kind.sample)
      (.print (leaningSum more) ⟨0, 0⟩) := by
    have hprint := Grammar.Statement.print (rfl : Token.Kind.print.sample.kind = .print) .absent
      hvalue
    rw [span_leaningSum] at hprint
    exact hprint
  have hderives : Grammar.Derives 256 ((sumProgramKinds more).map Token.Kind.sample)
      ⟨[.print (leaningSum more) ⟨0, 0⟩]⟩ := by
    have hderives := Grammar.Derives.program (rfl : Token.Kind.start.sample.kind = .start) .absent
      (.more .none hprint) (rfl : Token.Kind.finish.sample.kind = .finish) .absent
    rw [sumProgramKinds, List.map_cons, List.map_cons, List.map_append]
    exact hderives
  have hagrees : ∀ token ∈ (sumProgramKinds more).map Token.Kind.sample, token.Agrees :=
    List.forall_mem_map.mpr fun kind _ => kind.agrees_sample
  obtain ⟨after, hresult⟩ := (program_ok_iff hagrees).mpr ⟨_, List.prefix_refl _, hderives⟩
  exact ⟨_, parse_of_ok rfl hderives.kind_ne_eof hresult⟩

theorem has_leaningSum (more : Nat) :
    Program.Has ⟨[.print (leaningSum more) ⟨0, 0⟩]⟩ (.expr (leaningSum more)) :=
  ⟨_, List.mem_cons_self, .child .self List.mem_cons_self⟩

/-! ### The bound -/

/-- The nodes of a parsed program are no higher than the limit on nesting allows, apart from steps
to left operands. Where no more than `longest` steps in a row lead to left operands, the height with
these steps is at most `longest + 1` times as great. -/
theorem parse_height_le {tokens : List Token} {parsed : Parsed} (h : parse tokens = .ok parsed)
    {node : Node} (hnode : parsed.program.Has node) :
    node.height 0 ≤ 7 * (Reading.nestingLimit + 2) ∧
      ∀ longest, (node.All fun below => below.leading ≤ longest) →
        node.height 1 ≤ 7 * (Reading.nestingLimit + 2) * (longest + 1) := by
  obtain ⟨after, hresult⟩ := parse_ok_iff.mp ⟨parsed.ignored, h⟩
  -- What is below a statement of the program is no higher than the statement.
  obtain ⟨stmt, hstmt, hbelow⟩ := hnode
  have hbody := Reading.gives_programWithin Reading.nestingLimit _ _ _ hresult
  have hheight : node.height 0 ≤ 7 * (Reading.nestingLimit + 2) :=
    (hbelow.height_le 0).trans (Stmt.heightAll_le_iff.mp hbody stmt hstmt)
  refine ⟨hheight, fun longest hlongest => ?_⟩
  exact (Node.height_le_of_leading_le hlongest).trans (Nat.mul_le_mul_right _ hheight)

/-- In a program that prints a sum with two signs. -/
theorem parse_height_le_two_signs :
    ∃ ignored,
      parse ((sumProgramKinds 2).map Token.Kind.sample ++ [Token.Kind.eof.sample]) =
          .ok ⟨⟨[.print (leaningSum 2) ⟨0, 0⟩]⟩, ignored⟩ ∧
        (Node.expr (leaningSum 2)).height 0 ≤ 7 * (Reading.nestingLimit + 2) ∧
        (Node.expr (leaningSum 2)).height 1 ≤ 7 * (Reading.nestingLimit + 2) * (2 + 1) := by
  obtain ⟨ignored, hparse⟩ := parse_leaningSum 2
  have hbounds := parse_height_le hparse (has_leaningSum 2)
  exact ⟨ignored, hparse, hbounds.1, hbounds.2 2 (all_leading_leaningSum (Nat.le_refl 2))⟩

/-- No number bounds the heights of all nodes of all parsed programs: how far an expression leans to
the left is not limited. -/
theorem parse_height_unbounded :
    ¬ ∃ bound, ∀ tokens parsed, parse tokens = .ok parsed →
      ∀ node, parsed.program.Has node → node.height 1 ≤ bound := by
  rintro ⟨bound, hbound⟩
  -- A sum with as many signs as the bound says is higher by one.
  obtain ⟨ignored, hparse⟩ := parse_leaningSum bound
  have hle := hbound _ _ hparse _ (has_leaningSum bound)
  rw [Node.height, height_leaningSum] at hle
  omega

end LineScript
