import LineScript.Proofs.Reading.Ends
import LineScript.Proofs.Reading.Indexed.Follows

/-!
# Reading by index is safe

Every reader by index follows the reading of the same name, given enough calls and rounds. So
parsing by index gives what parsing gives, on any list of tokens, and does nothing on the way that
it should not do (`parse_safe`).
-/

namespace LineScript.Indexed

open Reading (Composed)

/-- A reader follows a reading at every token before the end. -/
def Tracks {α : Type} (source : Ended) (depth : Nat) (reading : Reading α) (reader : Reader α) :
    Prop :=
  ∀ index, index < source.body.length → Follows source depth index reading reader

/-- What is read one level further in is tracked, and the counter says whether that level may be
opened. -/
structure Deeper {α : Type} (source : Ended) (depth : Nat) (deeper : Option (Reading α))
    (reader : Reader α) : Prop where
  /-- There is a level further in as long as the counter is below the limit. -/
  isSome_iff : deeper.isSome ↔ depth < Reading.nestingLimit
  /-- The reader there is tracked, with one more level open. -/
  tracks : ∀ inner, deeper = some inner → Tracks source (depth + 1) inner reader
  /-- It consumes tokens if it gives something. -/
  composed : ∀ inner, deeper = some inner → Composed 1 inner

variable {source : Ended} {α σ : Type} {depth index rounds : Nat}

/-! ### Steps that advance -/

theorem advances_none : Advances (pure none : Reading (Option σ)) := by
  rintro cursor next after ⟨⟩

theorem advances_of_composed {step : Reading (Option σ)} (h : Composed 1 step) : Advances step := by
  intro cursor next after hresult
  have hmoved := h.moves cursor
  rw [hresult] at hmoved
  obtain ⟨read, hleads, hleast⟩ := hmoved
  rw [hleads.rest, List.length_append]
  omega

theorem advances_kind_bind {next : Token.Kind → Reading (Option σ)}
    (h : ∀ kind, Advances (next kind)) : Advances (Reading.kind >>= next) :=
  fun cursor => h cursor.kind cursor

theorem advances_joined? (level : Reading.Level) {operand : Reading Expr} (h : Composed 1 operand)
    (left : Expr) : Advances (Reading.joined? level operand left) := by
  refine advances_kind_bind fun kind => ?_
  split
  · exact advances_none
  · refine advances_of_composed (Composed.token.bind fun _ => ?_)
    exact (Reading.composed_startingIn _ _ h).weaken.bind fun _ => .pure _

theorem advances_itemAfter? (construct : Construct) {item : Reading α} (h : Composed 1 item)
    (items : List α) : Advances (Reading.itemAfter? construct item items) := by
  refine advances_kind_bind fun kind => ?_
  split
  · exact advances_none
  · refine advances_of_composed ((Composed.expect _ _ _).bind fun _ => ?_)
    exact h.weaken.bind fun _ => .pure _

theorem advances_statementAfter? (stops : List Token.Kind) {statement : Reading Stmt}
    (h : Composed 1 statement) (statements : List Stmt) :
    Advances (Reading.statementAfter? stops statement statements) := by
  refine advances_kind_bind fun kind => ?_
  split
  · exact advances_none
  · exact advances_of_composed (h.bind fun _ => .pure _)

/-! ### Expressions -/

theorem follows_startingIn (construct : Construct) (help : Option String) {body : Reading Expr}
    {rbody : Reader Expr} (h : Tracks source depth body rbody) :
    Follows source depth index (Reading.startingIn construct help body)
      (startingIn construct help rbody) := by
  refine follows_kind_bind ?_
  split
  next hstarts =>
    -- No expression starts with the end, so there is a token here.
    intro state hstate
    refine h index (source.lt_of_kind_ne hstate.within fun hend => ?_) state hstate
    rw [hend] at hstarts
    cases hstarts
  next => exact follows_refuse _ _

theorem follows_operandOf (symbol : String) {operand : Reading Expr} {roperand : Reader Expr}
    (h : Tracks source depth operand roperand) (hcomposed : Composed 1 operand) :
    Follows source depth index (Reading.operandOf symbol operand) (operandOf symbol roperand) :=
  (follows_startingIn _ _ h).watched (Reading.composed_startingIn _ _ hcomposed)

/-- No operator is written as the end. -/
def Proper (level : Reading.Level) : Prop :=
  ∀ pair ∈ level, pair.1 ≠ .eof

theorem proper_levels : ∀ level ∈ Reading.levels, Proper level := by
  unfold Proper
  decide

theorem Proper.kind_ne {level : Reading.Level} (h : Proper level) {kind : Token.Kind}
    {operator : BinaryOperator} (hlookup : level.lookup kind = some operator) : kind ≠ .eof := by
  obtain ⟨before, after, rfl, -⟩ := List.lookup_eq_some_iff.mp hlookup
  exact h _ (List.mem_append_right _ List.mem_cons_self)

theorem operator?_run {state : State} (hstate : Stands source depth index state)
    {level : Reading.Level} (hlevel : Proper level) :
    operator? level source.tokens state =
      (.ok (level.lookup (source.cursor index).kind), state) := by
  induction level with
  | nil => rfl
  | cons pair level ih =>
    obtain ⟨expected, operator⟩ := pair
    obtain ⟨hne, hlevel⟩ := List.forall_mem_cons.mp hlevel
    rw [operator?, bind_run, check_run hstate hne, List.lookup_cons]
    by_cases hkind : (source.cursor index).kind = expected
    · rw [beq_iff_eq.mpr hkind, decide_eq_true hkind]
      rfl
    · rw [beq_eq_false_iff_ne.mpr hkind, decide_eq_false hkind]
      exact ih hlevel

theorem follows_joined? {level : Reading.Level} (hlevel : Proper level) {operand : Reading Expr}
    {roperand : Reader Expr} (h : Tracks source depth operand roperand)
    (hcomposed : Composed 1 operand) (left : Expr) :
    Follows source depth index (Reading.joined? level operand left)
      (joined? level roperand left) := by
  refine .bind_of_run (fun _ hstate => operator?_run hstate hlevel) (.kind_bind ?_)
  -- The end is no operator, so where there is one there is a token.
  cases hlookup : level.lookup (source.cursor index).kind with
  | none => exact follows_pure _
  | some operator =>
    intro state hstate
    have hindex := source.lt_of_kind_ne hstate.within (hlevel.kind_ne hlookup)
    refine follows_token_bind hindex ?_ state hstate
    exact (follows_operandOf _ h hcomposed).bind fun right last => follows_pure _

theorem tracks_chain (hrounds : source.body.length < rounds) {level : Reading.Level}
    (hlevel : Proper level) {operand : Reading Expr} {roperand : Reader Expr}
    (h : Tracks source depth operand roperand) (hcomposed : Composed 1 operand) :
    Tracks source depth (Reading.chain level operand) (chain rounds level roperand) := by
  intro index hindex
  refine Follows.watched ((h index hindex).bind fun first last => ?_)
    (Reading.composed_chain level hcomposed)
  exact follows_iterate (fun _ => advances_joined? level hcomposed _)
    (fun _ _ => follows_joined? hlevel h hcomposed _) (by omega) first

theorem follows_expressionIn (hrounds : source.body.length < rounds) (construct : Construct)
    {unary : Reading Expr} {runary : Reader Expr} (h : Tracks source depth unary runary)
    (hcomposed : Composed 1 unary) :
    Follows source depth index (Reading.expressionIn construct unary)
      (expressionIn rounds construct runary) := by
  have hlevels : ∀ levels : List Reading.Level, (∀ level ∈ levels, Proper level) →
      Tracks source depth (levels.foldr Reading.chain unary)
          (levels.foldr (chain rounds) runary) ∧
        Composed 1 (levels.foldr Reading.chain unary) := by
    intro levels hproper
    induction levels with
    | nil => exact ⟨h, hcomposed⟩
    | cons level levels ih =>
      obtain ⟨hlevel, hproper⟩ := List.forall_mem_cons.mp hproper
      obtain ⟨htracks, hcomposed⟩ := ih hproper
      exact ⟨tracks_chain hrounds hlevel htracks hcomposed, Reading.composed_chain level hcomposed⟩
  exact (follows_startingIn _ _ (hlevels _ proper_levels).1).watched
    (Reading.composed_expressionIn _ hcomposed)

section

variable {deeper : Option (Reading Expr)} {runary : Reader Expr}
  (hrounds : source.body.length < rounds) (hdeeper : Deeper source depth deeper runary)

include hdeeper

section

include hrounds

theorem follows_nested_expressionIn (construct : Construct) :
    Follows source depth index (Reading.nested deeper (Reading.expressionIn construct))
      (nested (expressionIn rounds construct runary)) :=
  follows_nested hdeeper.isSome_iff fun inner hinner =>
    follows_expressionIn hrounds construct (hdeeper.tracks inner hinner)
      (hdeeper.composed inner hinner)

theorem follows_nameTail (name : String) (span : Span) :
    Follows source depth index (Reading.nameTail deeper name span)
      (nameTail rounds runary name span) := by
  refine (follows_skip (by decide)).bind fun bracket last => ?_
  cases bracket with
  | true =>
    refine (follows_nested_expressionIn hrounds hdeeper _).bind fun position last => ?_
    exact (follows_expect (by decide) _ _).bind fun close last => follows_pure _
  | false =>
    refine (follows_skip (by decide)).bind fun dot last => ?_
    cases dot with
    | true => exact (follows_expect (by decide) _ _).bind fun property last => follows_pure _
    | false => exact follows_pure _

theorem follows_groupTail :
    Follows source depth index (Reading.groupTail deeper) (groupTail rounds runary) := by
  refine (follows_nested_expressionIn hrounds hdeeper _).bind fun inner last => ?_
  exact (follows_expect (by decide) _ _).bind fun close last => follows_pure _

theorem tracks_primary :
    Tracks source depth (Reading.primary deeper) (primary rounds runary) := by
  intro index hindex
  refine Follows.watched (.bind_of_run (fun _ hstate => peek_run hstate) (.peek_bind hindex ?_))
    (Reading.composed_primary hdeeper.composed)
  dsimp only
  cases (source.token index).payload with
  | number value => exact follows_token_bind hindex (follows_pure _)
  | string value => exact follows_token_bind hindex (follows_pure _)
  | boolean value => exact follows_token_bind hindex (follows_pure _)
  | array items => exact follows_token_bind hindex (follows_pure _)
  | text text =>
    cases (source.token index).kind with
    | identifier => exact follows_token_bind hindex (follows_nameTail hrounds hdeeper _ _)
    | leftParen => exact follows_token_bind hindex (follows_groupTail hrounds hdeeper)
    | _ => exact follows_refuse _ _

end

theorem follows_negation (operator : UnaryOperator) (hindex : index < source.body.length) :
    Follows source depth index (Reading.negation operator deeper) (negation operator runary) := by
  refine follows_token_bind hindex ?_
  refine (follows_nested hdeeper.isSome_iff fun inner hinner => ?_).bind fun operand last =>
    follows_pure _
  exact follows_operandOf _ (hdeeper.tracks inner hinner) (hdeeper.composed inner hinner)

include hrounds

theorem tracks_unaryOf :
    Tracks source depth (Reading.unaryOf deeper) (unaryOf rounds runary) := by
  intro index hindex
  refine Follows.watched (follows_kind_bind ?_) (Reading.composed_unaryOf hdeeper.composed)
  cases (source.cursor index).kind with
  | not => exact follows_negation hdeeper _ hindex
  | minus => exact follows_negation hdeeper _ hindex
  | _ => exact tracks_primary hrounds hdeeper index hindex

end

/-- Where `room` more levels may be opened, `room` more calls inside one another suffice, and one
for the operand itself. -/
theorem tracks_unary (hrounds : source.body.length < rounds) {room calls : Nat}
    (hroom : room + depth = Reading.nestingLimit) (hcalls : room < calls) :
    Tracks source depth (Reading.unary room) (unary rounds calls) := by
  induction room generalizing depth calls with
  | zero =>
    obtain ⟨calls, rfl⟩ := Nat.exists_eq_add_one_of_ne_zero (Nat.ne_of_gt hcalls)
    -- The counter is at the limit, so nothing is read further in.
    have hfull : ¬ depth < Reading.nestingLimit := by omega
    exact tracks_unaryOf hrounds ⟨iff_of_false Bool.false_ne_true hfull, nofun, nofun⟩
  | succ room ih =>
    obtain ⟨calls, rfl⟩ := Nat.exists_eq_add_one_of_ne_zero (Nat.ne_zero_of_lt hcalls)
    refine tracks_unaryOf hrounds ⟨iff_of_true rfl (by omega), ?_, ?_⟩
    · rintro inner ⟨⟩
      exact ih (by omega) (by omega)
    · rintro inner ⟨⟩
      exact Reading.composed_unary room

/-! ### Statements -/

theorem follows_commaSeparated (hrounds : source.body.length < rounds) (construct : Construct)
    {item : Reading α} {ritem : Reader α} (h : ∀ index, Follows source depth index item ritem)
    (hcomposed : Composed 1 item) :
    Follows source depth index (Reading.commaSeparated construct item)
      (commaSeparated rounds construct ritem) := by
  refine follows_check_ite (by decide) (follows_pure _) ((h index).bind fun first last => ?_)
  refine (follows_iterate (fun _ => advances_itemAfter? construct hcomposed _)
    (fun items last => ?_) (by omega) _).bind fun reversed last => follows_pure _
  refine follows_check_ite (by decide) (follows_pure _) ?_
  exact (follows_expect (by decide) _ _).bind fun _ last => (h last).bind fun next last =>
    follows_pure _

theorem reaches_run {state : State} (hstate : Stands source depth index state)
    {stops : List Token.Kind} (hstops : .eof ∉ stops) :
    reaches stops source.tokens state =
      (.ok (decide ((source.cursor index).kind ∈ stops ++ [.eof])), state) := by
  induction stops with
  | nil =>
    rw [reaches, atEnd_run hstate]
    simp
  | cons expected stops ih =>
    obtain ⟨hne, hstops⟩ : .eof ≠ expected ∧ .eof ∉ stops := by simpa using hstops
    rw [reaches, bind_run, check_run hstate (Ne.symm hne)]
    by_cases hkind : (source.cursor index).kind = expected
    · rw [decide_eq_true hkind, List.cons_append,
        decide_eq_true (List.mem_cons.mpr (.inl hkind))]
      rfl
    · rw [decide_eq_false hkind]
      refine (ih hstops).trans ?_
      simp [hkind]

/-- Statements are read up to the tokens that they may not begin with, the end being one of these.
-/
theorem follows_statementsUntil (hrounds : source.body.length < rounds) {stops : List Token.Kind}
    (hstops : .eof ∉ stops) {statement : Reading Stmt} {rstatement : Reader Stmt}
    (h : Tracks source depth statement rstatement) (hcomposed : Composed 1 statement) :
    Follows source depth index (Reading.statementsUntil (stops ++ [.eof]) statement)
      (statementsUntil rounds stops rstatement) := by
  refine (follows_iterate (fun _ => advances_statementAfter? _ hcomposed _)
    (fun statements last => ?_) (by omega) _).bind fun reversed last => follows_pure _
  refine .bind_of_run (fun _ hstate => reaches_run hstate hstops) (.kind_bind ?_)
  by_cases hkind : (source.cursor last).kind ∈ stops ++ [.eof]
  · rw [if_pos hkind, decide_eq_true hkind]
    exact follows_pure _
  · rw [if_neg hkind, decide_eq_false hkind]
    intro state hstate
    -- Another statement is only read where there is a token.
    have hend : (source.cursor last).kind ≠ .eof := fun hend =>
      hkind (List.mem_append_right _ (List.mem_singleton.mpr hend))
    exact ((h last (source.lt_of_kind_ne hstate.within hend)).bind fun next last =>
      follows_pure _) state hstate

section

variable {unary : Reading Expr} {runary : Reader Expr} {deeper : Option (Reading Stmt)}
  {rstatement : Reader Stmt} (hrounds : source.body.length < rounds)
  (hunary : Tracks source depth unary runary) (hcomposed : Composed 1 unary)
  (hdeeper : Deeper source depth deeper rstatement)

include hrounds

include hdeeper in
theorem follows_block (construct : Construct) :
    Follows source depth index (Reading.block construct deeper)
      (block rounds construct rstatement) := by
  refine Follows.watched ?_ (Reading.composed_block hdeeper.composed _)
  refine (follows_expect (by decide) _ _).bind fun _ last => ?_
  refine (follows_nested hdeeper.isSome_iff fun inner hinner => ?_).bind fun statements last => ?_
  · have hstops : .eof ∉ [Token.Kind.rightBrace, .finish] := by decide
    exact follows_statementsUntil hrounds hstops (hdeeper.tracks inner hinner)
      (hdeeper.composed inner hinner)
  · exact (follows_expect (by decide) _ _).bind fun close last => follows_pure _

include hunary hcomposed in
theorem follows_printStatement (hindex : index < source.body.length) :
    Follows source depth index (Reading.printStatement unary) (printStatement rounds runary) := by
  refine Follows.watched (follows_token_bind hindex ?_) (Reading.composed_printStatement hcomposed)
  refine (follows_skip (by decide)).bind fun _ last => ?_
  exact (follows_expressionIn hrounds _ hunary hcomposed).bind fun value last => follows_pure _

include hunary hcomposed in
theorem follows_assignmentFrom (start : Span) (construct : Construct) (isList : Bool) :
    Follows source depth index (Reading.assignmentFrom start construct isList unary)
      (assignmentFrom rounds start construct isList runary) := by
  refine (follows_expect (by decide) _ _).bind fun name last => ?_
  refine (follows_expect (by decide) _ _).bind fun sign last => ?_
  exact (follows_expressionIn hrounds _ hunary hcomposed).bind fun value last => follows_pure _

include hunary hcomposed in
/-- A keyword says whether the variable that is declared is to hold a list. -/
theorem follows_declaration (isList : Bool) (hindex : index < source.body.length)
    (hkind : (source.token index).kind = if isList then .declareList else .declare) :
    Follows source depth index (Reading.declaration isList unary)
      (variableStatement rounds runary) := by
  refine Follows.watched (.bind_of_run (fun _ hstate => peek_run hstate) ?_)
    (Reading.composed_declaration hcomposed isList)
  rw [hkind]
  cases isList with
  | true => exact follows_token_bind hindex (follows_assignmentFrom hrounds hunary hcomposed _ _ _)
  | false => exact follows_token_bind hindex (follows_assignmentFrom hrounds hunary hcomposed _ _ _)

include hunary hcomposed in
theorem follows_assignment (hkind : (source.token index).kind = .identifier) :
    Follows source depth index
      (Reading.assignmentFrom (source.token index).span .assignment false unary)
      (variableStatement rounds runary) := by
  refine Follows.watched (.bind_of_run (fun _ hstate => peek_run hstate) ?_)
    (Reading.composed_assignmentFrom hcomposed _ _ _)
  rw [hkind]
  exact follows_assignmentFrom hrounds hunary hcomposed _ _ _

include hdeeper in
theorem follows_functionStatement (hindex : index < source.body.length) :
    Follows source depth index (Reading.functionStatement deeper)
      (functionStatement rounds rstatement) := by
  refine Follows.watched (follows_token_bind hindex ?_)
    (Reading.composed_functionStatement hdeeper.composed)
  refine (follows_expect (by decide) _ _).bind fun name last => ?_
  refine (follows_expect (by decide) _ _).bind fun _ last => ?_
  refine (follows_commaSeparated hrounds _ (fun index => follows_expect (by decide) _ _)
    (.expect _ _ _)).bind fun params last => ?_
  refine (follows_expect (by decide) _ _).bind fun _ last => ?_
  exact (follows_block hrounds hdeeper _).bind fun block last => follows_pure _

include hunary hcomposed hdeeper in
theorem follows_branchStatement (hindex : index < source.body.length) :
    Follows source depth index (Reading.branchStatement unary deeper)
      (branchStatement rounds runary rstatement) := by
  refine Follows.watched (follows_token_bind hindex ?_)
    (Reading.composed_branchStatement hcomposed hdeeper.composed)
  refine (follows_expect (by decide) _ _).bind fun _ last => ?_
  refine (follows_expressionIn hrounds _ hunary hcomposed).bind fun condition last => ?_
  refine (follows_expect (by decide) _ _).bind fun _ last => ?_
  refine (follows_expect (by decide) _ _).bind fun _ last => ?_
  refine (follows_block hrounds hdeeper _).bind fun consequence last => ?_
  refine (follows_skip (by decide)).bind fun there last => ?_
  cases there with
  | true => exact (follows_block hrounds hdeeper _).bind fun alternative last => follows_pure _
  | false => exact follows_pure _

include hunary hcomposed hdeeper in
theorem follows_loopStatement (hindex : index < source.body.length) :
    Follows source depth index (Reading.loopStatement unary deeper)
      (loopStatement rounds runary rstatement) := by
  refine Follows.watched (follows_token_bind hindex ?_)
    (Reading.composed_loopStatement hcomposed hdeeper.composed)
  refine (follows_expressionIn hrounds _ hunary hcomposed).bind fun count last => ?_
  refine (follows_expect (by decide) _ _).bind fun _ last => ?_
  exact (follows_block hrounds hdeeper _).bind fun block last => follows_pure _

include hunary hcomposed in
theorem follows_callStatement (hindex : index < source.body.length) :
    Follows source depth index (Reading.callStatement unary) (callStatement rounds runary) := by
  refine Follows.watched (follows_token_bind hindex ?_) (Reading.composed_callStatement hcomposed)
  refine (follows_expect (by decide) _ _).bind fun _ last => ?_
  refine (follows_commaSeparated hrounds _
    (fun index => follows_expressionIn hrounds _ hunary hcomposed)
    (Reading.composed_expressionIn _ hcomposed)).bind fun args last => ?_
  exact (follows_expect (by decide) _ _).bind fun close last => follows_pure _

include hunary hcomposed hdeeper in
theorem tracks_statementOf :
    Tracks source depth (Reading.statementOf unary deeper)
      (statementOf rounds runary rstatement) := by
  intro index hindex
  refine Follows.watched (.bind_of_run (fun _ hstate => kind_run hstate) (.peek_bind hindex ?_))
    (Reading.composed_statementOf hcomposed hdeeper.composed)
  rw [← source.kind_token hindex.le]
  dsimp only
  cases hkind : (source.token index).kind with
  | print => exact follows_printStatement hrounds hunary hcomposed hindex
  | declare => exact follows_declaration hrounds hunary hcomposed false hindex hkind
  | declareList => exact follows_declaration hrounds hunary hcomposed true hindex hkind
  | function => exact follows_functionStatement hrounds hdeeper hindex
  | condition => exact follows_branchStatement hrounds hunary hcomposed hdeeper hindex
  | loop => exact follows_loopStatement hrounds hunary hcomposed hdeeper hindex
  | identifier =>
    exact follows_atCall_ite hindex (follows_callStatement hrounds hunary hcomposed hindex)
      (follows_assignment hrounds hunary hcomposed hkind)
  | _ => exact follows_refuse _ _

end

/-- Where `room` more levels may be opened, `room` more calls inside one another suffice, and one
for the statement itself. -/
theorem tracks_statement (hrounds : source.body.length < rounds) {operandCalls : Nat}
    (hoperandCalls : Reading.nestingLimit < operandCalls) {room calls : Nat}
    (hroom : room + depth = Reading.nestingLimit) (hcalls : room < calls) :
    Tracks source depth (Reading.statement room)
      (statement rounds (unary rounds operandCalls) calls) := by
  induction room generalizing depth calls with
  | zero =>
    obtain ⟨calls, rfl⟩ := Nat.exists_eq_add_one_of_ne_zero (Nat.ne_of_gt hcalls)
    have hfull : ¬ depth < Reading.nestingLimit := by omega
    exact tracks_statementOf hrounds (tracks_unary hrounds hroom (by omega))
      (Reading.composed_unary 0) ⟨iff_of_false Bool.false_ne_true hfull, nofun, nofun⟩
  | succ room ih =>
    obtain ⟨calls, rfl⟩ := Nat.exists_eq_add_one_of_ne_zero (Nat.ne_zero_of_lt hcalls)
    refine tracks_statementOf hrounds (tracks_unary hrounds hroom (by omega))
      (Reading.composed_unary _) ⟨iff_of_true rfl (by omega), ?_, ?_⟩
    · rintro inner ⟨⟩
      exact ih (by omega) (by omega)
    · rintro inner ⟨⟩
      exact Reading.composed_statement room

/-! ### Programs -/

theorem follows_program (hrounds : source.body.length < rounds) {rstatement : Reader Stmt}
    {room : Nat} (h : Tracks source depth (Reading.statement room) rstatement) :
    Follows source depth index (Reading.programWithin room) (program rounds rstatement) := by
  refine (follows_skip (by decide)).bind fun there last => ?_
  cases there with
  | false => exact follows_refuse _ _
  | true =>
    refine (follows_skip (by decide)).bind fun _ last => ?_
    have hstops : .eof ∉ [Token.Kind.finish] := by decide
    refine (follows_statementsUntil hrounds hstops h (Reading.composed_statement room)).bind
      fun statements last => ?_
    refine (follows_skip (by decide)).bind fun there last => ?_
    cases there with
    | false => exact follows_refuse _ _
    | true => exact (follows_skip (by decide)).bind fun _ last => follows_pure _

/-- How many tokens follow the one at an index up to the end. -/
theorem following_run {state : State} (hstate : Stands source depth index state) :
    following source.tokens state =
      (.ok (source.tokens.length - index - 1), state) := by
  have hlength : state.index < source.tokens.length := by
    have hwithin := hstate.within
    rw [hstate.index_eq, Ended.tokens, List.length_append, List.length_cons]
    omega
  rw [following, bind_run, read_run]
  dsimp only
  rw [bind_run, get_run]
  dsimp only
  rw [if_pos hlength, hstate.index_eq]
  rfl

/-- The tokens beyond the end are counted only if the end was not reached. -/
theorem ignored_run {state : State} (hstate : Stands source depth index state) :
    ignored source.tokens state =
      (.ok (if (source.cursor index).rest.isEmpty then 0
        else (source.cursor index).rest.length + source.beyond.length), state) := by
  rw [ignored, bind_run, atEnd_run hstate]
  rcases Nat.lt_or_eq_of_le hstate.within with hlt | rfl
  · have hlength : source.tokens.length - index - 1 =
        (source.cursor index).rest.length + source.beyond.length := by
      simp only [Ended.tokens, Ended.cursor, List.length_append, List.length_cons,
        List.length_drop]
      omega
    rw [decide_eq_false (source.kind_cursor_ne hlt)]
    refine (following_run hstate).trans ?_
    rw [hlength, source.rest_cursor_of_lt hlt]
    rfl
  · rw [Cursor.kind, source.rest_cursor_length]
    rfl

/-- A state at the end of a run says what happened on the way. -/
theorem Stands.summary {state : State} (h : Stands source depth index state) :
    state.depth = depth ∧ state.index ≤ source.body.length ∧
      state.trail = (List.range (state.index + 1)).reverse ∧
      ∀ visit ∈ state.visits, visit.Sound source.body.length :=
  ⟨h.depth_eq, h.index_eq.le.trans h.within, h.index_eq.symm ▸ h.trail_eq, h.visits⟩

/-- Parsing by index gives what parsing gives, so it never looks outside of the list and comes to an
end. The index goes up one by one and not beyond the first end, all levels are closed, and every
call of a function that reads a statement, a block or an expression is as it should be. -/
theorem parse_safe (tokens : List Token) {calls rounds : Nat}
    (hcalls : Reading.nestingLimit < calls) (hrounds : tokens.length < rounds) :
    ∃ final last stop,
      (TokenList.closed tokens)[last]? = some stop ∧ stop.kind = .eof ∧
      (∀ token ∈ (TokenList.closed tokens).take last, token.kind ≠ .eof) ∧
      parse calls rounds tokens = ((LineScript.parse tokens).mapError Stop.fault, final) ∧
      final.depth = 0 ∧ final.index ≤ last ∧
      final.trail = (List.range (final.index + 1)).reverse ∧
      ∀ visit ∈ final.visits, visit.Sound last := by
  obtain ⟨body, stop, beyond, hclosed, hbody, hstop, hlength⟩ :=
    TokenList.exists_first_end tokens
  have hlist := TokenList.ofTokens_of_closed_eq hclosed hbody hstop
  have hlast : (TokenList.closed tokens)[body.length]? = some stop := by simp [hclosed]
  have hbefore : ∀ token ∈ (TokenList.closed tokens).take body.length, token.kind ≠ .eof := by
    simpa [hclosed] using hbody
  -- From here on the list is taken to be cut at its first end.
  obtain ⟨source, rfl, rfl, rfl⟩ :
      ∃ source : Ended, source.body = body ∧ source.stop = stop ∧ source.beyond = beyond :=
    ⟨⟨body, stop, beyond, hbody, hstop⟩, rfl, rfl, rfl⟩
  have hrounds : source.body.length < rounds := by omega
  have hstatement : Tracks source 0 (Reading.statement Reading.nestingLimit)
      (statement rounds (unary rounds calls) calls) :=
    tracks_statement hrounds hcalls rfl hcalls
  have hinitial : Stands source 0 0 .initial := ⟨rfl, Nat.zero_le _, rfl, rfl, nofun⟩
  have hagrees := follows_program hrounds hstatement _ hinitial
  have hcursor : (TokenList.ofTokens tokens).cursor = source.cursor 0 := by
    rw [hlist]
    rfl
  have hrun : parse calls rounds tokens =
      parsed rounds (statement rounds (unary rounds calls) calls) source.tokens .initial := by
    rw [parse, hclosed, Ended.tokens]
  rw [hrun, LineScript.parse, hcursor, hlist, parsed, bind_run, Reading.program]
  dsimp only
  generalize Reading.programWithin Reading.nestingLimit (source.cursor 0) = outcome at hagrees ⊢
  generalize program rounds _ source.tokens .initial = result at hagrees ⊢
  cases hagrees with
  | error _ _ hstands => exact ⟨_, _, _, hlast, hstop, hbefore, rfl, hstands.summary⟩
  | @ok program _ final _ hstands =>
    refine ⟨final, _, _, hlast, hstop, hbefore, ?_, hstands.summary⟩
    dsimp only
    rw [bind_run, ignored_run hstands]
    rfl

/-- A list of four tokens with its end in second place. -/
def earlyEnd : List Token :=
  [.start, .eof, .print, .finish].map Token.Kind.sample

/-- On a list whose end is not in last place. -/
theorem parse_safe_early_end :
    ∃ final last stop,
      (TokenList.closed earlyEnd)[last]? = some stop ∧ stop.kind = .eof ∧
      (∀ token ∈ (TokenList.closed earlyEnd).take last, token.kind ≠ .eof) ∧
      parse 257 5 earlyEnd = ((LineScript.parse earlyEnd).mapError Stop.fault, final) ∧
      final.depth = 0 ∧ final.index ≤ last ∧
      final.trail = (List.range (final.index + 1)).reverse ∧
      ∀ visit ∈ final.visits, visit.Sound last :=
  parse_safe earlyEnd (by decide) (by decide)

end LineScript.Indexed
