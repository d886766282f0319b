import LineScript.Proofs.Grammar.Yields

/-!
# Programs are read by the grammar

Every reading of the library yields what the grammar derives: `yields_unary` for operands,
`yields_statement` for statements and `yields_programWithin` for programs. Readings that may open a
number of levels are related to the grammar with that limit (`rooms_cast`), and, where their
refusals are to be completed, to the grammar without one (`rooms_top`).
-/

namespace LineScript

/-- The kind of the tokens that stand for a literal. -/
def Token.Payload.literalKind? : Token.Payload → Option Token.Kind
  | text _ => none
  | number _ => some .number
  | string _ => some .string
  | boolean _ => some .boolean
  | array _ => some .array

theorem Token.Agrees.kind_eq {token : Token} (h : token.Agrees) {kind : Token.Kind}
    (hkind : token.payload.literalKind? = some kind) : token.kind = kind := by
  revert h hkind
  unfold Agrees
  cases token.payload <;> cases token.kind <;> simp +contextual [Kind.fits, Payload.literalKind?]

theorem Token.text_of_payload {token : Token} {text : String} (h : token.payload = .text text) :
    token.text = text := by
  rw [Token.text, h]

theorem Cursor.exists_cons_of_kind_ne {cursor : Cursor} (h : cursor.kind ≠ .eof) :
    ∃ head rest, cursor.rest = head :: rest ∧ head.kind = cursor.kind := by
  obtain ⟨last?, tokens⟩ := cursor
  cases tokens with
  | nil => exact absurd rfl h
  | cons head rest => exact ⟨head, rest, rfl, rfl⟩

namespace Reading

open Grammar

variable {α β : Type} {strict : Prop} {room outer : ℕ∞}

/-- The token to come is read by the one reading that knows its kind. -/
theorem outcome_token_bind {next : Token → Reading α} {L : List Token → α → Prop} {cursor : Cursor}
    (hagrees : ∀ token ∈ cursor.rest, token.Agrees) (hkind : cursor.kind ≠ .eof)
    (h : ∀ head : Token, head.kind = cursor.kind →
      Yields strict (next head) (After L [head])) :
    Outcome strict L cursor.rest ((token >>= next) cursor) := by
  obtain ⟨head, rest, hrest, hhead⟩ := Cursor.exists_cons_of_kind_ne hkind
  obtain ⟨last?, tokens⟩ := cursor
  subst hrest
  rw [token_bind]
  exact (h head hhead _ fun token hmem => hagrees token (List.mem_cons_of_mem _ hmem)).append

/-! ### Nesting -/

/-- The reading for the next level further in is of a grammar with one level less to open. There is
none only where no level is left, which the grammar without a limit never says. -/
def Opens (strict : Prop) (deeper : Option (Reading α)) (L : ℕ∞ → List Token → α → Prop)
    (outer : ℕ∞) : Prop :=
  match deeper with
  | none => strict → outer = ⊤
  | some reading => ∃ inner, inner + 1 = outer ∧ Yields strict reading (L inner)

/-- What is derived one level further in. -/
def Inner (L : ℕ∞ → List Token → α → Prop) (outer : ℕ∞) : List Token → α → Prop :=
  fun tokens result => ∃ inner, inner + 1 = outer ∧ L inner tokens result

theorem yields_nested {deeper : Option (Reading α)} {body : Reading α → Reading β}
    {L : ℕ∞ → List Token → α → Prop} {M : ℕ∞ → List Token → β → Prop}
    (hopens : Opens strict deeper L outer)
    (hbody : ∀ inner reading, Yields strict reading (L inner) →
      Yields strict (body reading) (M inner))
    (hviable : Viable (M ⊤) []) : Yields strict (nested deeper body) (Inner M outer) := by
  cases deeper with
  | none =>
    intro cursor _
    refine ⟨[], rfl, .inl rfl, fun hstrict => ?_⟩
    obtain ⟨more, hmore, result, hderives⟩ := hviable
    exact ⟨more, hmore, result, ⊤, by rw [hopens hstrict, top_add], hderives⟩
  | some reading =>
    obtain ⟨inner, hinner, hreading⟩ := hopens
    exact (hbody inner reading hreading).mono fun read result h => ⟨inner, hinner, h⟩

/-! ### Expressions -/

/-- The operators of a class by the kinds of their tokens. -/
def levelOf (operators : List BinaryOperator) : Level :=
  operators.map fun operator => (operator.kind, operator)

theorem levels_eq : levels = precedence.map levelOf := rfl

theorem mem_of_lookup_levelOf {operators : List BinaryOperator} {kind : Token.Kind}
    {operator : BinaryOperator} (h : (levelOf operators).lookup kind = some operator) :
    operator ∈ operators ∧ operator.kind = kind := by
  obtain ⟨before, after, hlist, -⟩ := List.lookup_eq_some_iff.mp h
  have hmem : (kind, operator) ∈ levelOf operators := by
    rw [hlist]
    simp
  obtain ⟨found, hfound, heq⟩ := List.mem_map.mp hmem
  obtain ⟨rfl, rfl⟩ := Prod.mk.inj heq
  exact ⟨hfound, rfl⟩

theorem joined_sample (classes : List (List BinaryOperator)) :
    Joined classes room [Token.Kind.boolean.sample] (.boolean true ⟨0, 0⟩) := by
  induction classes with
  | nil => exact .boolean rfl rfl
  | cons operators classes ih => exact .tighter ih

theorem viable_joined (classes : List (List BinaryOperator)) :
    Viable (Joined classes room) [] :=
  viable_of_token .boolean (joined_sample classes)

theorem yields_startingIn {construct : Construct} {help : Option String} {body : Reading Expr}
    {L : List Token → Expr → Prop} (h : Yields strict body L) :
    Yields strict (startingIn construct help body) L := by
  refine yields_kind_bind fun kind => ?_
  split
  · exact h
  · exact yields_refuse (fun _ => rfl) h.viable

/-- A chain of operands yields the operands of its class. -/
theorem yields_chain {classes : List (List BinaryOperator)} {operators : List BinaryOperator}
    {operand : Reading Expr} (h : Yields strict operand (Joined classes room)) :
    Yields strict (chain (levelOf operators) operand) (Joined (operators :: classes) room) := by
  refine h.bind fun read first hfirst => ?_
  refine yields_iterate _ (fun read left hleft => ?_) (.tighter hfirst)
  intro cursor hagrees
  rw [joined?, kind_bind]
  cases hlookup : (levelOf operators).lookup cursor.kind with
  | none => exact ⟨[], rfl, by simpa using hleft⟩
  | some operator =>
    obtain ⟨hmem, hkind⟩ := mem_of_lookup_levelOf hlookup
    refine outcome_token_bind hagrees (hkind ▸ operator.kind_ne_eof) fun sign hsign => ?_
    refine (yields_startingIn h).bind fun tokens right hright => yields_pure ?_
    have hbinary := Joined.binary hleft hmem (hsign.trans hkind.symm) hright
    simpa [After] using hbinary

theorem yields_foldr_chain {unary : Reading Expr} (h : Yields strict unary (Joined [] room))
    (classes : List (List BinaryOperator)) :
    Yields strict ((classes.map levelOf).foldr chain unary) (Joined classes room) := by
  induction classes with
  | nil => exact h
  | cons operators classes ih => exact yields_chain ih

theorem yields_expressionIn {construct : Construct} {unary : Reading Expr}
    (h : Yields strict unary (Joined [] room)) :
    Yields strict (expressionIn construct unary) (Expression room) := by
  refine yields_startingIn ?_
  rw [expressionOf, levels_eq]
  exact yields_foldr_chain h precedence

/-- What follows a name yields the rest of an operand. -/
theorem yields_nameTail {deeper : Option (Reading Expr)}
    (hopens : Opens strict deeper (Joined []) outer) {name : Token}
    (hname : name.kind = .identifier) :
    Yields strict (nameTail deeper name.text name.span) (After (Joined [] outer) [name]) := by
  refine yields_skip_bind (fun left hleft => ?_) (yields_skip_bind (fun dot hdot => ?_) ?_)
  · refine (yields_nested hopens (fun _ _ => yields_expressionIn) (viable_joined _)).bind ?_
    rintro tokens position ⟨inner, rfl, hposition⟩
    refine yields_expect_bind fun right hright => yields_pure ?_
    simpa [After] using Joined.index hname hleft hposition hright
  · refine yields_expect_bind fun property hproperty => yields_pure ?_
    simpa [After] using Joined.property hname hdot hproperty
  · exact yields_pure (.identifier hname)

/-- What follows an opening parenthesis yields the rest of a group. -/
theorem yields_groupTail {deeper : Option (Reading Expr)}
    (hopens : Opens strict deeper (Joined []) outer) {left : Token}
    (hleft : left.kind = .leftParen) :
    Yields strict (groupTail deeper) (After (Joined [] outer) [left]) := by
  refine (yields_nested hopens (fun _ _ => yields_expressionIn) (viable_joined _)).bind ?_
  rintro tokens expr ⟨inner, rfl, hexpr⟩
  refine yields_expect_bind fun right hright => yields_pure ?_
  simpa [After] using Joined.group hleft hexpr hright

theorem yields_primary {deeper : Option (Reading Expr)}
    (hopens : Opens strict deeper (Joined []) outer) :
    Yields strict (primary deeper) (Joined [] outer) := by
  intro cursor hagrees
  unfold primary
  rw [peek_bind]
  obtain ⟨last?, tokens⟩ := cursor
  cases tokens with
  | nil => exact ⟨[], rfl, .inr rfl, fun _ => viable_joined _⟩
  | cons head rest =>
    have hhead : head.Agrees := hagrees head List.mem_cons_self
    have hrest : ∀ token ∈ rest, token.Agrees := fun token hmem =>
      hagrees token (List.mem_cons_of_mem _ hmem)
    dsimp only [List.head?_cons]
    -- Which operand it is shows in the payload, and the grammar asks for the kind that agrees.
    cases hpayload : head.payload with
    | number value =>
      exact ⟨[head], rfl, .number (hhead.kind_eq (by rw [hpayload]; rfl)) hpayload⟩
    | string value =>
      exact ⟨[head], rfl, .string (hhead.kind_eq (by rw [hpayload]; rfl)) hpayload⟩
    | boolean value =>
      exact ⟨[head], rfl, .boolean (hhead.kind_eq (by rw [hpayload]; rfl)) hpayload⟩
    | array items =>
      exact ⟨[head], rfl, .array (hhead.kind_eq (by rw [hpayload]; rfl)) hpayload⟩
    | text text =>
      cases hkind : head.kind with
      | identifier =>
        change Outcome strict _ _ (nameTail deeper text head.span ⟨some head, rest⟩)
        rw [← Token.text_of_payload hpayload]
        exact (yields_nameTail hopens hkind _ hrest).append
      | leftParen =>
        change Outcome strict _ _ (groupTail deeper ⟨some head, rest⟩)
        exact (yields_groupTail hopens hkind _ hrest).append
      | _ => exact ⟨[], rfl, .inr (by simp [Cause.found?, Cursor.kind]), fun _ => viable_joined _⟩

/-- An operator with one operand, which was seen to come, yields an operand. -/
theorem outcome_negation {deeper : Option (Reading Expr)}
    (hopens : Opens strict deeper (Joined []) outer) {operator : UnaryOperator} {cursor : Cursor}
    (hagrees : ∀ token ∈ cursor.rest, token.Agrees) (hkind : cursor.kind = operator.kind) :
    Outcome strict (Joined [] outer) cursor.rest (negation operator deeper cursor) := by
  refine outcome_token_bind hagrees (hkind ▸ operator.kind_ne_eof) fun sign hsign => ?_
  refine (yields_nested hopens (fun _ _ => yields_startingIn) (viable_joined [])).bind ?_
  rintro tokens operand ⟨inner, rfl, hoperand⟩
  refine yields_pure ?_
  simpa [After] using Joined.unary (hsign.trans hkind) hoperand

theorem yields_unaryOf {deeper : Option (Reading Expr)}
    (hopens : Opens strict deeper (Joined []) outer) :
    Yields strict (unaryOf deeper) (Joined [] outer) := by
  intro cursor hagrees
  unfold unaryOf
  rw [kind_bind]
  cases hkind : cursor.kind with
  | not => exact outcome_negation hopens hagrees hkind
  | minus => exact outcome_negation hopens hagrees hkind
  | _ => exact yields_primary hopens cursor hagrees

/-- How many levels the grammar may still open where the library may open `n`: one more for each,
and without a limit to begin with if refusals are to be completed. -/
structure Rooms (strict : Prop) (room : Nat → ℕ∞) : Prop where
  /-- Each level counts. -/
  succ (n : Nat) : room n + 1 = room (n + 1)
  /-- A refusal for want of levels is none of the grammar. -/
  zero : strict → room 0 = ⊤

theorem rooms_cast : Rooms False (fun n => n) :=
  ⟨fun _ => by push_cast; rfl, False.elim⟩

theorem rooms_top : Rooms True (fun _ => ⊤) :=
  ⟨fun _ => top_add 1, fun _ => rfl⟩

theorem yields_unary {room : Nat → ℕ∞} (hrooms : Rooms strict room) (n : Nat) :
    Yields strict (unary n) (Joined [] (room n)) := by
  induction n with
  | zero =>
    have hopens : Opens strict (none : Option (Reading Expr)) (Joined []) (room 0) := hrooms.zero
    exact yields_unaryOf hopens
  | succ n ih => exact yields_unaryOf ⟨room n, hrooms.succ n, ih⟩

/-! ### Statements -/

/-- A token that must be there, and that is the one to come. -/
theorem outcome_expect_bind {kind : Token.Kind} {construct : Construct} {help : Option String}
    {next : Token → Reading α} {L : List Token → α → Prop} {cursor : Cursor}
    (hagrees : ∀ token ∈ cursor.rest, token.Agrees) (hviable : strict → Viable L [])
    (h : ∀ head : Token, cursor.rest.head? = some head → head.kind = kind →
      Yields strict (next head) (After L [head])) :
    Outcome strict L cursor.rest ((expect kind construct help >>= next) cursor) := by
  obtain ⟨last?, tokens⟩ := cursor
  by_cases hkind : Cursor.kind ⟨last?, tokens⟩ = kind
  · cases tokens with
    -- The end of the tokens may be of the kind that is asked for, but it is never taken.
    | nil =>
      have hexpect : expect kind construct help ⟨last?, []⟩ =
          .error ⟨⟨last?, []⟩, .unexpectedToken .eof, none⟩ := if_pos hkind
      rw [bind_of_error hexpect]
      exact ⟨[], rfl, .inr rfl, hviable⟩
    | cons head rest =>
      have hexpect : expect kind construct help ⟨last?, head :: rest⟩ =
          .ok (head, ⟨some head, rest⟩) := if_pos hkind
      rw [bind_of_ok hexpect]
      exact (h head rfl hkind _ fun token hmem =>
        hagrees token (List.mem_cons_of_mem _ hmem)).append
  · have hexpect : expect kind construct help ⟨last?, tokens⟩ =
        .error ⟨⟨last?, tokens⟩, .expected kind construct (Cursor.kind ⟨last?, tokens⟩), help⟩ :=
      if_neg hkind
    rw [bind_of_error hexpect]
    exact ⟨[], rfl, .inr rfl, hviable⟩

theorem yields_commaSeparated {construct : Construct} {item : Reading α}
    {Item : List Token → α → Prop} (h : Yields strict item Item) :
    Yields strict (commaSeparated construct item) (Listed Item) := by
  refine yields_kind_bind fun kind => ?_
  split
  · exact yields_pure .none
  · refine h.bind fun read first hfirst => ?_
    have hone : Separated Item read [first].reverse := .one hfirst
    refine (yields_iterate (fun read items => Separated Item read items.reverse) ?_ hone).bind ?_
    · intro read items hitems
      refine yields_kind_bind fun kind => ?_
      split
      · exact yields_pure (by simpa using hitems)
      · refine yields_expect_bind fun comma hcomma => h.bind fun tokens next hnext => yields_pure ?_
        simpa [After] using hitems.more hcomma hnext
    · intro tokens reversed hitems
      refine yields_pure ?_
      simpa [After] using Listed.some hitems

theorem yields_statementsUntil {stops : List Token.Kind} {statement : Reading Stmt}
    (h : Yields strict statement (Statement room)) :
    Yields strict (statementsUntil stops statement) (Statements room) := by
  have hnone : Statements room [] [].reverse := .none
  refine (yields_iterate (fun read statements => Statements room read statements.reverse)
    ?_ hnone).bind ?_
  · intro read statements hstatements
    refine yields_kind_bind fun kind => ?_
    split
    · exact yields_pure (by simpa using hstatements)
    · refine h.bind fun tokens next hnext => yields_pure ?_
      simpa [After] using hstatements.more hnext
  · intro tokens reversed hstatements
    exact yields_pure (by simpa [After] using hstatements)

theorem yields_block {construct : Construct} {deeper : Option (Reading Stmt)}
    (hopens : Opens strict deeper Statement outer) :
    Yields strict (block construct deeper) (fun read body => Block outer read body.1 body.2) := by
  refine yields_expect_bind fun left hleft => ?_
  have hviable : Viable (Statements ⊤) [] := ⟨[], by simp, [], .none⟩
  refine (yields_nested hopens (fun _ _ => yields_statementsUntil) hviable).bind ?_
  rintro tokens body ⟨inner, rfl, hbody⟩
  refine yields_expect_bind fun right hright => yields_pure ?_
  simpa [After] using Block.braces hleft hbody hright

section

variable {unary : Reading Expr} {deeper : Option (Reading Stmt)} {cursor : Cursor}
  (hagrees : ∀ token ∈ cursor.rest, token.Agrees) (hunary : Yields strict unary (Joined [] outer))
  (hopens : Opens strict deeper Statement outer)

include hagrees hunary

theorem outcome_printStatement (hkind : cursor.kind = .print) :
    Outcome strict (Statement outer) cursor.rest (printStatement unary cursor) := by
  refine outcome_token_bind hagrees (by simp [hkind]) fun keyword hkeyword => ?_
  refine yields_skip_bind (fun colon hcolon => ?_) ?_
  · refine (yields_expressionIn hunary).bind fun tokens value hvalue => yields_pure ?_
    simpa [After] using Statement.print (hkeyword.trans hkind) (.present hcolon) hvalue
  · refine (yields_expressionIn hunary).bind fun tokens value hvalue => yields_pure ?_
    simpa [After] using Statement.print (hkeyword.trans hkind) .absent hvalue

/-- The name, the sign and the value of an assignment yield what may stand for them. -/
theorem outcome_assignmentFrom {start : Span} {construct : Construct} {isList : Bool}
    {L : List Token → Stmt → Prop} (hviable : strict → Viable L [])
    (h : ∀ (name sign : Token) (tokens : List Token) (value : Expr),
      cursor.rest.head? = some name → name.kind = .identifier → sign.kind = .assign →
        Expression outer tokens value →
          L (name :: sign :: tokens) (.assign name.text value isList (start.cover value.span))) :
    Outcome strict L cursor.rest (assignmentFrom start construct isList unary cursor) := by
  refine outcome_expect_bind hagrees hviable fun name hhead hname => ?_
  refine yields_expect_bind fun sign hsign => ?_
  refine (yields_expressionIn hunary).bind fun tokens value hvalue => yields_pure ?_
  simpa [After] using h name sign tokens value hhead hname hsign hvalue

theorem outcome_declaration (isList : Bool)
    (hkind : cursor.kind = if isList then .declareList else .declare) :
    Outcome strict (Statement outer) cursor.rest (declaration isList unary cursor) := by
  refine outcome_token_bind hagrees (by rw [hkind]; cases isList <;> decide) ?_
  intro keyword hkeyword after hafter
  have hkeyword := hkeyword.trans hkind
  refine outcome_assignmentFrom hafter hunary (fun _ => ?_) ?_
  · -- A name, the sign and any expression make a declaration of the keyword.
    refine ⟨[Token.Kind.identifier.sample, Token.Kind.assign.sample, Token.Kind.boolean.sample],
      by simp [Token.Kind.agrees_sample], _, .declare hkeyword rfl rfl (joined_sample _)⟩
  · intro name sign tokens value _ hname hsign hvalue
    exact .declare hkeyword hname hsign hvalue

omit hunary in
include hopens in
theorem outcome_functionStatement (hkind : cursor.kind = .function) :
    Outcome strict (Statement outer) cursor.rest (functionStatement deeper cursor) := by
  refine outcome_token_bind hagrees (by simp [hkind]) fun keyword hkeyword => ?_
  refine yields_expect_bind fun name hname => yields_expect_bind fun left hleft => ?_
  have hparameter : Yields strict (expect .identifier .parameters) Parameter :=
    yields_expect.mono (by rintro read token ⟨rfl, htoken⟩; exact .name htoken)
  refine (yields_commaSeparated hparameter).bind fun tokens params hparams => ?_
  refine yields_expect_bind fun right hright => (yields_block hopens).bind ?_
  rintro block ⟨body, close⟩ hblock
  refine yields_pure ?_
  simpa [After] using
    Statement.function (hkeyword.trans hkind) hname hleft hparams hright hblock

include hopens in
theorem outcome_branchStatement (hkind : cursor.kind = .condition) :
    Outcome strict (Statement outer) cursor.rest (branchStatement unary deeper cursor) := by
  refine outcome_token_bind hagrees (by simp [hkind]) fun keyword hkeyword => ?_
  have hkeyword := hkeyword.trans hkind
  refine yields_expect_bind fun left hleft => ?_
  refine (yields_expressionIn hunary).bind fun tokens condition hcondition => ?_
  refine yields_expect_bind fun right hright => yields_expect_bind fun consequence hthen => ?_
  refine (yields_block hopens).bind ?_
  rintro block ⟨body, close⟩ hblock
  refine yields_skip_bind (fun alternative helse => ?_) (yields_pure ?_)
  · refine (yields_block hopens).bind ?_
    rintro other ⟨otherBody, otherClose⟩ hother
    refine yields_pure ?_
    simpa [After] using
      Statement.branchElse hkeyword hleft hcondition hright hthen hblock helse hother
  · simpa [After] using Statement.branch hkeyword hleft hcondition hright hthen hblock

include hopens in
theorem outcome_loopStatement (hkind : cursor.kind = .loop) :
    Outcome strict (Statement outer) cursor.rest (loopStatement unary deeper cursor) := by
  refine outcome_token_bind hagrees (by simp [hkind]) fun keyword hkeyword => ?_
  refine (yields_expressionIn hunary).bind fun tokens count hcount => ?_
  refine yields_expect_bind fun times htimes => (yields_block hopens).bind ?_
  rintro block ⟨body, close⟩ hblock
  refine yields_pure ?_
  simpa [After] using Statement.loop (hkeyword.trans hkind) hcount htimes hblock

theorem outcome_callStatement (hkind : cursor.kind = .identifier) :
    Outcome strict (Statement outer) cursor.rest (callStatement unary cursor) := by
  refine outcome_token_bind hagrees (by simp [hkind]) fun name hname => ?_
  refine yields_expect_bind fun left hleft => ?_
  refine (yields_commaSeparated (yields_expressionIn hunary)).bind fun tokens args hargs => ?_
  refine yields_expect_bind fun right hright => yields_pure ?_
  simpa [After] using Statement.call (hname.trans hkind) hleft hargs hright

omit hagrees hunary in
theorem viable_statement : Viable (Statement outer) [] := by
  have hprint : Statement outer ([Token.Kind.print.sample] ++ [Token.Kind.boolean.sample]) _ :=
    .print rfl .absent (joined_sample _)
  exact ⟨_, by simp [Token.Kind.agrees_sample], _, hprint⟩

include hopens in
theorem outcome_statementOf :
    Outcome strict (Statement outer) cursor.rest (statementOf unary deeper cursor) := by
  unfold statementOf
  rw [peek_bind]
  obtain ⟨last?, tokens⟩ := cursor
  cases tokens with
  | nil => exact ⟨[], rfl, .inr rfl, fun _ => viable_statement⟩
  | cons head rest =>
    dsimp only [List.head?_cons]
    cases hkind : head.kind with
    | print => exact outcome_printStatement hagrees hunary hkind
    | declare => exact outcome_declaration hagrees hunary false hkind
    | declareList => exact outcome_declaration hagrees hunary true hkind
    | function => exact outcome_functionStatement hagrees hopens hkind
    | condition => exact outcome_branchStatement hagrees hunary hopens hkind
    | loop => exact outcome_loopStatement hagrees hunary hopens hkind
    | identifier =>
      -- The token after the name decides between a call and an assignment.
      have hcall : atCall ⟨last?, head :: rest⟩ =
          .ok (rest.head?.any (·.kind = .leftParen), ⟨last?, head :: rest⟩) := rfl
      dsimp only
      rw [bind_of_ok hcall]
      split
      · exact outcome_callStatement hagrees hunary hkind
      · refine outcome_assignmentFrom hagrees hunary (fun _ => viable_statement) ?_
        intro name sign tokens value hhead hname hsign hvalue
        obtain rfl := Option.some.inj hhead
        exact .assign hname hsign hvalue
    | _ =>
      refine ⟨[], rfl, .inr ?_, fun _ => viable_statement⟩
      simp [Cause.found?, Cursor.kind, hkind]

end

theorem yields_statement {room : Nat → ℕ∞} (hrooms : Rooms strict room) (n : Nat) :
    Yields strict (statement n) (Statement (room n)) := by
  induction n with
  | zero =>
    have hopens : Opens strict (none : Option (Reading Stmt)) Statement (room 0) := hrooms.zero
    exact fun cursor hagrees => outcome_statementOf hagrees (yields_unary hrooms 0) hopens
  | succ n ih =>
    have hopens : Opens strict (some (statement n)) Statement (room (n + 1)) :=
      ⟨room n, hrooms.succ n, ih⟩
    exact fun cursor hagrees => outcome_statementOf hagrees (yields_unary hrooms (n + 1)) hopens

/-! ### Programs -/

theorem viable_derives : Viable (Derives room) [] := by
  have hprogram : Derives room [Token.Kind.start.sample, Token.Kind.finish.sample] ⟨[]⟩ :=
    .program rfl .absent .none rfl .absent
  exact ⟨_, by simp [Token.Kind.agrees_sample], _, hprogram⟩

/-- Programs are read by the grammar with as many levels to open, or, if refusals are to be
completed, by the grammar without a limit. -/
theorem yields_programWithin {room : Nat → ℕ∞} (hrooms : Rooms strict room) (n : Nat) :
    Yields strict (programWithin n) (Derives (room n)) := by
  refine yields_skip_bind (fun start hstart => ?_)
    (yields_refuse (fun _ => rfl) fun _ => viable_derives)
  -- What follows the colon, which may be missing, is the same either way.
  have hrest {colon : List Token} (hcolon : Optional .colon colon) :
      Yields strict (do
        let statements ← statementsUntil [.finish, .eof] (statement n)
        if ← skip .finish then
          let _ ← skip .colon
          return Program.mk statements
        else
          refuse .missingFinish
            (some "Programs end with `end:` in plain mode or `samaapt:` in colorful mode."))
        (After (Derives (room n)) (start :: colon)) := by
    refine (yields_statementsUntil (yields_statement hrooms n)).bind fun tokens body hbody => ?_
    have hprogram {finish : Token} (hfinish : finish.kind = .finish) {lastColon : List Token}
        (hlast : Optional .colon lastColon) := Derives.program hstart hcolon hbody hfinish hlast
    refine yields_skip_bind (fun finish hfinish => ?_) (yields_refuse (fun _ => rfl) fun _ => ?_)
    · refine yields_skip_bind (fun lastColon hlast => yields_pure ?_) (yields_pure ?_)
      · simpa [After] using hprogram hfinish (.present hlast)
      · simpa [After] using hprogram hfinish .absent
    · have hend : After (After (Derives (room n)) (start :: colon)) tokens
          [Token.Kind.finish.sample] ⟨body⟩ := by
        simpa [After] using hprogram rfl .absent
      exact viable_of_token .finish hend
  refine yields_skip_bind (fun colon hcolon => ?_) ?_
  · simpa [after_append] using hrest (.present hcolon)
  · simpa using hrest .absent

end Reading

end LineScript
