import LineScript.Proofs.Grammar.Sound

/-!
# What the grammar derives is read

`Reading.Takes reading tokens result rest` says that a reading takes exactly `tokens` off a list
that goes on with `rest`. The main statements are `takes_expression` for expressions,
`takes_statement` for statements and `programWithin_of_derives` for programs: what the grammar
derives is taken, provided that `rest` does not go on with a token that would be read as part of it.

Operators bind to the left, so a derivation of an expression ends where its reading has gone through
a number of steps of a loop. The statement that carries the induction therefore speaks of the loop
with any state (`Reading.Covers`), and only then of the whole reading.
-/

namespace LineScript

/-- The kind of the first token of a list. -/
def headKind (tokens : List Token) : Token.Kind :=
  Cursor.kind ⟨none, tokens⟩

@[simp]
theorem headKind_cons (head : Token) (rest : List Token) :
    headKind (head :: rest) = head.kind := rfl

theorem BinaryOperator.kind_injective {first second : BinaryOperator}
    (h : first.kind = second.kind) : first = second := by
  revert h
  cases first <;> cases second <;> decide

/-- Tokens that are no literals stand for their text. -/
theorem Token.Agrees.exists_text {token : Token} (h : token.Agrees)
    (hkind : token.kind ∉ [.number, .string, .boolean, .array]) :
    ∃ text, token.payload = .text text := by
  revert h hkind
  unfold Agrees
  cases token.payload with
  | text text => exact fun _ _ => ⟨text, rfl⟩
  | _ => cases token.kind <;> simp [Kind.fits]

namespace Grammar

/-- Every expression begins with a token that an expression may begin with. -/
theorem Joined.exists_head {classes : List (List BinaryOperator)} {room : ℕ∞}
    {tokens : List Token} {expr : Expr} (h : Joined classes room tokens expr) :
    ∃ head rest, tokens = head :: rest ∧ head.kind.startsExpression = true := by
  induction h with
  | number hkind | string hkind | boolean hkind | array hkind | identifier hkind
  | index hkind | property hkind | group hkind => exact ⟨_, _, rfl, by rw [hkind]; rfl⟩
  | @unary _ sign _ operator _ hkind => exact ⟨_, _, rfl, by rw [hkind]; cases operator <;> rfl⟩
  | tighter _ ih => exact ih
  | binary _ _ _ _ ih =>
    obtain ⟨head, rest, rfl, hstarts⟩ := ih
    exact ⟨head, _, rfl, hstarts⟩

/-- The tokens to come do not go on with an expression of the given classes. -/
structure Ends (classes : List (List BinaryOperator)) (rest : List Token) : Prop where
  /-- No index of a name comes. -/
  bracket : headKind rest ≠ .leftBracket
  /-- No property of a name comes. -/
  dot : headKind rest ≠ .dot
  /-- No operator of the classes comes. -/
  operator : ∀ operator ∈ classes.flatten, operator.kind ≠ headKind rest

/-- Items with commas between them begin as their first item does. -/
theorem Separated.headKind_ne {α : Type} {Item : List Token → α → Prop} {kind : Token.Kind}
    (hhead : ∀ {tokens : List Token} {a : α} (rest : List Token), Item tokens a →
      headKind (tokens ++ rest) ≠ kind)
    {tokens : List Token} {items : List α} (h : Separated Item tokens items) (rest : List Token) :
    headKind (tokens ++ rest) ≠ kind := by
  induction h generalizing rest with
  | one hitem => exact hhead rest hitem
  | more _ _ _ ih =>
    rw [List.append_assoc]
    exact ih _

/-- The kinds of tokens that an expression can go on with. -/
def continuations : List Token.Kind :=
  [.leftBracket, .dot, .plus, .minus, .star, .slash, .equal, .notEqual, .less, .greater, .and, .or]

theorem Ends.of_headKind {classes : List (List BinaryOperator)} {rest : List Token}
    (h : headKind rest ∉ continuations) : Ends classes rest := by
  have hne (kind : Token.Kind) (hkind : kind ∈ continuations) : headKind rest ≠ kind :=
    fun heq => h (heq ▸ hkind)
  refine ⟨hne _ (by decide), hne _ (by decide), fun operator _ => (hne _ ?_).symm⟩
  cases operator <;> decide

/-- An operator is not part of what the tighter classes derive before it. -/
theorem Ends.of_operator {classes : List (List BinaryOperator)} {operators : List BinaryOperator}
    {operator : BinaryOperator} {sign : Token} (hnodup : (operators :: classes).flatten.Nodup)
    (hmem : operator ∈ operators) (hsign : sign.kind = operator.kind) (rest : List Token) :
    Ends classes (sign :: rest) := by
  refine ⟨?_, ?_, ?_⟩
  · rw [headKind_cons, hsign]
    cases operator <;> decide
  · rw [headKind_cons, hsign]
    cases operator <;> decide
  · intro other hother heq
    rw [headKind_cons, hsign] at heq
    rw [BinaryOperator.kind_injective heq] at hother
    exact (List.nodup_append.mp hnodup).2.2 operator hmem operator hother rfl

end Grammar

namespace Reading

open Grammar

variable {α β : Type}

/-- A reading takes `tokens` off a list that goes on with `rest`. -/
def Takes (reading : Reading α) (tokens : List Token) (result : α) (rest : List Token) : Prop :=
  ∀ last?, ∃ next?, reading ⟨last?, tokens ++ rest⟩ = .ok (result, ⟨next?, rest⟩)

theorem takes_pure (a : α) (rest : List Token) : Takes (pure a) [] a rest :=
  fun last? => ⟨last?, rfl⟩

theorem Takes.bind {reading : Reading α} {next : α → Reading β} {tokens more rest : List Token}
    {a : α} {b : β} (h : Takes reading tokens a (more ++ rest))
    (hnext : Takes (next a) more b rest) :
    Takes (reading >>= next) (tokens ++ more) b rest := by
  intro last?
  obtain ⟨middle?, hreading⟩ := h last?
  obtain ⟨next?, hsecond⟩ := hnext middle?
  refine ⟨next?, ?_⟩
  rw [List.append_assoc, bind_of_ok hreading, hsecond]

theorem Takes.bind_last {reading : Reading α} {next : α → Reading β} {tokens rest : List Token}
    {a : α} {b : β} (h : Takes reading tokens a rest) (hnext : Takes (next a) [] b rest) :
    Takes (reading >>= next) tokens b rest := by
  have hbind : Takes (reading >>= next) (tokens ++ []) b rest := h.bind hnext
  rwa [List.append_nil] at hbind

theorem takes_token (head : Token) (rest : List Token) : Takes token [head] head rest :=
  fun _ => ⟨some head, rfl⟩

theorem takes_expect {kind : Token.Kind} {construct : Construct} {help : Option String}
    {head : Token} (h : head.kind = kind) (rest : List Token) :
    Takes (expect kind construct help) [head] head rest :=
  fun _ => ⟨some head, if_pos h⟩

theorem takes_skip {kind : Token.Kind} {head : Token} (h : head.kind = kind) (rest : List Token) :
    Takes (skip kind) [head] true rest :=
  fun _ => ⟨some head, if_pos h⟩

theorem takes_skip_of_ne {kind : Token.Kind} {rest : List Token} (h : headKind rest ≠ kind) :
    Takes (skip kind) [] false rest := by
  intro last?
  refine ⟨last?, ?_⟩
  cases rest with
  | nil => rfl
  | cons head rest => exact if_neg h

theorem takes_skip_of_optional {kind : Token.Kind} {tokens rest : List Token}
    (h : Optional kind tokens) (hrest : headKind rest ≠ kind) :
    ∃ found, Takes (skip kind) tokens found rest := by
  cases h with
  | absent => exact ⟨false, takes_skip_of_ne hrest⟩
  | present hkind => exact ⟨true, takes_skip hkind rest⟩

theorem Takes.kind_bind {next : Token.Kind → Reading α} {tokens rest : List Token} {a : α}
    (h : Takes (next (headKind (tokens ++ rest))) tokens a rest) :
    Takes (kind >>= next) tokens a rest :=
  h

theorem takes_nested {inner : α} {body : α → Reading β} {tokens rest : List Token} {b : β}
    (h : Takes (body inner) tokens b rest) : Takes (nested (some inner) body) tokens b rest :=
  h

theorem takes_startingIn {construct : Construct} {help : Option String} {body : Reading Expr}
    {classes : List (List BinaryOperator)} {room : ℕ∞} {tokens rest : List Token} {expr : Expr}
    (hjoined : Joined classes room tokens expr) (h : Takes body tokens expr rest) :
    Takes (startingIn construct help body) tokens expr rest := by
  obtain ⟨head, more, rfl, hstarts⟩ := hjoined.exists_head
  refine Takes.kind_bind ?_
  rw [List.cons_append, headKind_cons, if_pos hstarts]
  exact h

/-! ### Expressions -/

/-- Reads an expression of the given classes where `n` more levels may be opened. -/
def joinedWithin (classes : List (List BinaryOperator)) (n : Nat) : Reading Expr :=
  (classes.map levelOf).foldr chain (unary n)

theorem lookup_levelOf {operators : List BinaryOperator} {operator : BinaryOperator}
    (h : operator ∈ operators) : (levelOf operators).lookup operator.kind = some operator := by
  induction operators with
  | nil => simp at h
  | cons first others ih =>
    rw [levelOf, List.map_cons, List.lookup_cons]
    by_cases hkind : operator.kind = first.kind
    · simp [BinaryOperator.kind_injective hkind]
    · have hne : operator ≠ first := fun heq => hkind (by rw [heq])
      have hmem : operator ∈ others := (List.mem_cons.mp h).resolve_left hne
      have hbeq : (operator.kind == first.kind) = false := by simpa using hkind
      rw [hbeq]
      exact ih hmem

theorem lookup_levelOf_eq_none {operators : List BinaryOperator} {kind : Token.Kind}
    (h : ∀ operator ∈ operators, operator.kind ≠ kind) :
    (levelOf operators).lookup kind = none := by
  cases hlookup : (levelOf operators).lookup kind with
  | none => rfl
  | some operator =>
    obtain ⟨hmem, hkind⟩ := mem_of_lookup_levelOf hlookup
    exact absurd hkind (h operator hmem)

/-- What the reading of an expression does with tokens it is derived from. Where an operator of the
loosest class may follow, the reading is in its loop, and the expression is the state of the loop.
-/
def Covers (classes : List (List BinaryOperator)) (n : Nat) (tokens : List Token) (expr : Expr) :
    Prop :=
  match classes with
  | [] => ∀ rest, Ends [] rest → Takes (unary n) tokens expr rest
  | operators :: tighter => ∀ rest, Ends tighter rest → ∀ last?, ∃ next?,
      joinedWithin (operators :: tighter) n ⟨last?, tokens ++ rest⟩ =
        iterate (joined? (levelOf operators) (joinedWithin tighter n)) expr ⟨next?, rest⟩

/-- The loop ends where no operator follows. -/
theorem Covers.takes {classes : List (List BinaryOperator)} {n : Nat} {tokens rest : List Token}
    {expr : Expr} (h : Covers classes n tokens expr) (hends : Ends classes rest) :
    Takes (joinedWithin classes n) tokens expr rest := by
  cases classes with
  | nil => exact h rest hends
  | cons operators tighter =>
    have htighter : Ends tighter rest :=
      ⟨hends.bracket, hends.dot, fun operator hmem =>
        hends.operator operator (List.mem_append_right _ hmem)⟩
    intro last?
    obtain ⟨next?, hloop⟩ := h rest htighter last?
    have hlookup : (levelOf operators).lookup (Cursor.kind ⟨next?, rest⟩) = none :=
      lookup_levelOf_eq_none fun operator hmem =>
        hends.operator operator (List.mem_append_left _ hmem)
    have hstop : joined? (levelOf operators) (joinedWithin tighter n) expr ⟨next?, rest⟩ =
        .ok (none, ⟨next?, rest⟩) := by
      rw [joined?, Reading.kind_bind, hlookup]
      rfl
    exact ⟨next?, by rw [hloop, iterate_of_stop hstop]⟩

/-- One more operator with its right operand is one more turn of the loop. -/
theorem joined?_of_operator {operators : List BinaryOperator} {operand : Reading Expr}
    {operator : BinaryOperator} {sign : Token} {left right : Expr} {tokens rest : List Token}
    {classes : List (List BinaryOperator)} {room : ℕ∞} (hmem : operator ∈ operators)
    (hsign : sign.kind = operator.kind) (hjoined : Joined classes room tokens right)
    (h : Takes operand tokens right rest) :
    Takes (joined? (levelOf operators) operand left) (sign :: tokens)
      (some (.binary operator left right (left.span.cover right.span))) rest := by
  refine Takes.kind_bind ?_
  rw [List.cons_append, headKind_cons, hsign, lookup_levelOf hmem]
  refine (takes_token sign _).bind ?_
  exact (takes_startingIn hjoined h).bind_last (takes_pure _ _)

theorem exists_eq_succ_of_add_one_eq {room : ℕ∞} {n : Nat} (h : room + 1 = n) :
    ∃ m : Nat, n = m + 1 ∧ room = m := by
  have hroom : room ≠ ⊤ := by
    rintro rfl
    simp at h
  lift room to Nat using hroom
  exact ⟨room, by exact_mod_cast h.symm, rfl⟩

/-! ### Operands -/

section

variable {deeper : Option (Reading Expr)} {last? : Option Token} {head : Token} {rest : List Token}

theorem unaryOf_of_kind (hnot : head.kind ≠ .not) (hminus : head.kind ≠ .minus) :
    unaryOf deeper ⟨last?, head :: rest⟩ = primary deeper ⟨last?, head :: rest⟩ := by
  have hcursor : Cursor.kind ⟨last?, head :: rest⟩ = head.kind := rfl
  rw [unaryOf, Reading.kind_bind, hcursor]
  cases hkind : head.kind <;> first | rfl | exact absurd hkind ‹_›

theorem unaryOf_of_operator {operator : UnaryOperator} (h : head.kind = operator.kind) :
    unaryOf deeper ⟨last?, head :: rest⟩ = negation operator deeper ⟨last?, head :: rest⟩ := by
  have hkind : Cursor.kind ⟨last?, head :: rest⟩ = operator.kind := h
  rw [unaryOf, Reading.kind_bind, hkind]
  cases operator <;> rfl

theorem primary_of_identifier (hagrees : head.Agrees) (h : head.kind = .identifier) :
    primary deeper ⟨last?, head :: rest⟩ =
      nameTail deeper head.text head.span ⟨some head, rest⟩ := by
  obtain ⟨text, hpayload⟩ := hagrees.exists_text (by simp [h])
  rw [Token.text_of_payload hpayload, primary, peek_bind]
  simp only [List.head?_cons, hpayload, h]
  rfl

theorem primary_of_leftParen (hagrees : head.Agrees) (h : head.kind = .leftParen) :
    primary deeper ⟨last?, head :: rest⟩ = groupTail deeper ⟨some head, rest⟩ := by
  obtain ⟨text, hpayload⟩ := hagrees.exists_text (by simp [h])
  rw [primary, peek_bind]
  simp only [List.head?_cons, hpayload, h]
  rfl

/-- An operand that no operator stands before is a primary one. -/
theorem takes_unaryOf_of_primary {tokens : List Token} {expr : Expr} (hnot : head.kind ≠ .not)
    (hminus : head.kind ≠ .minus) (h : Takes (primary deeper) (head :: tokens) expr rest) :
    Takes (unaryOf deeper) (head :: tokens) expr rest := by
  intro last?
  obtain ⟨next?, hprimary⟩ := h last?
  exact ⟨next?, by rw [List.cons_append, unaryOf_of_kind hnot hminus]; exact hprimary⟩

/-- A name is followed by what may follow it. -/
theorem takes_unaryOf_of_nameTail {tokens : List Token} {expr : Expr} (hagrees : head.Agrees)
    (hkind : head.kind = .identifier)
    (h : Takes (nameTail deeper head.text head.span) tokens expr rest) :
    Takes (unaryOf deeper) (head :: tokens) expr rest := by
  refine takes_unaryOf_of_primary (by simp [hkind]) (by simp [hkind]) fun last? => ?_
  rw [List.cons_append, primary_of_identifier hagrees hkind]
  exact h (some head)

end

/-- Where a reading does not depend on the levels to open, it may open any number of them. -/
theorem takes_unary_of_forall {n : Nat} {tokens rest : List Token} {expr : Expr}
    (h : ∀ deeper, Takes (unaryOf deeper) tokens expr rest) : Takes (unary n) tokens expr rest := by
  cases n with
  | zero => exact h none
  | succ n => exact h (some (unary n))

/-- A literal is an operand. -/
theorem takes_unary_of_literal {n : Nat} {head : Token} {rest : List Token} {expr : Expr}
    (hkind : head.kind ∈ [.number, .string, .boolean, .array])
    (h : ∀ deeper last?, primary deeper ⟨last?, head :: rest⟩ = .ok (expr, ⟨some head, rest⟩)) :
    Takes (unary n) [head] expr rest := by
  refine takes_unary_of_forall fun deeper => takes_unaryOf_of_primary ?_ ?_ ?_
  · rintro hnot
    simp [hnot] at hkind
  · rintro hminus
    simp [hminus] at hkind
  · exact fun last? => ⟨some head, h deeper last?⟩

theorem takes_expressionIn {construct : Construct} {n : Nat} {room : ℕ∞} {tokens rest : List Token}
    {expr : Expr} (hexpr : Expression room tokens expr)
    (h : Takes (joinedWithin precedence n) tokens expr rest) :
    Takes (expressionIn construct (unary n)) tokens expr rest :=
  takes_startingIn hexpr h

/-- What the grammar derives is covered by the reading that may open as many levels. -/
theorem covers_joined {classes : List (List BinaryOperator)} {room : ℕ∞} {tokens : List Token}
    {expr : Expr} (h : Joined classes room tokens expr) {n : Nat} (hroom : room = n)
    (hnodup : classes.flatten.Nodup) (hagrees : ∀ token ∈ tokens, token.Agrees) :
    Covers classes n tokens expr := by
  induction h generalizing n with
  | number hkind hpayload | string hkind hpayload | boolean hkind hpayload
  | array hkind hpayload =>
    intro rest _
    refine takes_unary_of_literal (by simp [hkind]) fun deeper last? => ?_
    rw [primary, peek_bind]
    simp only [List.head?_cons, hpayload]
    rfl
  | @identifier room name hname =>
    intro rest hends
    refine takes_unary_of_forall fun deeper => ?_
    refine takes_unaryOf_of_nameTail (hagrees name (by simp)) hname ?_
    refine (takes_skip_of_ne hends.bracket).bind_last ?_
    exact (takes_skip_of_ne hends.dot).bind_last (takes_pure _ _)
  | @property room name dot property hname hdot hproperty =>
    intro rest _
    refine takes_unary_of_forall fun deeper => ?_
    refine takes_unaryOf_of_nameTail (hagrees name (by simp)) hname ?_
    have hbracket : headKind (dot :: property :: rest) ≠ .leftBracket := by simp [hdot]
    refine Takes.bind (takes_skip_of_ne hbracket) ((takes_skip hdot _).bind ?_)
    exact (takes_expect hproperty rest).bind_last (takes_pure _ _)
  | @index room name left right tokens position hname hleft hposition hright ih =>
    obtain ⟨m, rfl, hm⟩ := exists_eq_succ_of_add_one_eq hroom
    have htokens : ∀ token ∈ tokens, token.Agrees :=
      fun token hmem => hagrees token (by simp [hmem])
    intro rest _
    have hinner : Takes (nested (some (unary m)) (expressionIn .index)) tokens position
        (right :: rest) :=
      takes_expressionIn hposition ((ih hm (by decide) htokens).takes
        (.of_headKind (by rw [headKind_cons, hright]; decide)))
    have htail : Takes (nameTail (some (unary m)) name.text name.span) (left :: (tokens ++ [right]))
        (.index name.text position (name.span.cover right.span)) rest := by
      refine (takes_skip hleft _).bind (Takes.bind hinner ?_)
      exact (takes_expect hright rest).bind_last (takes_pure _ _)
    exact takes_unaryOf_of_nameTail (hagrees name (by simp)) hname htail
  | @group room left right tokens expr hleft hexpr hright ih =>
    obtain ⟨m, rfl, hm⟩ := exists_eq_succ_of_add_one_eq hroom
    have htokens : ∀ token ∈ tokens, token.Agrees :=
      fun token hmem => hagrees token (by simp [hmem])
    intro rest _
    have hinner : Takes (nested (some (unary m)) (expressionIn .grouping)) tokens expr
        (right :: rest) :=
      takes_expressionIn hexpr ((ih hm (by decide) htokens).takes
        (.of_headKind (by rw [headKind_cons, hright]; decide)))
    have htail : Takes (groupTail (some (unary m))) (tokens ++ [right]) expr rest := by
      refine Takes.bind hinner (Takes.bind_last (takes_expect hright rest) ?_)
      exact takes_pure _ _
    have hprimary : Takes (primary (some (unary m))) (left :: (tokens ++ [right])) expr rest := by
      intro last?
      rw [List.cons_append, primary_of_leftParen (hagrees left (by simp)) hleft]
      exact htail (some left)
    exact takes_unaryOf_of_primary (by simp [hleft]) (by simp [hleft]) hprimary
  | @unary room sign tokens operator operand hsign hoperand ih =>
    obtain ⟨m, rfl, hm⟩ := exists_eq_succ_of_add_one_eq hroom
    have htokens : ∀ token ∈ tokens, token.Agrees :=
      fun token hmem => hagrees token (by simp [hmem])
    intro rest hends
    have hinner := ih hm hnodup htokens rest hends
    have hnegation : Takes (negation operator (some (unary m))) (sign :: tokens)
        (.unary operator operand (sign.span.cover operand.span)) rest := by
      refine (takes_token sign _).bind (Takes.bind_last (takes_nested ?_) (takes_pure _ _))
      exact takes_startingIn hoperand hinner
    intro last?
    obtain ⟨next?, hresult⟩ := hnegation last?
    refine ⟨next?, ?_⟩
    rw [List.cons_append] at hresult ⊢
    rw [← hresult]
    exact unaryOf_of_operator hsign
  | tighter hjoined ih =>
    intro rest hends last?
    obtain ⟨next?, hfirst⟩ := (ih hroom (List.nodup_append.mp hnodup).2.1 hagrees).takes hends last?
    exact ⟨next?, bind_of_ok hfirst⟩
  | @binary classes operators room tokens more sign operator left right hleft hmem hsign hright
      ihleft ihright =>
    have hagreesLeft : ∀ token ∈ tokens, token.Agrees := fun token hmem =>
      hagrees token (by simp [hmem])
    have hagreesRight : ∀ token ∈ more, token.Agrees := fun token hmem =>
      hagrees token (by simp [hmem])
    intro rest hends last?
    -- The left operand leaves the loop at the operator, and one more turn reads the right one.
    have hstep : Takes (joined? (levelOf operators) (joinedWithin classes n) left) (sign :: more)
        (some (.binary operator left right (left.span.cover right.span))) rest :=
      joined?_of_operator hmem hsign hright
        ((ihright hroom (List.nodup_append.mp hnodup).2.1 hagreesRight).takes hends)
    obtain ⟨middle?, hloop⟩ := ihleft hroom hnodup hagreesLeft (sign :: (more ++ rest))
      (.of_operator hnodup hmem hsign _) last?
    obtain ⟨next?, hturn⟩ := hstep middle?
    rw [List.cons_append] at hturn
    refine ⟨next?, ?_⟩
    rw [List.append_assoc, List.cons_append, hloop, iterate_of_step hturn]
    simp only [List.length_cons, List.length_append]
    omega

theorem takes_expression {construct : Construct} {room : ℕ∞} {n : Nat} {tokens rest : List Token}
    {expr : Expr} (hroom : room = n) (h : Expression room tokens expr)
    (hagrees : ∀ token ∈ tokens, token.Agrees) (hrest : headKind rest ∉ continuations) :
    Takes (expressionIn construct (unary n)) tokens expr rest :=
  takes_expressionIn h ((covers_joined h hroom (by decide) hagrees).takes (.of_headKind hrest))

/-! ### Statements -/

/-- A turn of a loop that takes something is followed by the next turn. -/
theorem Takes.iterate {σ : Type} {step : σ → Reading (Option σ)} {state next : σ}
    {tokens rest : List Token} (h : Takes (step state) tokens (some next) rest)
    (hsome : tokens ≠ []) (last? : Option Token) :
    ∃ next?, iterate step state ⟨last?, tokens ++ rest⟩ = iterate step next ⟨next?, rest⟩ := by
  obtain ⟨next?, hstep⟩ := h last?
  refine ⟨next?, iterate_of_step hstep ?_⟩
  have hlength : 0 < tokens.length := List.length_pos_iff.mpr hsome
  simp only [List.length_append]
  omega

/-- A turn of a loop without anything to add is its last. -/
theorem Takes.iterate_stop {σ : Type} {step : σ → Reading (Option σ)} {state : σ}
    {rest : List Token} (h : Takes (step state) [] none rest) :
    Takes (Reading.iterate step state) [] state rest := by
  intro last?
  obtain ⟨next?, hstep⟩ := h last?
  exact ⟨next?, iterate_of_stop hstep⟩

section

variable {item : Reading α} {Item : List Token → α → Prop}
  (hitem : ∀ {tokens : List Token} {a : α} {rest : List Token}, Item tokens a →
    (∀ token ∈ tokens, token.Agrees) → headKind rest ∈ [.comma, .rightParen] →
      Takes item tokens a rest)

include hitem

/-- Items with commas between them leave the loop with all of them as its state. -/
theorem iterate_of_separated (construct : Construct) {tokens rest : List Token} {items : List α}
    (h : Separated Item tokens items) (hagrees : ∀ token ∈ tokens, token.Agrees)
    (hrest : headKind rest ∈ [.comma, .rightParen]) (last? : Option Token) :
    ∃ next?, (do iterate (itemAfter? construct item) [← item] : Reading (List α))
        ⟨last?, tokens ++ rest⟩ =
      iterate (itemAfter? construct item) items.reverse ⟨next?, rest⟩ := by
  induction h generalizing rest with
  | one hone =>
    obtain ⟨next?, hfirst⟩ := hitem hone hagrees hrest last?
    exact ⟨next?, bind_of_ok hfirst⟩
  | @more tokens more items comma a hseparated hcomma hone ih =>
    have hagreesFirst : ∀ token ∈ tokens, token.Agrees := fun token hmem =>
      hagrees token (by simp [hmem])
    have hagreesLast : ∀ token ∈ more, token.Agrees := fun token hmem =>
      hagrees token (by simp [hmem])
    -- The last item is one more turn of the loop, which the comma keeps from ending.
    have hstep : Takes (itemAfter? construct item items.reverse) (comma :: more)
        (some (a :: items.reverse)) rest := by
      refine Takes.kind_bind ?_
      rw [List.cons_append, headKind_cons, if_neg (by simp [hcomma])]
      refine (takes_expect hcomma _).bind ?_
      exact (hitem hone hagreesLast hrest).bind_last (takes_pure _ _)
    have hcommaRest : headKind (comma :: (more ++ rest)) ∈ [.comma, .rightParen] := by simp [hcomma]
    obtain ⟨middle?, hloop⟩ := ih hagreesFirst hcommaRest
    obtain ⟨next?, hturn⟩ := hstep.iterate (by simp) middle?
    refine ⟨next?, ?_⟩
    rw [List.append_assoc, List.cons_append, hloop, ← List.cons_append, hturn,
      List.reverse_append]
    rfl

/-- Items with commas between them are taken up to the closing parenthesis. -/
theorem takes_commaSeparated {construct : Construct} {tokens rest : List Token} {items : List α}
    (hhead : ∀ {tokens : List Token} {a : α} (rest : List Token), Item tokens a →
      headKind (tokens ++ rest) ≠ .rightParen)
    (h : Listed Item tokens items) (hagrees : ∀ token ∈ tokens, token.Agrees)
    (hrest : headKind rest = .rightParen) :
    Takes (commaSeparated construct item) tokens items rest := by
  cases h with
  | none =>
    refine Takes.kind_bind ?_
    rw [List.nil_append, if_pos hrest]
    exact takes_pure _ _
  | some hseparated =>
    -- After the items the loop ends at the parenthesis.
    have hstop : Takes (itemAfter? construct item items.reverse) [] none rest := by
      refine Takes.kind_bind ?_
      rw [List.nil_append, if_pos hrest]
      exact takes_pure _ _
    have hloop : Takes (do iterate (itemAfter? construct item) [← item] : Reading (List α)) tokens
        items.reverse rest := by
      intro last?
      have hrest' : headKind rest ∈ [.comma, .rightParen] := by simp [hrest]
      obtain ⟨middle?, hitems⟩ :=
        iterate_of_separated hitem construct hseparated hagrees hrest' last?
      obtain ⟨next?, hend⟩ := hstop.iterate_stop middle?
      exact ⟨next?, hitems.trans hend⟩
    refine Takes.kind_bind ?_
    rw [if_neg (hseparated.headKind_ne hhead rest), ← bind_assoc]
    refine hloop.bind_last ?_
    rw [List.reverse_reverse]
    exact takes_pure _ _

end

section

variable {room : ℕ∞} {n : Nat} {deeper : Option (Reading Stmt)} {tokens rest : List Token}
  (hroom : room = n) (hagrees : ∀ token ∈ tokens, token.Agrees)

include hroom hagrees

theorem takes_printStatement {keyword : Token} {colon : List Token} {value : Expr}
    (hcolon : Optional .colon colon) (hvalue : Expression room tokens value)
    (hrest : headKind rest ∉ continuations) :
    Takes (printStatement (unary n)) (keyword :: (colon ++ tokens))
      (.print value (keyword.span.cover value.span)) rest := by
  have hexpression : Takes (expressionIn .print (unary n)) tokens value rest :=
    takes_expression hroom hvalue hagrees hrest
  -- No expression begins with a colon.
  have hne : headKind (tokens ++ rest) ≠ .colon := by
    obtain ⟨head, more, rfl, hstarts⟩ := hvalue.exists_head
    rintro hcolon
    rw [List.cons_append, headKind_cons] at hcolon
    rw [hcolon] at hstarts
    exact absurd hstarts (by decide)
  obtain ⟨found, hskip⟩ := takes_skip_of_optional hcolon hne
  refine (takes_token keyword _).bind (hskip.bind ?_)
  exact hexpression.bind_last (takes_pure _ _)

theorem takes_assignmentFrom {start : Span} {construct : Construct} {isList : Bool}
    {name sign : Token} {value : Expr} (hname : name.kind = .identifier)
    (hsign : sign.kind = .assign) (hvalue : Expression room tokens value)
    (hrest : headKind rest ∉ continuations) :
    Takes (assignmentFrom start construct isList (unary n)) (name :: sign :: tokens)
      (.assign name.text value isList (start.cover value.span)) rest := by
  refine (takes_expect hname _).bind ((takes_expect hsign _).bind ?_)
  exact (takes_expression hroom hvalue hagrees hrest).bind_last (takes_pure _ _)

omit hroom in
theorem takes_functionStatement {keyword name left right : Token} {block : List Token}
    {params : List Token} {body : List Stmt} {close : Span} (hname : name.kind = .identifier)
    (hleft : left.kind = .leftParen) (hparams : Listed Parameter tokens params)
    (hright : right.kind = .rightParen)
    (hblock : Takes (Reading.block .function deeper) block (body, close) rest) :
    Takes (functionStatement deeper) (keyword :: name :: left :: (tokens ++ right :: block))
      (.function name.text (params.map Token.text) body (keyword.span.cover close)) rest := by
  have hlist : Takes (commaSeparated .parameters (expect .identifier .parameters)) tokens params
      (right :: (block ++ rest)) := by
    refine takes_commaSeparated ?_ ?_ hparams hagrees hright
    · rintro _ _ rest ⟨hparam⟩ _ _
      exact takes_expect hparam rest
    · rintro _ _ rest ⟨hparam⟩
      simp [hparam]
  refine (takes_token keyword _).bind ((takes_expect hname _).bind ((takes_expect hleft _).bind ?_))
  refine Takes.bind hlist ((takes_expect hright _).bind ?_)
  exact hblock.bind_last (takes_pure _ _)

theorem takes_branchStatement {keyword left right consequence : Token} {block : List Token}
    {condition : Expr} {body : List Stmt} {close : Span}
    (hleft : left.kind = .leftParen) (hcondition : Expression room tokens condition)
    (hright : right.kind = .rightParen) (hthen : consequence.kind = .consequence)
    (hblock : Takes (Reading.block .condition deeper) block (body, close) rest)
    (hrest : headKind rest ≠ .alternative) :
    Takes (branchStatement (unary n) deeper)
      (keyword :: left :: (tokens ++ right :: consequence :: block))
      (.branch condition body none (keyword.span.cover close)) rest := by
  refine (takes_token keyword _).bind ((takes_expect hleft _).bind ?_)
  refine (takes_expression hroom hcondition hagrees (by simp [hright, continuations])).bind ?_
  refine (takes_expect hright _).bind ((takes_expect hthen _).bind (hblock.bind_last ?_))
  exact (takes_skip_of_ne hrest).bind_last (takes_pure _ _)

theorem takes_branchStatement_alternative {keyword left right consequence alternative : Token}
    {block other : List Token} {condition : Expr} {body otherBody : List Stmt}
    {close otherClose : Span} (hleft : left.kind = .leftParen)
    (hcondition : Expression room tokens condition) (hright : right.kind = .rightParen)
    (hthen : consequence.kind = .consequence)
    (hblock : Takes (Reading.block .condition deeper) block (body, close)
      (alternative :: (other ++ rest)))
    (helse : alternative.kind = .alternative)
    (hother : Takes (Reading.block .condition deeper) other (otherBody, otherClose) rest) :
    Takes (branchStatement (unary n) deeper)
      (keyword :: left :: (tokens ++ right :: consequence :: (block ++ alternative :: other)))
      (.branch condition body (some otherBody) (keyword.span.cover otherClose)) rest := by
  refine (takes_token keyword _).bind ((takes_expect hleft _).bind ?_)
  refine (takes_expression hroom hcondition hagrees (by simp [hright, continuations])).bind ?_
  refine (takes_expect hright _).bind ((takes_expect hthen _).bind (Takes.bind hblock ?_))
  exact (takes_skip helse _).bind (hother.bind_last (takes_pure _ _))

theorem takes_loopStatement {keyword times : Token} {block : List Token} {count : Expr}
    {body : List Stmt} {close : Span} (hcount : Expression room tokens count)
    (htimes : times.kind = .times)
    (hblock : Takes (Reading.block .loop deeper) block (body, close) rest) :
    Takes (loopStatement (unary n) deeper) (keyword :: (tokens ++ times :: block))
      (.loop count body (keyword.span.cover close)) rest := by
  refine (takes_token keyword _).bind ?_
  refine (takes_expression hroom hcount hagrees (by simp [htimes, continuations])).bind ?_
  exact (takes_expect htimes _).bind (hblock.bind_last (takes_pure _ _))

theorem takes_callStatement {name left right : Token} {args : List Expr}
    (hleft : left.kind = .leftParen) (hargs : Listed (Expression room) tokens args)
    (hright : right.kind = .rightParen) :
    Takes (callStatement (unary n)) (name :: left :: (tokens ++ [right]))
      (.call name.text args (name.span.cover right.span)) rest := by
  have hlist : Takes (commaSeparated .call (expressionIn .call (unary n))) tokens args
      (right :: rest) := by
    refine takes_commaSeparated ?_ ?_ hargs hagrees hright
    · intro tokens arg rest harg hagrees hrest
      -- Neither a comma nor a parenthesis would be read as part of an argument.
      refine takes_expression hroom harg hagrees fun hmem => ?_
      simp only [List.mem_cons, List.not_mem_nil, or_false] at hrest
      rcases hrest with hcomma | hparen
      · exact absurd (hcomma ▸ hmem) (by decide)
      · exact absurd (hparen ▸ hmem) (by decide)
    · intro tokens arg rest harg hparen
      obtain ⟨head, more, rfl, hstarts⟩ := harg.exists_head
      rw [List.cons_append, headKind_cons] at hparen
      rw [hparen] at hstarts
      exact absurd hstarts (by decide)
  refine (takes_token name _).bind ((takes_expect hleft _).bind (Takes.bind hlist ?_))
  exact (takes_expect hright rest).bind_last (takes_pure _ _)

end

/-- The reading for the next level further in, where `n` more levels may be opened. -/
def deeperStatement : Nat → Option (Reading Stmt)
  | 0 => none
  | n + 1 => some (statement n)

/-- A statement is read as the reading says that its first token calls for. -/
theorem takes_statement_of {n : Nat} {head : Token} {tokens rest : List Token} {stmt : Stmt}
    {reading : Reading Stmt} (h : Takes reading (head :: tokens) stmt rest)
    (hread : ∀ last?, statementOf (unary n) (deeperStatement n) ⟨last?, head :: (tokens ++ rest)⟩ =
      reading ⟨last?, head :: (tokens ++ rest)⟩) :
    Takes (statement n) (head :: tokens) stmt rest := by
  intro last?
  obtain ⟨next?, hreading⟩ := h last?
  refine ⟨next?, ?_⟩
  rw [← hreading, List.cons_append, ← hread last?]
  cases n <;> rfl

/-- The kinds of tokens that a statement begins with. -/
def starters : List Token.Kind :=
  [.print, .declare, .declareList, .function, .condition, .loop, .identifier]

theorem exists_head_of_statement {room : ℕ∞} {tokens : List Token} {stmt : Stmt}
    (h : Statement room tokens stmt) :
    ∃ head rest, tokens = head :: rest ∧ head.kind ∈ starters := by
  cases h with
  | @declare _ _ _ _ _ _ isList hkeyword =>
    exact ⟨_, _, rfl, by rw [hkeyword]; cases isList <;> decide⟩
  | print hkind | assign hkind | function hkind | branch hkind | branchElse hkind | loop hkind
  | call hkind => exact ⟨_, _, rfl, by rw [hkind]; decide⟩

/-- A statement is followed by another one without being confused with it. -/
theorem headKind_starter {kind : Token.Kind} (h : kind ∈ starters) :
    kind ∉ .alternative :: continuations := by
  revert h
  cases kind <;> decide

/-- One more statement is one more turn of the loop. -/
theorem takes_statementAfter? {stops : List Token.Kind} {statement : Reading Stmt}
    {statements : List Stmt} {room : ℕ∞} {tokens rest : List Token} {stmt : Stmt}
    (hderives : Statement room tokens stmt) (hstops : ∀ kind ∈ starters, kind ∉ stops)
    (h : Takes statement tokens stmt rest) :
    Takes (statementAfter? stops statement statements) tokens (some (stmt :: statements)) rest := by
  obtain ⟨head, more, rfl, hhead⟩ := exists_head_of_statement hderives
  refine Takes.kind_bind ?_
  rw [List.cons_append, headKind_cons, if_neg (hstops _ hhead)]
  exact h.bind_last (takes_pure _ _)

/-- Statements that leave the loop are taken up to the token it stops at. -/
theorem takes_statementsUntil {stops : List Token.Kind} {statement : Reading Stmt}
    {tokens rest : List Token} {statements : List Stmt} (hrest : headKind rest ∈ stops)
    (h : ∀ last?, ∃ next?, iterate (statementAfter? stops statement) [] ⟨last?, tokens ++ rest⟩ =
      iterate (statementAfter? stops statement) statements.reverse ⟨next?, rest⟩) :
    Takes (statementsUntil stops statement) tokens statements rest := by
  have hstop : Takes (statementAfter? stops statement statements.reverse) [] none rest := by
    refine Takes.kind_bind ?_
    rw [List.nil_append, if_pos hrest]
    exact takes_pure _ _
  have hloop : Takes (iterate (statementAfter? stops statement) []) tokens
      statements.reverse rest := by
    intro last?
    obtain ⟨middle?, hitems⟩ := h last?
    obtain ⟨next?, hend⟩ := hstop.iterate_stop middle?
    exact ⟨next?, hitems.trans hend⟩
  refine hloop.bind_last ?_
  rw [List.reverse_reverse]
  exact takes_pure _ _

mutual

/-- What the grammar derives as a statement is taken by the reading that may open as many levels. -/
theorem takes_statement {room : ℕ∞} {tokens : List Token} {stmt : Stmt} {n : Nat}
    (h : Statement room tokens stmt) (hroom : room = n)
    (hagrees : ∀ token ∈ tokens, token.Agrees) {rest : List Token}
    (hrest : headKind rest ∉ .alternative :: continuations) :
    Takes (statement n) tokens stmt rest := by
  have hcontinuation : headKind rest ∉ continuations :=
    fun hmem => hrest (List.mem_cons_of_mem _ hmem)
  match h with
  | .print hkeyword hcolon hvalue =>
    refine takes_statement_of (takes_printStatement hroom
      (fun token hmem => hagrees token (by simp [hmem])) hcolon hvalue hcontinuation)
      fun last? => ?_
    simp only [statementOf, peek_bind, List.head?_cons, hkeyword]
  | @Statement.declare _ keyword name sign _ _ isList hkeyword hname hsign hvalue =>
    have hdeclaration : Takes (declaration isList (unary n)) _ _ rest :=
      (takes_token keyword _).bind (takes_assignmentFrom hroom
        (fun token hmem => hagrees token (by simp [hmem])) hname hsign hvalue hcontinuation)
    refine takes_statement_of hdeclaration fun last? => ?_
    cases isList <;> simp [statementOf, peek_bind, hkeyword]
  | @Statement.assign _ name sign _ _ hname hsign hvalue =>
    have hassignment : Takes (assignmentFrom name.span .assignment false (unary n)) _ _ rest :=
      takes_assignmentFrom hroom (fun token hmem => hagrees token (by simp [hmem])) hname hsign
        hvalue hcontinuation
    refine takes_statement_of hassignment fun last? => ?_
    -- The sign is no parenthesis, so the name is no call.
    have hcall (more : List Token) : atCall ⟨last?, name :: sign :: more⟩ =
        .ok (false, ⟨last?, name :: sign :: more⟩) := by simp [atCall, hsign]
    simp only [statementOf, peek_bind, List.head?_cons, hname, List.cons_append,
      bind_of_ok (hcall _)]
    rfl
  | .function hkeyword hname hleft hparams hright hblock =>
    have hbody := takes_block hblock hroom (fun token hmem => hagrees token (by simp [hmem]))
      .function rest
    refine takes_statement_of (takes_functionStatement
      (fun token hmem => hagrees token (by simp [hmem])) hname hleft hparams hright hbody)
      fun last? => ?_
    simp only [statementOf, peek_bind, List.head?_cons, hkeyword]
  | .branch hkeyword hleft hcondition hright hthen hblock =>
    have hbody := takes_block hblock hroom (fun token hmem => hagrees token (by simp [hmem]))
      .condition rest
    have helse : headKind rest ≠ .alternative := fun heq => hrest (by simp [heq])
    refine takes_statement_of (takes_branchStatement hroom
      (fun token hmem => hagrees token (by simp [hmem])) hleft hcondition hright hthen hbody helse)
      fun last? => ?_
    simp only [statementOf, peek_bind, List.head?_cons, hkeyword]
  | @Statement.branchElse _ _ _ _ _ alternative _ _ other _ _ _ _ _ hkeyword hleft hcondition hright
      hthen hblock helse hother =>
    have hbody := takes_block hblock hroom (fun token hmem => hagrees token (by simp [hmem]))
      .condition (alternative :: (other ++ rest))
    have hotherBody := takes_block hother hroom
      (fun token hmem => hagrees token (by simp [hmem])) .condition rest
    refine takes_statement_of (takes_branchStatement_alternative hroom
      (fun token hmem => hagrees token (by simp [hmem])) hleft hcondition hright hthen hbody helse
      hotherBody) fun last? => ?_
    simp only [statementOf, peek_bind, List.head?_cons, hkeyword]
  | .loop hkeyword hcount htimes hblock =>
    have hbody := takes_block hblock hroom (fun token hmem => hagrees token (by simp [hmem]))
      .loop rest
    refine takes_statement_of (takes_loopStatement hroom
      (fun token hmem => hagrees token (by simp [hmem])) hcount htimes hbody) fun last? => ?_
    simp only [statementOf, peek_bind, List.head?_cons, hkeyword]
  | @Statement.call _ name left _ _ _ hname hleft hargs hright =>
    refine takes_statement_of (takes_callStatement hroom
      (fun token hmem => hagrees token (by simp [hmem])) hleft hargs hright) fun last? => ?_
    have hcall (more : List Token) : atCall ⟨last?, name :: left :: more⟩ =
        .ok (true, ⟨last?, name :: left :: more⟩) := by simp [atCall, hleft]
    simp only [statementOf, peek_bind, List.head?_cons, hname, List.cons_append,
      bind_of_ok (hcall _)]
    rfl

/-- Statements one after the other leave the loop with all of them as its state. -/
theorem iterate_of_statements {room : ℕ∞} {tokens : List Token} {statements : List Stmt} {n : Nat}
    (h : Statements room tokens statements) (hroom : room = n)
    (hagrees : ∀ token ∈ tokens, token.Agrees) {stops : List Token.Kind}
    (hstops : ∀ kind ∈ starters, kind ∉ stops) {rest : List Token}
    (hrest : headKind rest ∉ .alternative :: continuations) (last? : Option Token) :
    ∃ next?, iterate (statementAfter? stops (statement n)) [] ⟨last?, tokens ++ rest⟩ =
      iterate (statementAfter? stops (statement n)) statements.reverse ⟨next?, rest⟩ := by
  match h with
  | .none => exact ⟨last?, rfl⟩
  | @Statements.more _ tokens more statements stmt hstatements hstatement =>
    obtain ⟨head, others, hhead, hstarts⟩ := exists_head_of_statement hstatement
    -- Nothing separates statements: the first token of the next one ends the one before.
    have hnext : headKind (more ++ rest) ∉ .alternative :: continuations := by
      rw [hhead]
      exact headKind_starter hstarts
    obtain ⟨middle?, hloop⟩ := iterate_of_statements hstatements hroom
      (fun token hmem => hagrees token (by simp [hmem])) hstops hnext last?
    have htaken := takes_statement hstatement hroom
      (fun token hmem => hagrees token (by simp [hmem])) hrest
    obtain ⟨next?, hturn⟩ := (takes_statementAfter? hstatement hstops htaken).iterate
      (by simp [hhead]) middle?
    refine ⟨next?, ?_⟩
    rw [List.append_assoc, hloop, hturn, List.reverse_append]
    rfl

/-- A block is taken whatever follows it. -/
theorem takes_block {room : ℕ∞} {tokens : List Token} {body : List Stmt} {close : Span} {n : Nat}
    (h : Block room tokens body close) (hroom : room = n)
    (hagrees : ∀ token ∈ tokens, token.Agrees) (construct : Construct) (rest : List Token) :
    Takes (block construct (deeperStatement n)) tokens (body, close) rest := by
  match h with
  | @Block.braces room left right tokens body hleft hbody hright =>
    obtain ⟨m, rfl, hm⟩ := exists_eq_succ_of_add_one_eq hroom
    have hclose : headKind (right :: rest) ∉ .alternative :: continuations := by
      rw [headKind_cons, hright]
      decide
    have hstatements : Takes (nested (some (statement m)) statementsOf) tokens body
        (right :: rest) := by
      refine takes_statementsUntil (by simp [hright]) ?_
      exact iterate_of_statements hbody hm (fun token hmem => hagrees token (by simp [hmem]))
        (by decide) hclose
    refine (takes_expect hleft _).bind (Takes.bind hstatements ?_)
    exact (takes_expect hright rest).bind_last (takes_pure _ _)

end

/-! ### Programs -/

/-- Statements, and what follows them, begin with a token that a statement begins with, or as what
follows does. -/
theorem headKind_ne_of_statements {room : ℕ∞} {tokens : List Token} {statements : List Stmt}
    {kind : Token.Kind} (hkind : kind ∉ starters) (h : Statements room tokens statements)
    {rest : List Token} (hrest : headKind rest ≠ kind) : headKind (tokens ++ rest) ≠ kind := by
  induction h using Statements.induction generalizing rest with
  | none => exact hrest
  | more _ hstatement ih =>
    obtain ⟨head, more, rfl, hhead⟩ := exists_head_of_statement hstatement
    rw [List.append_assoc]
    refine ih ?_
    rintro rfl
    exact hkind hhead

/-- A colon that may be there is taken or left, and nothing else is known to follow it. -/
theorem exists_takes_skip (kind : Token.Kind) (tokens : List Token) :
    ∃ found taken rest, tokens = taken ++ rest ∧ Takes (skip kind) taken found rest := by
  cases tokens with
  | nil => exact ⟨false, [], [], rfl, fun last? => ⟨last?, rfl⟩⟩
  | cons head rest =>
    by_cases hkind : head.kind = kind
    · exact ⟨true, [head], rest, rfl, takes_skip hkind rest⟩
    · exact ⟨false, [], head :: rest, rfl, takes_skip_of_ne hkind⟩

/-- What the grammar derives as a program is read as such, whatever follows it. -/
theorem programWithin_of_derives {room : ℕ∞} {tokens : List Token} {program : Program} {n : Nat}
    (h : Derives room tokens program) (hroom : room = n)
    (hagrees : ∀ token ∈ tokens, token.Agrees) (rest : List Token) (last? : Option Token) :
    ∃ after, programWithin n ⟨last?, tokens ++ rest⟩ = .ok (program, after) := by
  obtain @⟨start, finish, colon, tokens, lastColon, body, hstart, hcolon, hbody, hfinish, -⟩ := h
  -- The colon after the program is read even if the derivation does not speak of it.
  obtain ⟨lastFound, taken, others, hothers, htaken⟩ :=
    exists_takes_skip .colon (lastColon ++ rest)
  have hend : headKind (finish :: (taken ++ others)) ∉ .alternative :: continuations := by
    rw [headKind_cons, hfinish]
    decide
  have hstatements : Takes (statementsUntil [.finish, .eof] (statement n)) tokens body
      (finish :: (taken ++ others)) := by
    refine takes_statementsUntil (by simp [hfinish]) ?_
    exact iterate_of_statements hbody hroom (fun token hmem => hagrees token (by simp [hmem]))
      (by decide) hend
  have hnext : headKind (tokens ++ finish :: (taken ++ others)) ≠ .colon :=
    headKind_ne_of_statements (by decide) hbody (by simp [hfinish])
  obtain ⟨found, hskip⟩ := takes_skip_of_optional hcolon hnext
  have hprogram : Takes (programWithin n) (start :: (colon ++ (tokens ++ finish :: taken))) ⟨body⟩
      others := by
    refine (takes_skip hstart _).bind (Takes.bind (a := found) ?_ (Takes.bind (a := body) ?_ ?_))
    · simpa using hskip
    · simpa using hstatements
    · exact (takes_skip hfinish _).bind (htaken.bind_last (takes_pure _ _))
  obtain ⟨next?, hresult⟩ := hprogram last?
  refine ⟨⟨next?, others⟩, ?_⟩
  rw [← hresult]
  simp [hothers]

end Reading

end LineScript
