import LineScript.Proofs.Grammar.Yields
import LineScript.Proofs.Program.Erasure

/-!
# Readings of lists that look alike

Two lists of tokens look alike up to a horizon if, token by token, they have the same kinds and
payloads until one goes on with `stop` and the other with `stop'`. A reading that ends at the
horizon or before it cannot tell them apart: it makes the same of both, up to spans. The same holds
of two readings where the second may open more levels, as long as the first does not run out of
them.

`Parallel stop stop' view first second` says this of two readings whose results are compared by what
`view` keeps of them. The horizon itself may be looked at, so `stop` and `stop'` must begin alike.
-/

namespace LineScript

/-- What a reading sees of a token. -/
def Token.face (token : Token) : Token.Kind × Token.Payload :=
  (token.kind, token.payload)

theorem Token.kind_eq_of_face {token other : Token} (h : token.face = other.face) :
    token.kind = other.kind :=
  congrArg Prod.fst h

theorem Token.payload_eq_of_face {token other : Token} (h : token.face = other.face) :
    token.payload = other.payload :=
  congrArg Prod.snd h

theorem Token.text_eq_of_face {token other : Token} (h : token.face = other.face) :
    token.text = other.text := by
  rw [Token.text, Token.text, payload_eq_of_face h]

namespace Reading

variable {α β γ δ σ : Type} {stop stop' : List Token}

/-- Lists of tokens that look alike until the first goes on with `stop` and the second with
`stop'`. -/
inductive Alike (stop stop' : List Token) : List Token → List Token → Prop
  | horizon : Alike stop stop' stop stop'
  | step {token token' : Token} {tokens tokens' : List Token} : token.face = token'.face →
      Alike stop stop' tokens tokens' → Alike stop stop' (token :: tokens) (token' :: tokens')

theorem alike_append (tokens : List Token) :
    Alike stop stop' (tokens ++ stop) (tokens ++ stop') := by
  induction tokens with
  | nil => exact .horizon
  | cons token tokens ih => exact .step rfl ih

theorem alike_refl (tokens : List Token) : Alike [] [] tokens tokens := by
  have happend : Alike [] [] (tokens ++ []) (tokens ++ []) := alike_append tokens
  rwa [List.append_nil] at happend

/-- The two lists have as many tokens before the horizon. -/
theorem Alike.length {tokens tokens' : List Token} (h : Alike stop stop' tokens tokens') :
    tokens.length + stop'.length = tokens'.length + stop.length := by
  induction h with
  | horizon => exact Nat.add_comm _ _
  | step _ _ ih => simp only [List.length_cons]; omega

/-- The two lists begin alike. -/
theorem Alike.head {tokens tokens' : List Token} (h : Alike stop stop' tokens tokens')
    (hstop : stop.head?.map Token.face = stop'.head?.map Token.face) :
    tokens.head?.map Token.face = tokens'.head?.map Token.face := by
  cases h with
  | horizon => exact hstop
  | step hface _ => simpa using hface

/-- Positions before lists that look alike have tokens of the same kind. -/
theorem Alike.kind {cursor cursor' : Cursor} (h : Alike stop stop' cursor.rest cursor'.rest)
    (hstop : stop.head?.map Token.face = stop'.head?.map Token.face) :
    cursor.kind = cursor'.kind := by
  have hhead := h.head hstop
  obtain ⟨last?, tokens⟩ := cursor
  obtain ⟨last?', tokens'⟩ := cursor'
  cases tokens with
  | nil =>
    cases tokens' with
    | nil => rfl
    | cons token' tokens' => simp at hhead
  | cons token tokens =>
    cases tokens' with
    | nil => simp at hhead
    | cons token' tokens' => exact Token.kind_eq_of_face (by simpa using hhead)

/-- What may still be read after a reading is no more than what could be read before it. -/
def Shrinks (cursor : Cursor) : Except Refusal (α × Cursor) → Prop
  | .ok (_, after) => after.rest.length ≤ cursor.rest.length
  | .error refusal => refusal.cursor.rest.length ≤ cursor.rest.length

/-- The second outcome is like the first, provided that the first is not beyond the horizon and did
not run out of levels. -/
def Follows (stop stop' : List Token) (view : α → γ) :
    Except Refusal (α × Cursor) → Except Refusal (α × Cursor) → Prop
  | .ok (a, after), second =>
    stop.length ≤ after.rest.length →
      ∃ b after', second = .ok (b, after') ∧ view a = view b ∧
        Alike stop stop' after.rest after'.rest
  | .error refusal, second =>
    stop.length ≤ refusal.cursor.rest.length →
      refusal.cause ≠ .tooDeeplyNested nestingLimit →
        ∃ refusal', second = .error refusal' ∧ refusal.cause = refusal'.cause ∧
          refusal.help = refusal'.help ∧
            Alike stop stop' refusal.cursor.rest refusal'.cursor.rest

/-- Two readings make the same of lists that look alike, up to what `view` does not keep. -/
structure Parallel (stop stop' : List Token) (view : α → γ) (first second : Reading α) : Prop where
  /-- The first reading only ever moves on. -/
  shrinks (cursor : Cursor) : Shrinks cursor (first cursor)
  /-- The second reading follows the first. -/
  follows (cursor cursor' : Cursor) : Alike stop stop' cursor.rest cursor'.rest →
    Follows stop stop' view (first cursor) (second cursor')

/-! ### Rules -/

/-- An outcome beyond the horizon is followed by any. -/
theorem follows_of_beyond {view : α → γ} {cursor : Cursor}
    {first second : Except Refusal (α × Cursor)} (hshrinks : Shrinks cursor first)
    (h : cursor.rest.length < stop.length) : Follows stop stop' view first second := by
  match first, hshrinks with
  | .ok (a, after), hshrinks =>
    intro hlength
    have hafter : after.rest.length ≤ cursor.rest.length := hshrinks
    omega
  | .error refusal, hshrinks =>
    intro hlength
    have hafter : refusal.cursor.rest.length ≤ cursor.rest.length := hshrinks
    omega

theorem Shrinks.trans {cursor after : Cursor} {outcome : Except Refusal (α × Cursor)}
    (h : Shrinks after outcome) (hle : after.rest.length ≤ cursor.rest.length) :
    Shrinks cursor outcome := by
  match outcome, h with
  | .ok (a, last), h => exact Nat.le_trans h hle
  | .error refusal, h => exact Nat.le_trans h hle

theorem parallel_pure {view : α → γ} {a b : α} (h : view a = view b) :
    Parallel stop stop' view (pure a) (pure b) where
  shrinks cursor := Nat.le_refl cursor.rest.length
  follows _ cursor' halike := fun _ => ⟨b, cursor', rfl, h, halike⟩

/-- In a sequence the second readings may rely on results that look alike. -/
theorem Parallel.bind {view : α → γ} {view' : β → δ} {first second : Reading α}
    {next next' : α → Reading β} (h : Parallel stop stop' view first second)
    (hnext : ∀ a b, view a = view b → Parallel stop stop' view' (next a) (next' b)) :
    Parallel stop stop' view' (first >>= next) (second >>= next') where
  shrinks cursor := by
    have hfirst := h.shrinks cursor
    cases hresult : first cursor with
    | error refusal =>
      rw [hresult] at hfirst
      rw [bind_of_error hresult]
      exact hfirst
    | ok pair =>
      obtain ⟨a, after⟩ := pair
      rw [hresult] at hfirst
      rw [bind_of_ok hresult]
      exact ((hnext a a rfl).shrinks after).trans hfirst
  follows cursor cursor' halike := by
    have hfirst := h.follows cursor cursor' halike
    cases hresult : first cursor with
    | error refusal =>
      rw [hresult] at hfirst
      rw [bind_of_error hresult]
      intro hlength hcause
      obtain ⟨refusal', hsecond, hlike⟩ := hfirst hlength hcause
      exact ⟨refusal', bind_of_error hsecond, hlike⟩
    | ok pair =>
      obtain ⟨a, after⟩ := pair
      rw [hresult] at hfirst
      rw [bind_of_ok hresult]
      -- Beyond the horizon nothing is claimed, and the second reading only goes further.
      rcases Nat.lt_or_ge after.rest.length stop.length with hbeyond | hbefore
      · exact follows_of_beyond ((hnext a a rfl).shrinks after) hbeyond
      · obtain ⟨b, after', hsecond, hview, hafter⟩ := hfirst hbefore
        rw [bind_of_ok hsecond]
        exact (hnext a b hview).follows after after' hafter

/-- A finer view may be replaced by a coarser one. -/
theorem Parallel.mono {view : α → γ} {view' : α → δ} {first second : Reading α}
    (h : Parallel stop stop' view first second)
    (hview : ∀ a b, view a = view b → view' a = view' b) :
    Parallel stop stop' view' first second where
  shrinks := h.shrinks
  follows cursor cursor' halike := by
    have hfirst := h.follows cursor cursor' halike
    match first cursor, hfirst with
    | .error refusal, hfirst => exact hfirst
    | .ok (a, after), hfirst =>
      intro hlength
      obtain ⟨b, after', hsecond, hlike, hafter⟩ := hfirst hlength
      exact ⟨b, after', hsecond, hview a b hlike, hafter⟩

section Tokens

variable (hstop : stop.head?.map Token.face = stop'.head?.map Token.face)

include hstop

theorem parallel_refuse {view : α → γ} (cause : Token.Kind → Cause) (help : Option String) :
    Parallel stop stop' view (refuse cause help) (refuse cause help) where
  shrinks cursor := Nat.le_refl cursor.rest.length
  follows _ cursor' halike := fun _ _ =>
    ⟨⟨cursor', cause cursor'.kind, help⟩, rfl, by rw [halike.kind hstop], rfl, halike⟩

theorem parallel_kind : Parallel stop stop' id kind kind where
  shrinks cursor := Nat.le_refl cursor.rest.length
  follows _ cursor' halike := fun _ => ⟨cursor'.kind, cursor', rfl, halike.kind hstop, halike⟩

theorem parallel_kind_bind {view : α → γ} {next next' : Token.Kind → Reading α}
    (h : ∀ kind, Parallel stop stop' view (next kind) (next' kind)) :
    Parallel stop stop' view (kind >>= next) (kind >>= next') := by
  refine (parallel_kind hstop).bind fun found found' heq => ?_
  obtain rfl : found = found' := heq
  exact h found

theorem parallel_peek : Parallel stop stop' (Option.map Token.face) peek? peek? where
  shrinks cursor := Nat.le_refl cursor.rest.length
  follows _ cursor' halike := fun _ => ⟨_, cursor', rfl, halike.head hstop, halike⟩

theorem parallel_token : Parallel stop stop' Token.face token token where
  shrinks cursor := by
    obtain ⟨last?, tokens⟩ := cursor
    cases tokens with
    | nil => exact Nat.le_refl _
    | cons head rest => exact Nat.le_succ _
  follows cursor cursor' halike := by
    have hhead := halike.head hstop
    obtain ⟨last?, tokens⟩ := cursor
    obtain ⟨last?', tokens'⟩ := cursor'
    cases tokens with
    | nil =>
      cases tokens' with
      | nil => exact fun _ _ => ⟨_, rfl, rfl, rfl, halike⟩
      | cons head' rest' => simp at hhead
    | cons head rest =>
      cases tokens' with
      | nil => simp at hhead
      | cons head' rest' =>
        intro hlength
        cases halike with
        -- The token at the horizon is read only by a reading that goes beyond it.
        | horizon => simp at hlength
        | step hface hrest => exact ⟨head', ⟨some head', rest'⟩, rfl, hface, hrest⟩

theorem parallel_expect (wanted : Token.Kind) (construct : Construct) (help : Option String) :
    Parallel stop stop' Token.face (expect wanted construct help)
      (expect wanted construct help) := by
  have heq : expect wanted construct help = (do
      if (← kind) = wanted then token else refuse (.expected wanted construct) help) := by
    funext cursor
    rw [kind_bind, expect]
    split <;> rfl
  rw [heq]
  refine parallel_kind_bind hstop fun found => ?_
  split
  · exact parallel_token hstop
  · exact parallel_refuse hstop _ _

theorem parallel_skip (wanted : Token.Kind) :
    Parallel stop stop' id (skip wanted) (skip wanted) where
  shrinks cursor := by
    obtain ⟨last?, tokens⟩ := cursor
    cases tokens with
    | nil => exact Nat.le_refl _
    | cons head rest =>
      rw [skip]
      dsimp only
      split
      · exact Nat.le_succ _
      · exact Nat.le_refl _
  follows cursor cursor' halike := by
    have hhead := halike.head hstop
    obtain ⟨last?, tokens⟩ := cursor
    obtain ⟨last?', tokens'⟩ := cursor'
    cases tokens with
    | nil =>
      cases tokens' with
      | nil => exact fun _ => ⟨_, _, rfl, rfl, halike⟩
      | cons head' rest' => simp at hhead
    | cons head rest =>
      cases tokens' with
      | nil => simp at hhead
      | cons head' rest' =>
        have hface : head.face = head'.face := by simpa using hhead
        simp only [skip, ← Token.kind_eq_of_face hface]
        split
        · intro hlength
          cases halike with
          | horizon => simp at hlength
          | step _ hrest => exact ⟨true, ⟨some head', rest'⟩, rfl, rfl, hrest⟩
        · exact fun _ => ⟨false, _, rfl, rfl, halike⟩

/-- A token that may be there is there in both lists or in neither. -/
theorem parallel_skip_bind {view : α → γ} {wanted : Token.Kind} {next next' : Bool → Reading α}
    (h : ∀ there, Parallel stop stop' view (next there) (next' there)) :
    Parallel stop stop' view (skip wanted >>= next) (skip wanted >>= next') := by
  refine (parallel_skip hstop wanted).bind fun there there' heq => ?_
  obtain rfl : there = there' := heq
  exact h there

end Tokens

theorem shrinks_iterate {step : σ → Reading (Option σ)}
    (hstep : ∀ state cursor, Shrinks cursor (step state cursor)) (state : σ) (cursor : Cursor) :
    Shrinks cursor (iterate step state cursor) := by
  induction hlength : cursor.rest.length using Nat.strong_induction_on
    generalizing cursor state with
  | _ length ih =>
    have hfirst := hstep state cursor
    rw [iterate]
    generalize step state cursor = result at hfirst ⊢
    obtain refusal | ⟨_ | next, after⟩ := result
    · exact hfirst
    · exact hfirst
    · dsimp only
      split
      next hshorter => exact (ih after.rest.length (by omega) next after rfl).trans hfirst
      next => exact hfirst

theorem iterate_of_some {step : σ → Reading (Option σ)} {state next : σ} {cursor after : Cursor}
    (h : step state cursor = .ok (some next, after)) :
    iterate step state cursor =
      if after.rest.length < cursor.rest.length then iterate step next after
      else .ok (next, after) := by
  rw [iterate, h]

/-- Repetitions are parallel if their steps are. -/
theorem parallel_iterate {view : σ → γ} {step step' : σ → Reading (Option σ)}
    (hstep : ∀ state state', view state = view state' →
      Parallel stop stop' (Option.map view) (step state) (step' state'))
    {state state' : σ} (h : view state = view state') :
    Parallel stop stop' view (iterate step state) (iterate step' state') where
  shrinks cursor := shrinks_iterate (fun state => (hstep state state rfl).shrinks) state cursor
  follows cursor cursor' halike := by
    induction hlength : cursor.rest.length using Nat.strong_induction_on
      generalizing cursor cursor' state state' with
    | _ length ih =>
      have hfirst := (hstep state state' h).follows cursor cursor' halike
      cases hresult : step state cursor with
      | error refusal =>
        rw [hresult] at hfirst
        rw [iterate_of_refusal hresult]
        intro hbefore hcause
        obtain ⟨refusal', hsecond, hlike⟩ := hfirst hbefore hcause
        exact ⟨refusal', iterate_of_refusal hsecond, hlike⟩
      | ok pair =>
        obtain ⟨next?, after⟩ := pair
        rw [hresult] at hfirst
        cases next? with
        | none =>
          rw [iterate_of_stop hresult]
          intro hbefore
          obtain ⟨next?', after', hsecond, hview, hafter⟩ := hfirst hbefore
          obtain rfl : next?' = none := by simpa using hview.symm
          exact ⟨state', after', iterate_of_stop hsecond, h, hafter⟩
        | some next =>
          rw [iterate_of_some hresult]
          rcases Nat.lt_or_ge after.rest.length stop.length with hbeyond | hbefore
          · -- Beyond the horizon it does not matter what the second repetition does.
            split
            · exact follows_of_beyond (shrinks_iterate
                (fun state => (hstep state state rfl).shrinks) next after) hbeyond
            · intro hbefore
              omega
          · obtain ⟨next?', after', hsecond, hview, hafter⟩ := hfirst hbefore
            obtain ⟨next', rfl, hnext⟩ : ∃ next', next?' = some next' ∧ view next = view next' := by
              cases next?' with
              | none => simp at hview
              | some next' => exact ⟨next', rfl, by simpa using hview⟩
            -- Both steps consume as many tokens, so both are repeated or neither is.
            have hbegin := halike.length
            have hend := hafter.length
            rw [iterate_of_some hsecond]
            split
            next hshorter =>
              rw [if_pos (by omega)]
              exact ih after.rest.length (by omega) hnext after after' hafter rfl
            next hsame =>
              rw [if_neg (by omega)]
              exact fun _ => ⟨next', after', rfl, hnext, hafter⟩

/-- The second reading may be nested as deeply as the first, and like it. -/
def Deeper (stop stop' : List Token) (view : α → γ) (first second : Option (Reading α)) : Prop :=
  ∀ inner, first = some inner → ∃ inner', second = some inner' ∧
    Parallel stop stop' view inner inner'

theorem parallel_nested {view : α → γ} {view' : β → δ} {first second : Option (Reading α)}
    {body : Reading α → Reading β} (hdeeper : Deeper stop stop' view first second)
    (hbody : ∀ inner inner', Parallel stop stop' view inner inner' →
      Parallel stop stop' view' (body inner) (body inner')) :
    Parallel stop stop' view' (nested first body) (nested second body) := by
  cases first with
  | none =>
    exact ⟨fun cursor => Nat.le_refl cursor.rest.length, fun _ _ _ _ hcause => (hcause rfl).elim⟩
  | some inner =>
    obtain ⟨inner', rfl, hinner⟩ := hdeeper inner rfl
    exact hbody inner inner' hinner

/-! ### Expressions -/

section

variable (hstop : stop.head?.map Token.face = stop'.head?.map Token.face)

include hstop

theorem parallel_startingIn {body body' : Reading Expr} (construct : Construct)
    (help : Option String) (h : Parallel stop stop' Expr.erase body body') :
    Parallel stop stop' Expr.erase (startingIn construct help body)
      (startingIn construct help body') := by
  refine parallel_kind_bind hstop fun found => ?_
  split
  · exact h
  · exact parallel_refuse hstop _ _

theorem parallel_joined? (level : Level) {operand operand' : Reading Expr}
    (h : Parallel stop stop' Expr.erase operand operand') {left left' : Expr}
    (hleft : left.erase = left'.erase) :
    Parallel stop stop' (Option.map Expr.erase) (joined? level operand left)
      (joined? level operand' left') := by
  refine parallel_kind_bind hstop fun found => ?_
  split
  · exact parallel_pure rfl
  · refine (parallel_token hstop).bind fun _ _ _ => ?_
    refine (parallel_startingIn hstop _ _ h).bind fun right right' hright => parallel_pure ?_
    simp [Expr.erase, hleft, hright]

theorem parallel_chain (level : Level) {operand operand' : Reading Expr}
    (h : Parallel stop stop' Expr.erase operand operand') :
    Parallel stop stop' Expr.erase (chain level operand) (chain level operand') := by
  refine h.bind fun first first' hfirst => ?_
  exact parallel_iterate (fun _ _ hleft => parallel_joined? hstop level h hleft) hfirst

theorem parallel_expressionIn (construct : Construct) {unary unary' : Reading Expr}
    (h : Parallel stop stop' Expr.erase unary unary') :
    Parallel stop stop' Expr.erase (expressionIn construct unary)
      (expressionIn construct unary') := by
  refine parallel_startingIn hstop _ _ ?_
  rw [expressionOf, expressionOf]
  induction levels with
  | nil => exact h
  | cons level levels ih => exact parallel_chain hstop level ih

variable {deeper deeper' : Option (Reading Expr)}
  (hdeeper : Deeper stop stop' Expr.erase deeper deeper')

include hdeeper

theorem parallel_nameTail (name : String) (span span' : Span) :
    Parallel stop stop' Expr.erase (nameTail deeper name span) (nameTail deeper' name span') := by
  refine parallel_skip_bind hstop fun bracket => ?_
  cases bracket with
  | true =>
    refine (parallel_nested hdeeper fun _ _ => parallel_expressionIn hstop _).bind ?_
    intro position position' hposition
    refine (parallel_expect hstop _ _ _).bind fun _ _ _ => parallel_pure ?_
    simp [Expr.erase, hposition]
  | false =>
    refine parallel_skip_bind hstop fun dot => ?_
    cases dot with
    | true =>
      refine (parallel_expect hstop _ _ _).bind fun key key' hkey => parallel_pure ?_
      simp [Expr.erase, Token.text_eq_of_face hkey]
    | false => exact parallel_pure rfl

theorem parallel_groupTail :
    Parallel stop stop' Expr.erase (groupTail deeper) (groupTail deeper') := by
  refine (parallel_nested hdeeper fun _ _ => parallel_expressionIn hstop _).bind ?_
  intro inner inner' hinner
  exact (parallel_expect hstop _ _ _).bind fun _ _ _ => parallel_pure hinner

theorem parallel_primary :
    Parallel stop stop' Expr.erase (primary deeper) (primary deeper') := by
  refine (parallel_peek hstop).bind fun head? head?' hhead => ?_
  match head?, head?', hhead with
  | none, none, _ => exact parallel_refuse hstop _ _
  | some head, some head', hhead =>
    have hface : head.face = head'.face := by simpa using hhead
    dsimp only
    rw [← Token.payload_eq_of_face hface, ← Token.kind_eq_of_face hface]
    -- All literals are read alike, from the payload that both tokens have.
    have hliteral {expr expr' : Expr} (h : expr.erase = expr'.erase) :
        Parallel stop stop' Expr.erase (do let _ ← token; return expr)
          (do let _ ← token; return expr') :=
      (parallel_token hstop).bind fun _ _ _ => parallel_pure h
    cases head.payload with
    | number value => exact hliteral rfl
    | string value => exact hliteral rfl
    | boolean value => exact hliteral rfl
    | array items => exact hliteral (by simp [Expr.erase, Expr.eraseAll_eq_map])
    | text text =>
      cases head.kind with
      | identifier =>
        exact (parallel_token hstop).bind fun _ _ _ => parallel_nameTail hstop hdeeper _ _ _
      | leftParen =>
        exact (parallel_token hstop).bind fun _ _ _ => parallel_groupTail hstop hdeeper
      | _ => exact parallel_refuse hstop _ _

theorem parallel_negation (operator : UnaryOperator) :
    Parallel stop stop' Expr.erase (negation operator deeper) (negation operator deeper') := by
  refine (parallel_token hstop).bind fun _ _ _ => ?_
  refine (parallel_nested hdeeper fun _ _ => parallel_startingIn hstop _ _).bind ?_
  intro operand operand' hoperand
  exact parallel_pure (by simp [Expr.erase, hoperand])

theorem parallel_unaryOf :
    Parallel stop stop' Expr.erase (unaryOf deeper) (unaryOf deeper') := by
  refine parallel_kind_bind hstop fun found => ?_
  cases found with
  | not => exact parallel_negation hstop hdeeper _
  | minus => exact parallel_negation hstop hdeeper _
  | _ => exact parallel_primary hstop hdeeper

omit hdeeper in
theorem parallel_unary {room room' : Nat} (hroom : room ≤ room') :
    Parallel stop stop' Expr.erase (unary room) (unary room') := by
  induction room generalizing room' with
  | zero =>
    have hnone (deeper' : Option (Reading Expr)) : Deeper stop stop' Expr.erase none deeper' := by
      simp [Deeper]
    cases room' with
    | zero => exact parallel_unaryOf hstop (hnone _)
    | succ room' => exact parallel_unaryOf hstop (hnone _)
  | succ room ih =>
    cases room' with
    | zero => omega
    | succ room' =>
      refine parallel_unaryOf hstop ?_
      rintro inner ⟨⟩
      exact ⟨_, rfl, ih (by omega)⟩

end

/-! ### Statements -/

section

variable (hstop : stop.head?.map Token.face = stop'.head?.map Token.face)

include hstop

theorem parallel_commaSeparated {view : α → γ} (construct : Construct) {item item' : Reading α}
    (h : Parallel stop stop' view item item') :
    Parallel stop stop' (List.map view) (commaSeparated construct item)
      (commaSeparated construct item') := by
  refine parallel_kind_bind hstop fun found => ?_
  split
  · exact parallel_pure rfl
  · refine h.bind fun first first' hfirst => ?_
    have hone : [first].map view = [first'].map view := by simpa using hfirst
    refine (parallel_iterate (fun items items' hitems => ?_) hone).bind ?_
    · refine parallel_kind_bind hstop fun found => ?_
      split
      · exact parallel_pure rfl
      · refine (parallel_expect hstop _ _ _).bind fun _ _ _ => h.bind fun _ _ hnext => ?_
        exact parallel_pure (by simp [hitems, hnext])
    · intro reversed reversed' hreversed
      exact parallel_pure (by rw [List.map_reverse, List.map_reverse, hreversed])

theorem parallel_statementsUntil (stops : List Token.Kind) {statement statement' : Reading Stmt}
    (h : Parallel stop stop' Stmt.erase statement statement') :
    Parallel stop stop' Stmt.eraseAll (statementsUntil stops statement)
      (statementsUntil stops statement') := by
  simp only [funext Stmt.eraseAll_eq_map]
  have hnone : ([] : List Stmt).map Stmt.erase = [].map Stmt.erase := rfl
  refine (parallel_iterate (fun items items' hitems => ?_) hnone).bind ?_
  · refine parallel_kind_bind hstop fun found => ?_
    split
    · exact parallel_pure rfl
    · exact h.bind fun _ _ hnext => parallel_pure (by simp [hitems, hnext])
  · intro reversed reversed' hreversed
    exact parallel_pure (by rw [List.map_reverse, List.map_reverse, hreversed])

variable {unary unary' : Reading Expr} {deeper deeper' : Option (Reading Stmt)}
  (hunary : Parallel stop stop' Expr.erase unary unary')
  (hdeeper : Deeper stop stop' Stmt.erase deeper deeper')

include hdeeper in
theorem parallel_block (construct : Construct) :
    Parallel stop stop' (fun body => Stmt.eraseAll body.1) (block construct deeper)
      (block construct deeper') := by
  refine (parallel_expect hstop _ _ _).bind fun _ _ _ => ?_
  refine (parallel_nested hdeeper fun _ _ => parallel_statementsUntil hstop _).bind ?_
  intro body body' hbody
  exact (parallel_expect hstop _ _ _).bind fun _ _ _ => parallel_pure hbody

include hunary in
theorem parallel_printStatement :
    Parallel stop stop' Stmt.erase (printStatement unary) (printStatement unary') := by
  refine (parallel_token hstop).bind fun _ _ _ => parallel_skip_bind hstop fun _ => ?_
  refine (parallel_expressionIn hstop _ hunary).bind fun value value' hvalue => parallel_pure ?_
  simp [Stmt.erase, hvalue]

include hunary in
theorem parallel_assignmentTail (start start' : Span) (name : String) (isList : Bool) :
    Parallel stop stop' Stmt.erase (assignmentTail start name isList unary)
      (assignmentTail start' name isList unary') := by
  refine (parallel_expect hstop _ _ _).bind fun _ _ _ => ?_
  refine (parallel_expressionIn hstop _ hunary).bind fun value value' hvalue => parallel_pure ?_
  simp [Stmt.erase, hvalue]

include hunary in
theorem parallel_assignmentFrom (start start' : Span) (construct : Construct) (isList : Bool) :
    Parallel stop stop' Stmt.erase (assignmentFrom start construct isList unary)
      (assignmentFrom start' construct isList unary') := by
  refine (parallel_expect hstop _ _ _).bind fun name name' hname => ?_
  rw [Token.text_eq_of_face hname]
  exact parallel_assignmentTail hstop hunary _ _ _ _

include hunary in
theorem parallel_declaration (isList : Bool) :
    Parallel stop stop' Stmt.erase (declaration isList unary) (declaration isList unary') :=
  (parallel_token hstop).bind fun _ _ _ => parallel_assignmentFrom hstop hunary _ _ _ _

include hdeeper in
theorem parallel_functionStatement :
    Parallel stop stop' Stmt.erase (functionStatement deeper) (functionStatement deeper') := by
  refine (parallel_token hstop).bind fun _ _ _ => ?_
  refine (parallel_expect hstop _ _ _).bind fun name name' hname => ?_
  refine (parallel_expect hstop _ _ _).bind fun _ _ _ => ?_
  have hparameter := (parallel_expect hstop .identifier .parameters none).mono
    fun _ _ => Token.text_eq_of_face
  refine (parallel_commaSeparated hstop _ hparameter).bind fun params params' hparams => ?_
  refine (parallel_expect hstop _ _ _).bind fun _ _ _ => ?_
  refine (parallel_block hstop hdeeper _).bind ?_
  rintro ⟨body, close⟩ ⟨body', close'⟩ hbody
  refine parallel_pure ?_
  simp_all [Stmt.erase, Token.text_eq_of_face hname]

include hunary hdeeper in
theorem parallel_branchStatement :
    Parallel stop stop' Stmt.erase (branchStatement unary deeper)
      (branchStatement unary' deeper') := by
  refine (parallel_token hstop).bind fun _ _ _ => (parallel_expect hstop _ _ _).bind fun _ _ _ => ?_
  refine (parallel_expressionIn hstop _ hunary).bind fun condition condition' hcondition => ?_
  refine (parallel_expect hstop _ _ _).bind fun _ _ _ => ?_
  refine (parallel_expect hstop _ _ _).bind fun _ _ _ => ?_
  refine (parallel_block hstop hdeeper _).bind ?_
  rintro ⟨body, close⟩ ⟨body', close'⟩ hbody
  refine parallel_skip_bind hstop fun there => ?_
  cases there with
  | true =>
    refine (parallel_block hstop hdeeper _).bind ?_
    rintro ⟨other, last⟩ ⟨other', last'⟩ hother
    exact parallel_pure (by simp_all [Stmt.erase, Stmt.eraseAlternative])
  | false => exact parallel_pure (by simp_all [Stmt.erase, Stmt.eraseAlternative])

include hunary hdeeper in
theorem parallel_loopStatement :
    Parallel stop stop' Stmt.erase (loopStatement unary deeper) (loopStatement unary' deeper') := by
  refine (parallel_token hstop).bind fun _ _ _ => ?_
  refine (parallel_expressionIn hstop _ hunary).bind fun count count' hcount => ?_
  refine (parallel_expect hstop _ _ _).bind fun _ _ _ => (parallel_block hstop hdeeper _).bind ?_
  rintro ⟨body, close⟩ ⟨body', close'⟩ hbody
  exact parallel_pure (by simp_all [Stmt.erase])

include hunary in
theorem parallel_callTail (name : String) (span span' : Span) :
    Parallel stop stop' Stmt.erase (callTail name span unary) (callTail name span' unary') := by
  refine (parallel_expect hstop _ _ _).bind fun _ _ _ => ?_
  refine (parallel_commaSeparated hstop _ (parallel_expressionIn hstop _ hunary)).bind ?_
  intro args args' hargs
  refine (parallel_expect hstop _ _ _).bind fun _ _ _ => parallel_pure ?_
  simp [Stmt.erase, Expr.eraseAll_eq_map, hargs]

include hunary in
theorem parallel_callStatement :
    Parallel stop stop' Stmt.erase (callStatement unary) (callStatement unary') := by
  refine (parallel_token hstop).bind fun name name' hname => ?_
  rw [Token.text_eq_of_face hname]
  exact parallel_callTail hstop hunary _ _ _

omit hstop in
theorem atCall_bind (next : Bool → Reading α) (last? : Option Token) (head : Token)
    (rest : List Token) :
    (atCall >>= next) ⟨last?, head :: rest⟩ =
      next (rest.head?.any (·.kind = .leftParen)) ⟨last?, head :: rest⟩ := rfl

omit hstop in
theorem assignmentFrom_of_name {head : Token} (hkind : head.kind = .identifier) (start : Span)
    (construct : Construct) (isList : Bool) (last? : Option Token) (rest : List Token) :
    assignmentFrom start construct isList unary ⟨last?, head :: rest⟩ =
      assignmentTail start head.text isList unary ⟨some head, rest⟩ := by
  have hexpect (help : Option String) :
      expect .identifier construct help ⟨last?, head :: rest⟩ = .ok (head, ⟨some head, rest⟩) :=
    if_pos hkind
  exact bind_of_ok (hexpect _)

include hunary hdeeper in
theorem parallel_statementOf :
    Parallel stop stop' Stmt.erase (statementOf unary deeper) (statementOf unary' deeper') where
  shrinks cursor := by
    unfold statementOf
    rw [peek_bind]
    obtain ⟨last?, tokens⟩ := cursor
    cases tokens with
    | nil => exact Nat.le_refl _
    | cons head rest =>
      dsimp only [List.head?_cons]
      cases head.kind with
      | print => exact (parallel_printStatement hstop hunary).shrinks _
      | declare => exact (parallel_declaration hstop hunary _).shrinks _
      | declareList => exact (parallel_declaration hstop hunary _).shrinks _
      | function => exact (parallel_functionStatement hstop hdeeper).shrinks _
      | condition => exact (parallel_branchStatement hstop hunary hdeeper).shrinks _
      | loop => exact (parallel_loopStatement hstop hunary hdeeper).shrinks _
      | identifier =>
        dsimp only
        rw [atCall_bind]
        split
        · exact (parallel_callStatement hstop hunary).shrinks _
        · exact (parallel_assignmentFrom hstop hunary _ ⟨0, 0⟩ _ _).shrinks _
      | _ => exact Nat.le_refl _
  follows cursor cursor' halike := by
    have hhead := halike.head hstop
    unfold statementOf
    rw [peek_bind, peek_bind]
    obtain ⟨last?, tokens⟩ := cursor
    obtain ⟨last?', tokens'⟩ := cursor'
    match tokens, tokens', hhead with
    | [], [], _ => exact (parallel_refuse hstop _ _).follows _ _ halike
    | head :: rest, head' :: rest', hhead =>
      have hface : head.face = head'.face := by simpa using hhead
      dsimp only [List.head?_cons]
      rw [← Token.kind_eq_of_face hface]
      cases hkind : head.kind with
      | print => exact (parallel_printStatement hstop hunary).follows _ _ halike
      | declare => exact (parallel_declaration hstop hunary _).follows _ _ halike
      | declareList => exact (parallel_declaration hstop hunary _).follows _ _ halike
      | function => exact (parallel_functionStatement hstop hdeeper).follows _ _ halike
      | condition => exact (parallel_branchStatement hstop hunary hdeeper).follows _ _ halike
      | loop => exact (parallel_loopStatement hstop hunary hdeeper).follows _ _ halike
      | identifier =>
        dsimp only
        rw [atCall_bind, atCall_bind]
        cases halike with
        | horizon =>
          -- Only the kinds of the tokens after the name could tell, but the name itself is read.
          have hbeyond : rest.length < (head :: rest).length := Nat.lt_succ_self _
          split
          · exact follows_of_beyond
              ((parallel_callTail hstop hunary head.text head.span head.span).shrinks
                ⟨some head, rest⟩) hbeyond
          · rw [assignmentFrom_of_name hkind]
            exact follows_of_beyond
              ((parallel_assignmentTail hstop hunary head.span head.span head.text false).shrinks
                ⟨some head, rest⟩) hbeyond
        | step _ hrest =>
          have hnext : (rest.head?.map Token.face).any (·.1 = .leftParen) =
              (rest'.head?.map Token.face).any (·.1 = .leftParen) := by rw [hrest.head hstop]
          rw [Option.any_map, Option.any_map] at hnext
          change rest.head?.any (·.kind = .leftParen) =
            rest'.head?.any (·.kind = .leftParen) at hnext
          rw [hnext]
          split
          · exact (parallel_callStatement hstop hunary).follows _ _ (.step hface hrest)
          · exact (parallel_assignmentFrom hstop hunary _ _ _ _).follows _ _ (.step hface hrest)
      | _ => exact (parallel_refuse hstop _ _).follows _ _ halike

end

/-! ### Programs -/

section

variable (hstop : stop.head?.map Token.face = stop'.head?.map Token.face)

include hstop

theorem parallel_statement {room room' : Nat} (hroom : room ≤ room') :
    Parallel stop stop' Stmt.erase (statement room) (statement room') := by
  induction room generalizing room' with
  | zero =>
    have hnone (deeper' : Option (Reading Stmt)) : Deeper stop stop' Stmt.erase none deeper' := by
      simp [Deeper]
    cases room' with
    | zero => exact parallel_statementOf hstop (parallel_unary hstop hroom) (hnone _)
    | succ room' => exact parallel_statementOf hstop (parallel_unary hstop hroom) (hnone _)
  | succ room ih =>
    cases room' with
    | zero => omega
    | succ room' =>
      refine parallel_statementOf hstop (parallel_unary hstop hroom) ?_
      rintro inner ⟨⟩
      exact ⟨_, rfl, ih (by omega)⟩

/-- Programs are read alike where as many levels may be opened, or more. -/
theorem parallel_programWithin {room room' : Nat} (hroom : room ≤ room') :
    Parallel stop stop' Program.erase (programWithin room) (programWithin room') := by
  refine parallel_skip_bind hstop fun there => ?_
  cases there with
  | false => exact parallel_refuse hstop _ _
  | true =>
    refine parallel_skip_bind hstop fun _ => ?_
    refine (parallel_statementsUntil hstop _ (parallel_statement hstop hroom)).bind ?_
    intro body body' hbody
    refine parallel_skip_bind hstop fun there => ?_
    cases there with
    | false => exact parallel_refuse hstop _ _
    | true =>
      refine parallel_skip_bind hstop fun _ => parallel_pure ?_
      rw [Program.erase, Program.erase, hbody]

end

end Reading

end LineScript
