import LineScript.Proofs.Grammar

/-!
# What readings yield

`Reading.Yields strict reading L` relates a reading to a language `L`, a relation between lists of
tokens and results. If the reading goes through, `L` derives its result from the tokens it consumed.
If it is refused, the refusal names the token it stands on, and under `strict` the tokens consumed
so far can be completed to some that `L` derives from.

The rules of this module follow the ways in which readings are put together. In a sequence the
second reading is related to `After L read`, what `L` still needs after the tokens read first. Its
completion comes for free: refused or not, a reading of no tokens at all tells one.
-/

namespace LineScript

/-- The kind of token that a cause says was found, if it names one. -/
def Cause.found? : Cause → Option Token.Kind
  | missingStart found | missingFinish found | expected _ _ found | expectedExpression _ found
  | unexpectedToken found => some found
  | _ => none

/-- The refusal is about the nesting limit, or names the kind of the token it stands on. -/
def Refusal.Truthful (refusal : Refusal) : Prop :=
  refusal.cause = .tooDeeplyNested Reading.nestingLimit ∨
    refusal.cause.found? = some refusal.cursor.kind

/-- Some token of a kind. -/
def Token.Kind.sample (kind : Token.Kind) : Token where
  kind := kind
  payload :=
    match kind with
    | .number => .number 0
    | .string => .string ""
    | .boolean => .boolean true
    | .array => .array []
    | _ => .text ""
  line := 1
  span := ⟨0, 0⟩

@[simp]
theorem Token.Kind.kind_sample (kind : Token.Kind) : kind.sample.kind = kind := rfl

theorem Token.Kind.agrees_sample (kind : Token.Kind) : kind.sample.Agrees := by
  cases kind <;> rfl

namespace Grammar

variable {α : Type}

/-- What `L` still needs after `read`. -/
def After (L : List Token → α → Prop) (read : List Token) : List Token → α → Prop :=
  fun tokens result => L (read ++ tokens) result

theorem after_append (L : List Token → α → Prop) (first second : List Token) :
    After (After L first) second = After L (first ++ second) := by
  funext tokens result
  rw [After, After, After, List.append_assoc]

/-- Tokens whose kinds and payloads agree complete `read` to something that `L` derives from. -/
def Viable (L : List Token → α → Prop) (read : List Token) : Prop :=
  ∃ more, (∀ token ∈ more, token.Agrees) ∧ ∃ result, L (read ++ more) result

/-- What can be completed after `read` can be completed from there on. -/
theorem Viable.of_after {L : List Token → α → Prop} {read more : List Token}
    (h : Viable (After L read) more) : Viable L (read ++ more) := by
  obtain ⟨rest, hagrees, result, hderives⟩ := h
  refine ⟨rest, hagrees, result, ?_⟩
  rwa [List.append_assoc]

/-- A beginning of what can be completed can be completed. -/
theorem Viable.of_append {L : List Token → α → Prop} {read more : List Token}
    (h : Viable L (read ++ more)) (hagrees : ∀ token ∈ more, token.Agrees) : Viable L read := by
  obtain ⟨rest, hrest, result, hderives⟩ := h
  refine ⟨more ++ rest, ?_, result, ?_⟩
  · intro token hmem
    rcases List.mem_append.mp hmem with hmore | hafter
    · exact hagrees token hmore
    · exact hrest token hafter
  · rwa [← List.append_assoc]

/-- One token of the right kind is enough for a language that needs no other. -/
theorem viable_of_token {L : List Token → α → Prop} (kind : Token.Kind) {result : α}
    (h : L [kind.sample] result) : Viable L [] := by
  refine ⟨[kind.sample], ?_, result, h⟩
  intro token hmem
  rw [List.mem_singleton.mp hmem]
  exact kind.agrees_sample

end Grammar

namespace Reading

open Grammar

variable {α β σ : Type} {strict : Prop}

/-- What the outcome of a reading of `tokens` says about a language. -/
def Outcome (strict : Prop) (L : List Token → α → Prop) (tokens : List Token) :
    Except Refusal (α × Cursor) → Prop
  | .ok (result, after) => ∃ read, tokens = read ++ after.rest ∧ L read result
  | .error refusal =>
    ∃ read, tokens = read ++ refusal.cursor.rest ∧ refusal.Truthful ∧ (strict → Viable L read)

/-- A reading derives by `L` what it reads, from any tokens whose kinds and payloads agree. -/
def Yields (strict : Prop) (reading : Reading α) (L : List Token → α → Prop) : Prop :=
  ∀ cursor : Cursor, (∀ token ∈ cursor.rest, token.Agrees) →
    Outcome strict L cursor.rest (reading cursor)

/-! ### Computing with readings -/

theorem bind_of_ok {reading : Reading α} {next : α → Reading β} {cursor after : Cursor} {a : α}
    (h : reading cursor = .ok (a, after)) : (reading >>= next) cursor = next a after := by
  change (reading cursor >>= fun p => next p.1 p.2) = _
  rw [h]
  rfl

theorem bind_of_error {reading : Reading α} {next : α → Reading β} {cursor : Cursor}
    {refusal : Refusal} (h : reading cursor = .error refusal) :
    (reading >>= next) cursor = .error refusal := by
  change (reading cursor >>= fun p => next p.1 p.2) = _
  rw [h]
  rfl

theorem kind_bind (next : Token.Kind → Reading β) (cursor : Cursor) :
    (kind >>= next) cursor = next cursor.kind cursor := rfl

theorem peek_bind (next : Option Token → Reading β) (cursor : Cursor) :
    (peek? >>= next) cursor = next cursor.rest.head? cursor := rfl

theorem token_bind (next : Token → Reading β) (last? : Option Token) (head : Token)
    (rest : List Token) :
    (token >>= next) ⟨last?, head :: rest⟩ = next head ⟨some head, rest⟩ := rfl

/-! ### Rules -/

/-- After its first tokens a reading goes on with what the language still needs. -/
theorem Outcome.append {L : List Token → α → Prop} {first tokens : List Token}
    {outcome : Except Refusal (α × Cursor)} (h : Outcome strict (After L first) tokens outcome) :
    Outcome strict L (first ++ tokens) outcome := by
  match outcome, h with
  | .ok (result, after), ⟨read, htokens, hderives⟩ =>
    exact ⟨first ++ read, by rw [htokens, List.append_assoc], hderives⟩
  | .error refusal, ⟨read, htokens, htrue, hviable⟩ =>
    exact ⟨first ++ read, by rw [htokens, List.append_assoc], htrue,
      fun hstrict => (hviable hstrict).of_after⟩

/-- Whatever a reading makes of no tokens at all, its language derives something. -/
theorem Yields.viable {reading : Reading α} {L : List Token → α → Prop}
    (h : Yields strict reading L) (hstrict : strict) : Viable L [] := by
  have hnil := h ⟨none, []⟩ (by simp)
  match reading ⟨none, []⟩, hnil with
  | .ok (result, after), ⟨read, htokens, hderives⟩ =>
    obtain ⟨rfl, -⟩ := List.append_eq_nil_iff.mp htokens.symm
    exact ⟨[], by simp, result, hderives⟩
  | .error refusal, ⟨read, htokens, _, hviable⟩ =>
    obtain ⟨rfl, -⟩ := List.append_eq_nil_iff.mp htokens.symm
    exact hviable hstrict

theorem yields_pure {L : List Token → α → Prop} {a : α} (h : L [] a) :
    Yields strict (pure a) L :=
  fun _ _ => ⟨[], rfl, h⟩

/-- A reading may be refused where the language can still be completed. -/
theorem yields_refuse {L : List Token → α → Prop} {cause : Token.Kind → Cause}
    {help : Option String} (hfound : ∀ kind, (cause kind).found? = some kind)
    (h : strict → Viable L []) : Yields strict (refuse cause help) L :=
  fun _ _ => ⟨[], rfl, .inr (hfound _), h⟩

/-- A sequence yields what its first reading yields, followed by what is still needed. -/
theorem Yields.bind {reading : Reading α} {next : α → Reading β} {L : List Token → α → Prop}
    {M : List Token → β → Prop} (h : Yields strict reading L)
    (hnext : ∀ read a, L read a → Yields strict (next a) (After M read)) :
    Yields strict (reading >>= next) M := by
  intro cursor hagrees
  have hfirst := h cursor hagrees
  cases hresult : reading cursor with
  | error refusal =>
    rw [hresult] at hfirst
    obtain ⟨read, htokens, htrue, hviable⟩ := hfirst
    rw [bind_of_error hresult]
    refine ⟨read, htokens, htrue, fun hstrict => ?_⟩
    -- Whatever completes the first reading, the second one can be completed after it.
    obtain ⟨more, hmore, a, hderives⟩ := hviable hstrict
    have hafter := ((hnext (read ++ more) a hderives).viable hstrict).of_after
    rw [List.append_nil] at hafter
    exact hafter.of_append hmore
  | ok pair =>
    obtain ⟨a, after⟩ := pair
    rw [hresult] at hfirst
    obtain ⟨read, htokens, hderives⟩ := hfirst
    rw [bind_of_ok hresult, htokens]
    have hrest : ∀ token ∈ after.rest, token.Agrees := fun token hmem =>
      hagrees token (by rw [htokens]; exact List.mem_append_right _ hmem)
    exact (hnext read a hderives after hrest).append

/-- A language may be replaced by one that derives at least as much. -/
theorem Yields.mono {reading : Reading α} {L M : List Token → α → Prop}
    (h : Yields strict reading L) (hle : ∀ read a, L read a → M read a) :
    Yields strict reading M := by
  intro cursor hagrees
  have houtcome := h cursor hagrees
  match reading cursor, houtcome with
  | .ok (a, after), ⟨read, htokens, hderives⟩ => exact ⟨read, htokens, hle read a hderives⟩
  | .error refusal, ⟨read, htokens, htrue, hviable⟩ =>
    refine ⟨read, htokens, htrue, fun hstrict => ?_⟩
    obtain ⟨more, hmore, a, hderives⟩ := hviable hstrict
    exact ⟨more, hmore, a, hle _ a hderives⟩

/-- A reading may depend on the kind of the token to come. -/
theorem yields_kind_bind {next : Token.Kind → Reading α} {L : List Token → α → Prop}
    (h : ∀ kind, Yields strict (next kind) L) : Yields strict (kind >>= next) L := by
  intro cursor hagrees
  rw [kind_bind]
  exact h cursor.kind cursor hagrees

/-- A token that must be there is the only one of its language. -/
theorem yields_expect {kind : Token.Kind} {construct : Construct} {help : Option String} :
    Yields strict (expect kind construct help)
      (fun read token => read = [token] ∧ token.kind = kind) := by
  have hviable : Viable (fun read (token : Token) => read = [token] ∧ token.kind = kind) [] :=
    viable_of_token kind ⟨rfl, rfl⟩
  intro cursor _
  unfold expect
  split
  next hkind =>
    -- The end of the tokens is never taken, even if its kind is the one that is wanted.
    match cursor, hkind with
    | ⟨last?, []⟩, _ => exact ⟨[], rfl, .inr rfl, fun _ => hviable⟩
    | ⟨last?, head :: rest⟩, hkind => exact ⟨[head], rfl, rfl, hkind⟩
  next => exact ⟨[], rfl, .inr rfl, fun _ => hviable⟩

theorem yields_expect_bind {kind : Token.Kind} {construct : Construct} {help : Option String}
    {next : Token → Reading α} {L : List Token → α → Prop}
    (h : ∀ token : Token, token.kind = kind → Yields strict (next token) (After L [token])) :
    Yields strict (expect kind construct help >>= next) L := by
  refine yields_expect.bind ?_
  rintro read token ⟨rfl, hkind⟩
  exact h token hkind

/-- A token that may be there is read or left. -/
theorem yields_skip_bind {kind : Token.Kind} {next : Bool → Reading α}
    {L : List Token → α → Prop}
    (hthere : ∀ token : Token, token.kind = kind → Yields strict (next true) (After L [token]))
    (hmissing : Yields strict (next false) L) : Yields strict (skip kind >>= next) L := by
  intro cursor hagrees
  match cursor, hagrees with
  | ⟨last?, []⟩, hagrees => exact hmissing ⟨last?, []⟩ hagrees
  | ⟨last?, head :: rest⟩, hagrees =>
    by_cases hkind : head.kind = kind
    · have hskip : skip kind ⟨last?, head :: rest⟩ = .ok (true, ⟨some head, rest⟩) := if_pos hkind
      rw [bind_of_ok hskip]
      exact (hthere head hkind _ fun token hmem =>
        hagrees token (List.mem_cons_of_mem _ hmem)).append
    · have hskip : skip kind ⟨last?, head :: rest⟩ = .ok (false, ⟨last?, head :: rest⟩) :=
        if_neg hkind
      rw [bind_of_ok hskip]
      exact hmissing _ hagrees

/-- A repetition yields what all its steps keep. -/
theorem yields_iterate (L : List Token → σ → Prop) {step : σ → Reading (Option σ)}
    (hstep : ∀ read state, L read state →
      Yields strict (step state) (fun tokens next => L (read ++ tokens) (next.getD state)))
    {read : List Token} {state : σ} (h : L read state) :
    Yields strict (iterate step state) (After L read) := by
  intro cursor hagrees
  -- The tokens to come get fewer with every step that is repeated.
  induction hlength : cursor.rest.length using Nat.strong_induction_on
    generalizing cursor read state with
  | _ length ih =>
    have houtcome := hstep read state h cursor hagrees
    rw [iterate]
    generalize step state cursor = result at houtcome ⊢
    obtain refusal | ⟨_ | next, after⟩ := result
    · obtain ⟨tokens, htokens, htrue, hviable⟩ := houtcome
      refine ⟨tokens, htokens, htrue, fun hstrict => ?_⟩
      obtain ⟨more, hmore, next, hderives⟩ := hviable hstrict
      exact ⟨more, hmore, next.getD state, hderives⟩
    · exact houtcome
    · obtain ⟨tokens, htokens, hderives⟩ := houtcome
      dsimp only
      split
      next hshorter =>
        have hrest : ∀ token ∈ after.rest, token.Agrees := fun token hmem =>
          hagrees token (by rw [htokens]; exact List.mem_append_right _ hmem)
        have hagain : Outcome strict (After (After L read) tokens) after.rest
            (iterate step next after) := by
          have hnext := ih after.rest.length (by omega) hderives after hrest rfl
          rwa [← after_append] at hnext
        rw [htokens]
        exact hagain.append
      -- A step that consumes nothing is not repeated.
      next => exact ⟨tokens, htokens, hderives⟩

end Reading

end LineScript
