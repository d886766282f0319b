import LineScript.Proofs.Reading.Ends
import LineScript.Proofs.Reading.Moves

/-!
# What parsing does not see

A reading that goes through and leaves some tokens does the same whatever comes after these
(`Reading.Composed.local`). So neither what is beyond the first end nor what comes after the keyword
that closes a program has any influence on the program that is read (`parse_local`).
-/

namespace LineScript

namespace Reading

variable {α β σ : Type} {least : Nat}

/-- Where a reading goes through and keeps some tokens, it does so whatever comes after these. -/
def Local (reading : Reading α) : Prop :=
  ∀ {last? after? : Option Token} {tokens kept tail : List Token} {a : α}, kept ≠ [] →
    reading ⟨last?, tokens ++ tail⟩ = .ok (a, ⟨after?, kept ++ tail⟩) →
      ∀ other, reading ⟨last?, tokens ++ other⟩ = .ok (a, ⟨after?, kept ++ other⟩)

/-! ### Rules -/

section

variable {last? : Option Token} {tokens kept tail : List Token} {a : α}

/-- The tokens that are left are the last ones of those that were there. -/
theorem Moves.exists_eq_append {reading : Reading α} (h : Moves least reading) {after : Cursor}
    (hresult : reading ⟨last?, tokens⟩ = .ok (a, after)) :
    ∃ read, tokens = read ++ after.rest ∧ least ≤ read.length := by
  have hmoved := h ⟨last?, tokens⟩
  rw [hresult] at hmoved
  obtain ⟨read, hleads, hleast⟩ := hmoved
  exact ⟨read, hleads.rest, hleast⟩

theorem Moves.exists_eq_append_of_append {reading : Reading α} (h : Moves least reading)
    {after? : Option Token}
    (hresult : reading ⟨last?, tokens ++ tail⟩ = .ok (a, ⟨after?, kept ++ tail⟩)) :
    ∃ read, tokens = read ++ kept ∧ least ≤ read.length := by
  obtain ⟨read, hrest, hleast⟩ := h.exists_eq_append hresult
  rw [← List.append_assoc] at hrest
  exact ⟨read, List.append_cancel_right hrest, hleast⟩

end

theorem local_pure (a : α) : Local (pure a : Reading α) := by
  intro last? after? tokens kept tail b _ hresult other
  obtain ⟨rfl, hcursor⟩ := Prod.mk.inj (Except.ok.inj hresult)
  obtain ⟨rfl, hrest⟩ := Cursor.mk.inj hcursor
  rw [List.append_cancel_right hrest]
  rfl

theorem local_refuse (cause : Token.Kind → Cause) (help : Option String) :
    Local (refuse cause help : Reading α) := by
  intro last? after? tokens kept tail a _ hresult
  cases hresult

theorem local_token : Local token := by
  intro last? after? tokens kept tail a hkept hresult other
  obtain ⟨read, rfl, hleast⟩ := moves_token.exists_eq_append_of_append hresult
  obtain ⟨head, read, rfl⟩ := List.exists_cons_of_length_pos hleast
  obtain ⟨rfl, hcursor⟩ := Prod.mk.inj (Except.ok.inj hresult)
  obtain ⟨rfl, hrest⟩ := Cursor.mk.inj hcursor
  have hsame : read ++ kept = kept := List.append_cancel_right hrest
  change Except.ok (head, Cursor.mk (some head) (read ++ kept ++ other)) = _
  rw [hsame]

/-- In a sequence the tokens that the first part keeps are those that the second one reads or keeps.
-/
theorem local_bind {reading : Reading α} {next : α → Reading β} (h : Local reading)
    (hnext : ∀ a, Local (next a)) (hmoves : ∀ a, Moves 0 (next a)) :
    Local (reading >>= next) := by
  intro last? after? tokens kept tail b hkept hresult other
  cases hfirst : reading ⟨last?, tokens ++ tail⟩ with
  | error refusal =>
    rw [bind_of_error hfirst] at hresult
    cases hresult
  | ok pair =>
    obtain ⟨a, ⟨middle?, middle⟩⟩ := pair
    rw [bind_of_ok hfirst] at hresult
    -- What is left in between is what the second part reads, and then what it keeps.
    obtain ⟨read, hmiddle, -⟩ := (hmoves a).exists_eq_append hresult
    rw [← List.append_assoc] at hmiddle
    subst hmiddle
    rw [bind_of_ok (h (by simp [hkept]) hfirst other)]
    exact hnext a hkept hresult other

/-- Where some tokens are kept, there is a token to come that is one of them or before them. -/
theorem Moves.ne_nil {reading : Reading α} (h : Moves 0 reading) {last? after? : Option Token}
    {tokens kept tail : List Token} {a : α} (hkept : kept ≠ [])
    (hresult : reading ⟨last?, tokens ++ tail⟩ = .ok (a, ⟨after?, kept ++ tail⟩)) :
    ∃ head rest, tokens = head :: rest := by
  obtain ⟨read, rfl, -⟩ := h.exists_eq_append_of_append hresult
  exact List.exists_cons_of_ne_nil (List.append_ne_nil_of_right_ne_nil _ hkept)

theorem local_kind_bind {next : Token.Kind → Reading α} (h : ∀ kind, Local (next kind))
    (hmoves : ∀ kind, Moves 0 (next kind)) : Local (kind >>= next) := by
  intro last? after? tokens kept tail a hkept hresult other
  obtain ⟨head, rest, rfl⟩ := (moves_kind_bind hmoves).ne_nil hkept hresult
  exact h head.kind hkept hresult other

theorem local_peek_bind {next : Option Token → Reading α} (h : ∀ head?, Local (next head?))
    (hmoves : ∀ head?, Moves 0 (next head?)) : Local (peek? >>= next) := by
  intro last? after? tokens kept tail a hkept hresult other
  obtain ⟨head, rest, rfl⟩ := (moves_peek_bind hmoves).ne_nil hkept hresult
  exact h (some head) hkept hresult other

/-- The token after the next one is seen, but the next one is consumed, so that the other one is
read or kept. -/
theorem local_atCall_bind {next : Bool → Reading α} (h : ∀ call, Local (next call))
    (hmoves : ∀ call, Moves 1 (next call)) : Local (atCall >>= next) := by
  intro last? after? tokens kept tail a hkept hresult other
  obtain ⟨read, rfl, hleast⟩ := (moves_atCall_bind hmoves).exists_eq_append_of_append hresult
  obtain ⟨head, read, rfl⟩ := List.exists_cons_of_length_pos hleast
  -- The token after the next one is the first of what is read or kept after it.
  obtain ⟨second, rest, hrest⟩ :=
    List.exists_cons_of_ne_nil (List.append_ne_nil_of_right_ne_nil read hkept)
  rw [List.cons_append, hrest] at hresult ⊢
  exact h _ hkept hresult other

theorem local_expect (kind : Token.Kind) (construct : Construct) (help : Option String) :
    Local (expect kind construct help) := by
  intro last? after? tokens kept tail a hkept hresult other
  obtain ⟨head, rest, rfl⟩ := (moves_expect kind construct help).weaken.ne_nil hkept hresult
  rw [expect] at hresult ⊢
  by_cases hkind : head.kind = kind
  · have hexpected (tail : List Token) : Cursor.kind ⟨last?, (head :: rest) ++ tail⟩ = kind := hkind
    rw [if_pos (hexpected _)] at hresult ⊢
    exact local_token hkept hresult other
  · have hother : ¬ Cursor.kind ⟨last?, (head :: rest) ++ tail⟩ = kind := hkind
    rw [if_neg hother] at hresult
    cases hresult

theorem local_skip (kind : Token.Kind) : Local (skip kind) := by
  intro last? after? tokens kept tail a hkept hresult other
  obtain ⟨head, rest, rfl⟩ := (moves_skip kind).ne_nil hkept hresult
  rw [skip] at hresult ⊢
  dsimp only [List.cons_append] at hresult ⊢
  split at hresult
  next hkind =>
    obtain ⟨rfl, hcursor⟩ := Prod.mk.inj (Except.ok.inj hresult)
    obtain ⟨rfl, hrest⟩ := Cursor.mk.inj hcursor
    rw [if_pos hkind, ← List.append_cancel_right hrest]
  next hkind =>
    obtain ⟨rfl, hcursor⟩ := Prod.mk.inj (Except.ok.inj hresult)
    obtain ⟨rfl, hrest⟩ := Cursor.mk.inj hcursor
    rw [← List.cons_append] at hrest
    rw [if_neg hkind, ← List.append_cancel_right hrest]
    rfl

theorem local_iterate {step : σ → Reading (Option σ)} (h : ∀ state, Local (step state))
    (hmoves : ∀ state, Moves 0 (step state)) (state : σ) : Local (iterate step state) := by
  intro last? after? tokens kept tail a hkept hresult other
  -- The tokens get fewer with every step that is repeated.
  induction hlength : tokens.length using Nat.strong_induction_on
    generalizing tokens last? state with
  | _ length ih =>
    rw [iterate] at hresult
    split at hresult
    next => cases hresult
    next after hstep =>
      obtain ⟨rfl, rfl⟩ := Prod.mk.inj (Except.ok.inj hresult)
      exact iterate_of_stop (h state hkept hstep other)
    next next after hstep =>
      obtain ⟨middle?, middle⟩ := after
      split at hresult
      next hshorter =>
        -- The step keeps what the further steps read and keep.
        obtain ⟨read, hmiddle, -⟩ := (moves_iterate hmoves next).exists_eq_append hresult
        rw [← List.append_assoc] at hmiddle
        subst hmiddle
        have hother := h state (by simp [hkept]) hstep other
        dsimp only at hshorter
        simp only [List.length_append] at hshorter
        rw [iterate_of_step hother (by simp only [List.length_append]; omega)]
        exact ih _ (by simp only [List.length_append]; omega) next hresult rfl
      next hshorter =>
        -- A step that consumed nothing was the last one, and is so with any other tokens.
        obtain ⟨rfl, hcursor⟩ := Prod.mk.inj (Except.ok.inj hresult)
        obtain ⟨rfl, rfl⟩ := Cursor.mk.inj hcursor
        have hother := h state hkept hstep other
        simp only [List.length_append] at hshorter
        rw [iterate, hother]
        exact if_neg (by simp only [List.length_append]; omega)

/-- Whatever is composed of basic readings does the same whatever comes after the tokens it keeps.
-/
theorem Composed.local {reading : Reading α} (h : Composed least reading) : Local reading := by
  induction h with
  | pure a => exact local_pure a
  | refuse cause help => exact local_refuse cause help
  | token => exact local_token
  | expect kind construct help => exact local_expect kind construct help
  | skip kind => exact local_skip kind
  | weaken _ ih => exact ih
  | bind h hnext ih ihnext => exact local_bind ih ihnext fun a => (hnext a).moves
  | kind h ih => exact local_kind_bind ih fun kind => (h kind).moves.weaken
  | peek h ih => exact local_peek_bind ih fun head? => (h head?).moves.weaken
  | atCall h ih => exact local_atCall_bind ih fun call => (h call).moves
  | iterate h state ih => exact local_iterate ih (fun state => (h state).moves) state

/-! ### The keyword that closes a program -/

theorem exists_skip_eq (kind : Token.Kind) (cursor : Cursor) :
    ∃ there after, skip kind cursor = .ok (there, after) := by
  rw [skip]
  split
  · exact ⟨_, _, rfl⟩
  · split <;> exact ⟨_, _, rfl⟩

theorem closing_of_kind {cursor : Cursor} (h : cursor.kind = .finish) (statements : List Stmt) :
    ∃ after, closing statements cursor = .ok (⟨statements⟩, after) := by
  obtain ⟨last?, _ | ⟨head, rest⟩⟩ := cursor
  · cases h
  · have hskip : skip .finish ⟨last?, head :: rest⟩ = .ok (true, ⟨some head, rest⟩) := if_pos h
    -- A colon may follow, but need not.
    obtain ⟨there, after, hcolon⟩ := exists_skip_eq .colon ⟨some head, rest⟩
    rw [closing, bind_of_ok hskip, if_pos rfl, bind_of_ok hcolon]
    exact ⟨after, rfl⟩

theorem kind_of_closing {statements : List Stmt} {cursor after : Cursor} {program : Program}
    (h : closing statements cursor = .ok (program, after)) :
    cursor.kind = .finish ∧ program = ⟨statements⟩ := by
  have hkind : cursor.kind = .finish := by
    by_contra hkind
    have hskip : skip .finish cursor = .ok (false, cursor) := by
      obtain ⟨last?, _ | ⟨head, rest⟩⟩ := cursor
      · rfl
      · exact if_neg hkind
    rw [closing, bind_of_ok hskip] at h
    cases h
  obtain ⟨last, hlast⟩ := closing_of_kind hkind statements
  rw [hlast] at h
  cases h
  exact ⟨hkind, rfl⟩

end Reading

open Reading

/-- The keyword that closes the program a list of tokens begins with is at an index: what comes
before it is read up to there. -/
def FinishesAt (tokens : List Token) (index : Nat) : Prop :=
  ∃ statements after,
    opening nestingLimit (TokenList.ofTokens tokens).cursor = .ok (statements, after) ∧
      after.kind = .finish ∧
      index + after.rest.length = (TokenList.ofTokens tokens).tokens.length

/-- A list of tokens is parsed as a program exactly if the program can be read up to a keyword that
closes it. -/
theorem parse_ok_iff_opening {tokens : List Token} {program : Program} :
    (∃ ignored, parse tokens = .ok ⟨program, ignored⟩) ↔
      ∃ after, opening nestingLimit (TokenList.ofTokens tokens).cursor = .ok (program.body, after) ∧
        after.kind = .finish := by
  rw [parse_ok_iff, Reading.program, programWithin_eq_bind]
  cases hopening : opening nestingLimit (TokenList.ofTokens tokens).cursor with
  | error refusal =>
    rw [bind_of_error hopening]
    simp
  | ok pair =>
    obtain ⟨statements, after⟩ := pair
    rw [bind_of_ok hopening]
    constructor
    · rintro ⟨last, hclosing⟩
      obtain ⟨hkind, rfl⟩ := kind_of_closing hclosing
      exact ⟨after, rfl, hkind⟩
    · rintro ⟨after', hsame, hkind⟩
      obtain ⟨rfl, rfl⟩ := Prod.mk.inj (Except.ok.inj hsame)
      exact closing_of_kind hkind program.body

/-- The keyword that closes a program is the token at its index, and comes before the first end. -/
theorem exists_split_of_finishesAt {tokens : List Token} {index : Nat}
    (h : FinishesAt tokens index) :
    ∃ read finish rest statements last?,
      tokens.take (index + 1) = read ++ [finish] ∧ tokens[index]? = some finish ∧
      finish.kind = .finish ∧ (∀ token ∈ read ++ [finish], token.kind ≠ .eof) ∧
      (TokenList.ofTokens tokens).tokens = read ++ [finish] ++ rest ∧
      opening nestingLimit ⟨none, read ++ [finish] ++ rest⟩ =
        .ok (statements, ⟨last?, [finish] ++ rest⟩) := by
  obtain ⟨statements, ⟨last?, _ | ⟨finish, rest⟩⟩, hopening, hkind, hlength⟩ := h
  · -- The end is no keyword.
    cases hkind
  · obtain ⟨read, hbody, -⟩ :=
      (composed_opening nestingLimit).moves.exists_eq_append hopening
    rw [List.append_cons] at hbody
    obtain ⟨more, hmore⟩ := TokenList.tokens_prefix tokens
    have hindex : index = read.length := by
      simp only [hbody, List.length_append, List.length_cons, List.length_nil] at hlength
      omega
    have hne : ∀ token ∈ read ++ [finish], token.kind ≠ .eof := by
      intro token hmem
      have hbefore : token ∈ (TokenList.ofTokens tokens).tokens :=
        hbody ▸ List.mem_append_left rest hmem
      exact TokenList.kind_ne_of_mem hbefore
    rw [TokenList.cursor, hbody] at hopening
    refine ⟨read, finish, rest, statements, last?, ?_, ?_, hkind, hne, hbody, hopening⟩
    · rw [← hmore, hbody, hindex]
      simp [List.take_append]
    · rw [← hmore, hbody, hindex]
      simp

/-- What comes after the keyword that closes a program does not matter. -/
theorem parse_of_finishesAt {tokens : List Token} {program : Program} {index : Nat}
    (h : ∃ ignored, parse tokens = .ok ⟨program, ignored⟩) (hindex : FinishesAt tokens index)
    (other : List Token) :
    ∃ ignored, parse (tokens.take (index + 1) ++ other) = .ok ⟨program, ignored⟩ := by
  obtain ⟨read, finish, rest, statements, last?, htake, -, hkind, hne, hbody, hopening⟩ :=
    exists_split_of_finishesAt hindex
  obtain ⟨after, hprogram, -⟩ := parse_ok_iff_opening.mp h
  rw [TokenList.cursor, hbody, hopening] at hprogram
  obtain ⟨rfl, -⟩ := Prod.mk.inj (Except.ok.inj hprogram)
  -- No token up to the keyword is an end, so the other list is read at least that far.
  obtain ⟨more, hmore⟩ := TokenList.exists_tokens_append hne other
  have hother := (composed_opening nestingLimit).local (List.cons_ne_nil _ _) hopening more
  refine parse_ok_iff_opening.mpr ⟨⟨last?, [finish] ++ more⟩, ?_, hkind⟩
  rw [htake, TokenList.cursor, hmore, hother]

/-- What is beyond the first end does not matter. -/
theorem parse_take_of_end {tokens : List Token} {index : Nat} {stop : Token}
    (hstop : tokens[index]? = some stop) (hkind : stop.kind = .eof)
    (hbefore : ∀ token ∈ tokens.take index, token.kind ≠ .eof) :
    (parse (tokens.take (index + 1))).map Parsed.program = (parse tokens).map Parsed.program := by
  have htake : tokens.take (index + 1) = tokens.take index ++ [stop] := by
    rw [List.take_add_one, hstop]
    rfl
  have hsplit : tokens = tokens.take index ++ stop :: tokens.drop (index + 1) := by
    rw [List.append_cons, ← htake, List.take_append_drop]
  obtain ⟨count, hlist⟩ := TokenList.exists_ofTokens_append hbefore hkind (tokens.drop (index + 1))
  obtain ⟨count', hlist'⟩ := TokenList.exists_ofTokens_append hbefore hkind []
  rw [← hsplit] at hlist
  -- Only the numbers of tokens beyond the end differ, and they are not part of the program.
  rw [parse, parse, htake, hlist, hlist', TokenList.cursor, TokenList.cursor]
  cases Reading.program ⟨none, tokens.take index⟩ <;> rfl

/-- Parsing does not see what is beyond the first end, nor what comes after the keyword that closes
the program. -/
theorem parse_local (tokens : List Token) :
    (∀ index stop, tokens[index]? = some stop → stop.kind = .eof →
      (∀ token ∈ tokens.take index, token.kind ≠ .eof) →
        (parse (tokens.take (index + 1))).map Parsed.program =
          (parse tokens).map Parsed.program) ∧
    ∀ program ignored, parse tokens = .ok ⟨program, ignored⟩ →
      (∃ index, FinishesAt tokens index) ∧
      ∀ index, FinishesAt tokens index →
        (∃ finish, tokens[index]? = some finish ∧ finish.kind = .finish) ∧
        ∀ other, ∃ ignored, parse (tokens.take (index + 1) ++ other) = .ok ⟨program, ignored⟩ := by
  refine ⟨fun index stop => parse_take_of_end, fun program ignored hparse => ⟨?_, ?_⟩⟩
  · obtain ⟨after, hopening, hkind⟩ := parse_ok_iff_opening.mp ⟨ignored, hparse⟩
    obtain ⟨read, hread, -⟩ := (composed_opening nestingLimit).moves.exists_eq_append hopening
    exact ⟨read.length, program.body, after, hopening, hkind, by rw [hread, List.length_append]⟩
  · intro index hindex
    obtain ⟨read, finish, rest, statements, last?, -, hfinish, hkind, -⟩ :=
      exists_split_of_finishesAt hindex
    exact ⟨⟨finish, hfinish, hkind⟩, parse_of_finishesAt ⟨ignored, hparse⟩ hindex⟩

/-- An empty program with tokens after the keyword that closes it, and beyond the end. -/
def trailingTokens : List Token :=
  [.start, .finish, .print, .eof, .print].map Token.Kind.sample

theorem opening_trailingTokens :
    opening nestingLimit (TokenList.ofTokens trailingTokens).cursor =
      .ok ([], ⟨some Token.Kind.start.sample, [.finish, .print].map Token.Kind.sample⟩) := by
  have htokens : (TokenList.ofTokens trailingTokens).cursor =
      ⟨none, [.start, .finish, .print].map Token.Kind.sample⟩ := rfl
  have hnone : iterate (statementAfter? [.finish, .eof] (statement nestingLimit)) []
      ⟨some Token.Kind.start.sample, [.finish, .print].map Token.Kind.sample⟩ = .ok ([], _) :=
    iterate_of_stop rfl
  have hstart : skip .start ⟨none, [.start, .finish, .print].map Token.Kind.sample⟩ =
      .ok (true, _) := rfl
  have hcolon : skip .colon
      ⟨some Token.Kind.start.sample, [.finish, .print].map Token.Kind.sample⟩ = .ok (false, _) :=
    rfl
  rw [htokens, opening, bind_of_ok hstart, if_pos rfl, bind_of_ok hcolon, statementsUntil,
    bind_of_ok hnone]
  rfl

/-- Neither what follows the empty program nor what is beyond the end is seen. -/
theorem parse_local_trailingTokens :
    (parse (trailingTokens.take 4)).map Parsed.program =
        (parse trailingTokens).map Parsed.program ∧
      FinishesAt trailingTokens 1 ∧
      ∀ other, ∃ ignored, parse (trailingTokens.take 2 ++ other) = .ok ⟨⟨[]⟩, ignored⟩ := by
  obtain ⟨ignored, hparse⟩ : ∃ ignored, parse trailingTokens = .ok ⟨⟨[]⟩, ignored⟩ :=
    parse_ok_iff_opening.mpr ⟨_, opening_trailingTokens, rfl⟩
  have hfinishes : FinishesAt trailingTokens 1 := ⟨_, _, opening_trailingTokens, rfl, rfl⟩
  obtain ⟨hend, hprogram⟩ := parse_local trailingTokens
  exact ⟨hend 3 _ rfl rfl (by decide), hfinishes, ((hprogram _ _ hparse).2 1 hfinishes).2⟩

end LineScript
