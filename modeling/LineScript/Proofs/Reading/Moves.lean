import LineScript.Proofs.Grammar.Yields
import LineScript.Proofs.Reading.Composed

/-!
# How readings move

A reading never goes back. Wherever it stops, whether it goes through or is refused, the tokens to
come are a rest of those that were to come before, and the token it remembers as the last one is the
last of those in between. `Reading.Moves least reading` says this, and that at least `least` tokens
are consumed when the reading goes through. It holds for any tokens at all, also where kinds and
payloads disagree.
-/

namespace LineScript

/-- A position is reached from another one by reading some tokens. -/
structure Cursor.Leads (cursor : Cursor) (read : List Token) (after : Cursor) : Prop where
  /-- The tokens are taken from those to come. -/
  rest : cursor.rest = read ++ after.rest
  /-- The last of them is remembered. -/
  last : after.last? = read.getLast?.or cursor.last?

theorem Cursor.leads_refl (cursor : Cursor) : cursor.Leads [] cursor :=
  ⟨rfl, rfl⟩

theorem Cursor.Leads.trans {cursor after last : Cursor} {read more : List Token}
    (h : cursor.Leads read after) (hmore : after.Leads more last) :
    cursor.Leads (read ++ more) last where
  rest := by rw [h.rest, hmore.rest, List.append_assoc]
  last := by rw [hmore.last, h.last, List.getLast?_append, Option.or_assoc]

namespace Reading

variable {α β σ : Type} {least : Nat}

/-- An outcome is met further on, and if it is no refusal then at least `least` tokens further. -/
def Moved (least : Nat) (cursor : Cursor) : Except Refusal (α × Cursor) → Prop
  | .ok (_, after) => ∃ read, cursor.Leads read after ∧ least ≤ read.length
  | .error refusal => ∃ read, cursor.Leads read refusal.cursor

/-- A reading only ever moves on, by at least `least` tokens if it goes through. -/
def Moves (least : Nat) (reading : Reading α) : Prop :=
  ∀ cursor, Moved least cursor (reading cursor)

/-! ### Rules -/

/-- What is met after some tokens is met from before them. -/
theorem Moved.after {cursor after : Cursor} {read : List Token}
    {outcome : Except Refusal (α × Cursor)} (hlead : cursor.Leads read after)
    (hleast : least ≤ read.length) (h : Moved 0 after outcome) : Moved least cursor outcome := by
  match outcome, h with
  | .ok (a, last), ⟨more, hmore, _⟩ =>
    refine ⟨read ++ more, hlead.trans hmore, ?_⟩
    rw [List.length_append]
    omega
  | .error refusal, ⟨more, hmore⟩ => exact ⟨read ++ more, hlead.trans hmore⟩

theorem Moves.weaken {reading : Reading α} (h : Moves least reading) : Moves 0 reading := by
  intro cursor
  have hmoved := h cursor
  match reading cursor, hmoved with
  | .ok (a, after), ⟨read, hlead, _⟩ => exact ⟨read, hlead, Nat.zero_le _⟩
  | .error refusal, hmoved => exact hmoved

theorem moves_pure (a : α) : Moves 0 (pure a : Reading α) :=
  fun cursor => ⟨[], cursor.leads_refl, Nat.le_refl 0⟩

theorem moves_refuse (cause : Token.Kind → Cause) (help : Option String) :
    Moves least (refuse cause help : Reading α) :=
  fun cursor => ⟨[], cursor.leads_refl⟩

/-- In a sequence it is enough that the first reading consumes tokens. -/
theorem Moves.bind {reading : Reading α} {next : α → Reading β} (h : Moves least reading)
    (hnext : ∀ a, Moves 0 (next a)) : Moves least (reading >>= next) := by
  intro cursor
  have hmoved := h cursor
  cases hresult : reading cursor with
  | error refusal =>
    rw [hresult] at hmoved
    rw [bind_of_error hresult]
    exact hmoved
  | ok pair =>
    obtain ⟨a, after⟩ := pair
    rw [hresult] at hmoved
    obtain ⟨read, hlead, hleast⟩ := hmoved
    rw [bind_of_ok hresult]
    exact .after hlead hleast (hnext a after)

theorem moves_kind_bind {next : Token.Kind → Reading α} (h : ∀ kind, Moves least (next kind)) :
    Moves least (kind >>= next) :=
  fun cursor => h cursor.kind cursor

theorem moves_peek_bind {next : Option Token → Reading α} (h : ∀ head?, Moves least (next head?)) :
    Moves least (peek? >>= next) :=
  fun cursor => h cursor.rest.head? cursor

theorem moves_atCall_bind {next : Bool → Reading α} (h : ∀ call, Moves least (next call)) :
    Moves least (atCall >>= next) :=
  fun cursor => h _ cursor

theorem leads_token (last? : Option Token) (head : Token) (rest : List Token) :
    Cursor.Leads ⟨last?, head :: rest⟩ [head] ⟨some head, rest⟩ :=
  ⟨rfl, rfl⟩

theorem moves_token : Moves 1 token := by
  rintro ⟨last?, tokens⟩
  cases tokens with
  | nil => exact ⟨[], Cursor.leads_refl _⟩
  | cons head rest => exact ⟨[head], leads_token last? head rest, Nat.le_refl 1⟩

theorem moves_expect (kind : Token.Kind) (construct : Construct) (help : Option String) :
    Moves 1 (expect kind construct help) := by
  intro cursor
  unfold expect
  split
  · exact moves_token cursor
  · exact ⟨[], cursor.leads_refl⟩

theorem moves_skip (kind : Token.Kind) : Moves 0 (skip kind) := by
  rintro ⟨last?, tokens⟩
  cases tokens with
  | nil => exact ⟨[], Cursor.leads_refl _, Nat.le_refl 0⟩
  | cons head rest =>
    rw [skip]
    dsimp only
    split
    · exact ⟨[head], leads_token last? head rest, Nat.zero_le _⟩
    · exact ⟨[], Cursor.leads_refl _, Nat.le_refl 0⟩

/-- A repetition moves on since its steps do. -/
theorem moves_iterate {step : σ → Reading (Option σ)} (hstep : ∀ state, Moves 0 (step state))
    (state : σ) : Moves 0 (iterate step state) := by
  intro cursor
  -- The tokens to come get fewer with every step that is repeated.
  induction hlength : cursor.rest.length using Nat.strong_induction_on
    generalizing cursor state with
  | _ length ih =>
    have hmoved := hstep state cursor
    rw [iterate]
    generalize step state cursor = result at hmoved ⊢
    obtain refusal | ⟨_ | next, after⟩ := result
    · exact hmoved
    · exact hmoved
    · obtain ⟨read, hlead, hleast⟩ := hmoved
      dsimp only
      split
      next hshorter => exact .after hlead hleast (ih _ (by omega) next after rfl)
      next => exact ⟨read, hlead, hleast⟩

/-- Whatever is composed of readings that move on does so. -/
theorem Composed.moves {reading : Reading α} (h : Composed least reading) :
    Moves least reading := by
  induction h with
  | pure a => exact moves_pure a
  | refuse cause help => exact moves_refuse cause help
  | token => exact moves_token
  | expect kind construct help => exact moves_expect kind construct help
  | skip kind => exact moves_skip kind
  | weaken _ ih => exact ih.weaken
  | bind _ _ ih ihnext => exact ih.bind ihnext
  | kind _ ih => exact moves_kind_bind ih
  | peek _ ih => exact moves_peek_bind ih
  | atCall _ ih => exact moves_atCall_bind ih
  | iterate _ state ih => exact moves_iterate ih state

/-- Reading a program only ever moves on. -/
theorem moves_programWithin (room : Nat) : Moves 0 (programWithin room) :=
  (composed_programWithin room).moves

end Reading

end LineScript
