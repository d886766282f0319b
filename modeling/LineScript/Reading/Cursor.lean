import LineScript.Fault

/-!
# Reading tokens

A program is read from left to right. A reading either consumes some of the tokens to come and gives
a result, or is refused at the token it stands on. The end of the source is not among the tokens to
come, so nothing can be read beyond it.
-/

namespace LineScript

/-- A position in a list of tokens. -/
structure Cursor where
  /-- The token read last. -/
  last? : Option Token
  /-- The tokens to come. -/
  rest : List Token

namespace Cursor

/-- The kind of the token at a position. -/
def kind (cursor : Cursor) : Token.Kind :=
  match cursor.rest with
  | [] => .eof
  | token :: _ => token.kind

/-- The bytes a refusal at a position is about: those of the token there, and at the end those just
after the token read last. The span `stop` is for an end that nothing comes before. -/
def place (cursor : Cursor) (stop : Span) : Span :=
  match cursor.rest, cursor.last? with
  | token :: _, _ => token.span
  | [], some token => Span.single token.span.stop
  | [], none => stop

end Cursor

/-- Why and where a reading does not go on. -/
structure Refusal where
  /-- The position it stands at. -/
  cursor : Cursor
  /-- What is wrong there. -/
  cause : Cause
  /-- What might help. -/
  help : Option String

/-- The fault of a refusal, in a source that ends at `stop`. -/
def Refusal.fault (refusal : Refusal) (stop : Span) : Fault :=
  { cause := refusal.cause, span := refusal.cursor.place stop, help := refusal.help }

/-- A reading of something from the tokens at a position. -/
abbrev Reading := StateT Cursor (Except Refusal)

namespace Reading

variable {α β σ : Type}

/-- The token to come, if there is one. -/
def peek? : Reading (Option Token) :=
  fun cursor => .ok (cursor.rest.head?, cursor)

/-- The kind of the token to come. -/
def kind : Reading Token.Kind :=
  fun cursor => .ok (cursor.kind, cursor)

/-- Refuses to go on. The cause may name the kind of the token to come. -/
def refuse (cause : Token.Kind → Cause) (help : Option String := none) : Reading α :=
  fun cursor => .error ⟨cursor, cause cursor.kind, help⟩

/-- Reads a token of any kind. -/
def token : Reading Token := fun cursor =>
  match cursor.rest with
  | [] => .error ⟨cursor, .unexpectedToken .eof, none⟩
  | token :: rest => .ok (token, ⟨some token, rest⟩)

/-- Reads a token of the given kind, which must be there. -/
def expect (kind : Token.Kind) (construct : Construct) (help : Option String := none) :
    Reading Token := fun cursor =>
  if cursor.kind = kind then token cursor
  else .error ⟨cursor, .expected kind construct cursor.kind, help⟩

/-- Reads a token of the given kind if it is there, and says whether it was. -/
def skip (kind : Token.Kind) : Reading Bool := fun cursor =>
  match cursor.rest with
  | [] => .ok (false, cursor)
  | token :: rest =>
    if token.kind = kind then .ok (true, ⟨some token, rest⟩) else .ok (false, cursor)

/-- Repeats a step, which says by `none` that it has nothing more to add. A step that consumes
nothing is not repeated. -/
def iterate (step : σ → Reading (Option σ)) (state : σ) : Reading σ := fun cursor =>
  match step state cursor with
  | .error refusal => .error refusal
  | .ok (none, after) => .ok (state, after)
  | .ok (some next, after) =>
    if after.rest.length < cursor.rest.length then iterate step next after else .ok (next, after)
termination_by cursor => cursor.rest.length

/-- A refused step refuses the repetition. -/
theorem iterate_of_refusal {step : σ → Reading (Option σ)} {state : σ} {cursor : Cursor}
    {refusal : Refusal} (h : step state cursor = .error refusal) :
    iterate step state cursor = .error refusal := by
  rw [iterate, h]

/-- A step without anything to add ends the repetition. -/
theorem iterate_of_stop {step : σ → Reading (Option σ)} {state : σ} {cursor after : Cursor}
    (h : step state cursor = .ok (none, after)) :
    iterate step state cursor = .ok (state, after) := by
  rw [iterate, h]

/-- A step that consumes something is repeated. -/
theorem iterate_of_step {step : σ → Reading (Option σ)} {state next : σ} {cursor after : Cursor}
    (h : step state cursor = .ok (some next, after))
    (hshorter : after.rest.length < cursor.rest.length) :
    iterate step state cursor = iterate step next after := by
  rw [iterate, h]
  exact if_pos hshorter

/-- How many blocks, groupings, indexes and operators with one operand may be open at once. -/
def nestingLimit : Nat := 256

/-- Reads something one level further in. There is no `deeper` reading at the innermost level. -/
def nested (deeper : Option α) (body : α → Reading β) : Reading β :=
  match deeper with
  | none =>
    refuse (fun _ => .tooDeeplyNested nestingLimit)
      (some "Move part of it into a variable or a function.")
  | some inner => body inner

end Reading

end LineScript
