import LineScript.Machine.Expression

/-!
# Evaluation as a sequence of operations

An expression is evaluated operand by operand, and what follows an operand is a function of its
value. The equations of `Expr.eval` in this form (`Expr.eval_index`, `Expr.eval_binary`, ...) let a
property of results be shown once for a sequence, once for each operation, and then for every
expression.
-/

namespace LineScript

variable {α β : Type}

/-! ### Results -/

/-- Results that are the same up to what is kept of their faults are the same value, or faults of
which the same is kept. -/
theorem cases_of_mapError {kept kept' : Fault → β} {result result' : Except Fault α}
    (h : result.mapError kept = result'.mapError kept') :
    (∃ value, result = .ok value ∧ result' = .ok value) ∨
      ∃ fault fault', result = .error fault ∧ result' = .error fault' ∧
        kept fault = kept' fault' := by
  cases result with
  | error fault =>
    cases result' with
    | error fault' => exact .inr ⟨fault, fault', rfl, rfl, Except.error.inj h⟩
    | ok value => cases h
  | ok value =>
    cases result' with
    | error fault' => cases h
    | ok value' => exact .inl ⟨value, rfl, congrArg Except.ok (Except.ok.inj h).symm⟩

/-- Results are the same up to what is kept of their faults if all their parts are. -/
theorem mapError_bind {γ : Type} {kept kept' : Fault → γ} {result result' : Except Fault α}
    {next next' : α → Except Fault β} (h : result.mapError kept = result'.mapError kept')
    (hnext : ∀ value, (next value).mapError kept = (next' value).mapError kept') :
    (result.bind next).mapError kept = (result'.bind next').mapError kept' := by
  obtain ⟨value, rfl, rfl⟩ | ⟨fault, fault', rfl, rfl, hfault⟩ := cases_of_mapError h
  · exact hnext value
  · exact congrArg Except.error hfault

/-- If there is a fault, then it has the given property. -/
def FailsOnly (P : Fault → Prop) (result : Except Fault α) : Prop :=
  ∀ fault, result = .error fault → P fault

theorem failsOnly_ok (P : Fault → Prop) (value : α) : FailsOnly P (.ok value) := by
  intro fault h
  cases h

theorem failsOnly_error {P : Fault → Prop} {fault : Fault} (h : P fault) :
    FailsOnly P (.error fault : Except Fault α) := by
  rintro fault' ⟨⟩
  exact h

theorem FailsOnly.imp {P Q : Fault → Prop} {result : Except Fault α} (h : FailsOnly P result)
    (himp : ∀ fault, P fault → Q fault) : FailsOnly Q result :=
  fun fault hfault => himp fault (h fault hfault)

theorem FailsOnly.bind {P : Fault → Prop} {result : Except Fault α} {next : α → Except Fault β}
    (h : FailsOnly P result) (hnext : ∀ value, FailsOnly P (next value)) :
    FailsOnly P (result.bind next) := by
  cases result with
  | error fault => exact failsOnly_error (h fault rfl)
  | ok value => exact hnext value

/-- A sequence has a value only if all its parts have. -/
theorem exists_of_bind_eq_ok {result : Except Fault α} {next : α → Except Fault β} {last : β}
    (h : result.bind next = .ok last) : ∃ value, result = .ok value ∧ next value = .ok last := by
  cases result with
  | error fault => cases h
  | ok value => exact ⟨value, rfl, h⟩

/-! ### Operations -/

/-- The causes for which an operation on values can fail. None of them tells a name. -/
def Cause.IsOfOperation : Cause → Prop
  | indexOutOfBounds _ _ | divisionByZero | typeMismatch _ _ _ | unknownProperty _ _ => True
  | _ => False

/-- The fault of an operation on values that stands at the given bytes. -/
structure Fault.IsOfOperation (span : Span) (fault : Fault) : Prop where
  /-- Operations fail for it. -/
  cause : fault.cause.IsOfOperation
  /-- It is about the operation. -/
  span_eq : fault.span = span

namespace Value

variable {span : Span}

theorem failsOnly_itemAt (name : String) (items : List Value) (position : Value) (span : Span) :
    FailsOnly (Fault.IsOfOperation span) (itemAt name items position span) := by
  unfold itemAt
  split
  · exact failsOnly_ok _ _
  · exact failsOnly_error ⟨trivial, rfl⟩

theorem failsOnly_property (value : Value) (key : String) (span : Span) :
    FailsOnly (Fault.IsOfOperation span) (value.property key span) := by
  unfold property
  split
  · exact failsOnly_ok _ _
  · exact failsOnly_ok _ _
  · exact failsOnly_error ⟨trivial, rfl⟩

theorem failsOnly_applyUnary (operator : UnaryOperator) (value : Value) (span : Span) :
    FailsOnly (Fault.IsOfOperation span) (applyUnary operator value span) := by
  unfold applyUnary
  split
  · exact failsOnly_ok _ _
  · exact failsOnly_ok _ _
  · exact failsOnly_error ⟨trivial, rfl⟩

theorem failsOnly_applyBinary (operator : BinaryOperator) (left right : Value) (span : Span) :
    FailsOnly (Fault.IsOfOperation span) (applyBinary operator left right span) := by
  have hneeded : FailsOnly (Fault.IsOfOperation span)
      (.error (numbersNeeded operator left right span) : Except Fault Value) :=
    failsOnly_error ⟨trivial, rfl⟩
  cases operator with
  | add =>
    unfold applyBinary
    dsimp only
    split <;> exact failsOnly_ok _ _
  | subtract | multiply =>
    unfold applyBinary
    dsimp only
    split
    · exact failsOnly_ok _ _
    · exact hneeded
  | divide =>
    unfold applyBinary
    dsimp only
    split
    · split
      · exact failsOnly_error ⟨trivial, rfl⟩
      · exact failsOnly_ok _ _
    · exact hneeded
  | equal | notEqual | less | greater | and | or => exact failsOnly_ok _ _

end Value

/-! ### Expressions -/

namespace Expr

variable (env : Environment)

theorem eval_array (items : List Expr) (span : Span) :
    (array items span).eval env = (evalAll env items).bind fun values => .ok (.list values) := by
  rw [eval]
  cases evalAll env items <;> rfl

theorem eval_property (name key : String) (span : Span) :
    (property name key span).eval env =
      (env.lookup name span).bind fun value => value.property key span := by
  rw [eval]
  cases env.lookup name span <;> rfl

theorem eval_unary (operator : UnaryOperator) (operand : Expr) (span : Span) :
    (unary operator operand span).eval env =
      (operand.eval env).bind fun value => Value.applyUnary operator value span := by
  rw [eval]
  cases operand.eval env <;> rfl

theorem eval_binary (operator : BinaryOperator) (left right : Expr) (span : Span) :
    (binary operator left right span).eval env =
      (left.eval env).bind fun l => (right.eval env).bind fun r =>
        Value.applyBinary operator l r span := by
  rw [eval]
  cases left.eval env <;> cases right.eval env <;> rfl

theorem evalAll_cons (expr : Expr) (exprs : List Expr) :
    evalAll env (expr :: exprs) =
      (expr.eval env).bind fun value => (evalAll env exprs).bind fun values =>
        .ok (value :: values) := by
  rw [evalAll]
  cases expr.eval env <;> cases evalAll env exprs <;> rfl

/-- What is done with the value of a variable that is indexed. -/
def indexed (name : String) (position : Expr) (span : Span) : Value → Except Fault Value
  | .list items => (position.eval env).bind fun value => Value.itemAt name items value position.span
  | value =>
    .error
      { cause := .notAList name value.typeName
        span
        help := some ("'" ++ name ++ "' holds a " ++ value.typeName ++
          "; only lists can be indexed. Declare one with `list " ++ name ++ " = [...]`.") }

theorem eval_index (name : String) (position : Expr) (span : Span) :
    (index name position span).eval env =
      (env.lookup name span).bind (indexed env name position span) := by
  rw [eval]
  cases env.lookup name span with
  | error fault => rfl
  | ok value =>
    cases value with
    | list items => cases hposition : position.eval env <;> simp [Except.bind, indexed, hposition]
    | _ => rfl

end Expr

end LineScript
