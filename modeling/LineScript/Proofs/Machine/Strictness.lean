import LineScript.Proofs.Machine.Evaluation
import LineScript.Proofs.Program.Names

/-!
# Evaluation is strict in the names of an expression

Nothing in an expression is skipped: it has a value only if all names in it have one, those in the
second operand of `and` and `or` included. And nothing but those names matters, however the frames
are stacked in which they are found (`Expr.eval_of_names`).
-/

namespace LineScript

/-- What a result tells about the names that were looked up for it: all of them if it is a value,
and the one that has none if it is the fault of a name. -/
structure Strict {α : Type} (env : Environment) (names : List String) (result : Except Fault α) :
    Prop where
  /-- All names have values if there is a result. -/
  bound : ∀ value, result = .ok value → ∀ name ∈ names, ∃ found, env.get? name = some found
  /-- A name that is blamed is one of them and has no value. -/
  unbound : ∀ fault name, result = .error fault → fault.cause = .undefinedVariable name →
    name ∈ names ∧ env.get? name = none

section

variable {α β : Type} {env : Environment} {names more : List String} {span : Span}

/-- The fault of an operation on values blames no name. -/
theorem Cause.IsOfOperation.ne_undefinedVariable {cause : Cause} (h : cause.IsOfOperation)
    (name : String) : cause ≠ .undefinedVariable name := by
  rintro rfl
  exact h

theorem strict_ok (env : Environment) (value : α) : Strict env [] (.ok value) :=
  ⟨fun _ _ _ hmem => absurd hmem List.not_mem_nil, fun _ _ hfault _ => nomatch hfault⟩

/-- A fault that blames no name tells nothing about names. -/
theorem strict_error {fault : Fault} (h : ∀ name, fault.cause ≠ .undefinedVariable name) :
    Strict env names (.error fault : Except Fault α) where
  bound _ hvalue := nomatch hvalue
  unbound _ name hfault hcause := by
    cases hfault
    exact absurd hcause (h name)

theorem strict_of_operation {result : Except Fault α}
    (h : FailsOnly (Fault.IsOfOperation span) result) : Strict env [] result := by
  refine ⟨fun _ _ _ hmem => absurd hmem List.not_mem_nil, fun fault name hfault hcause => ?_⟩
  exact absurd hcause ((h fault hfault).cause.ne_undefinedVariable name)

theorem strict_lookup (env : Environment) (name : String) (span : Span) :
    Strict env [name] (env.lookup name span) := by
  unfold Environment.lookup
  cases hget : env.get? name with
  | none =>
    refine ⟨fun _ hvalue _ _ => (nomatch hvalue), ?_⟩
    rintro _ _ ⟨⟩ ⟨⟩
    exact ⟨List.mem_singleton_self name, hget⟩
  | some found =>
    refine ⟨fun _ _ other hmem => ?_, fun _ _ hfault _ => nomatch hfault⟩
    obtain rfl := List.mem_singleton.mp hmem
    exact ⟨found, hget⟩

theorem Environment.lookup_congr {env env' : Environment} {name : String}
    (h : env.get? name = env'.get? name) (span : Span) :
    env.lookup name span = env'.lookup name span := by
  rw [lookup, lookup, h]

/-- A sequence is strict in the names of both its parts. -/
theorem Strict.bind {result : Except Fault α} {next : α → Except Fault β}
    (h : Strict env names result) (hnext : ∀ value, Strict env more (next value)) :
    Strict env (names ++ more) (result.bind next) := by
  refine ⟨fun last hlast name hmem => ?_, fun fault name hfault hcause => ?_⟩
  · obtain ⟨value, hvalue, hrest⟩ := exists_of_bind_eq_ok hlast
    rcases List.mem_append.mp hmem with hfirst | hsecond
    · exact h.bound value hvalue name hfirst
    · exact (hnext value).bound last hrest name hsecond
  · -- The fault is that of the first part, or the first part has a value.
    cases result with
    | error first =>
      cases hfault
      obtain ⟨hmem, hget⟩ := h.unbound fault name rfl hcause
      exact ⟨List.mem_append_left more hmem, hget⟩
    | ok value =>
      obtain ⟨hmem, hget⟩ := (hnext value).unbound fault name hfault hcause
      exact ⟨List.mem_append_right names hmem, hget⟩

/-- What follows without looking up names leaves the names as they are. -/
theorem Strict.bind_nil {result : Except Fault α} {next : α → Except Fault β}
    (h : Strict env names result) (hnext : ∀ value, Strict env [] (next value)) :
    Strict env names (result.bind next) := by
  have hboth := h.bind hnext
  rwa [List.append_nil] at hboth

end

namespace Expr

mutual

/-- Evaluating an expression looks up all its names. -/
theorem strict_eval (env : Environment) (expr : Expr) : Strict env expr.names (expr.eval env) := by
  match expr with
  | number _ _ | string _ _ | boolean _ _ => exact strict_ok env _
  | array items _ =>
    rw [eval_array, names]
    exact (strict_evalAll env items).bind_nil fun _ => strict_ok env _
  | identifier name span => exact strict_lookup env name span
  | index name position span =>
    rw [eval_index, names, ← List.singleton_append]
    refine (strict_lookup env name span).bind fun value => ?_
    cases value with
    | list items =>
      exact (strict_eval env position).bind_nil fun value =>
        strict_of_operation (Value.failsOnly_itemAt name items value _)
    | number | string | boolean | undefined => exact strict_error nofun
  | property name key span =>
    rw [eval_property, names]
    exact (strict_lookup env name span).bind_nil fun value =>
      strict_of_operation (value.failsOnly_property key span)
  | unary operator operand span =>
    rw [eval_unary, names]
    exact (strict_eval env operand).bind_nil fun value =>
      strict_of_operation (Value.failsOnly_applyUnary operator value span)
  | binary operator left right span =>
    rw [eval_binary, names]
    exact (strict_eval env left).bind fun l => (strict_eval env right).bind_nil fun r =>
      strict_of_operation (Value.failsOnly_applyBinary operator l r span)

theorem strict_evalAll (env : Environment) (exprs : List Expr) :
    Strict env (namesAll exprs) (evalAll env exprs) := by
  match exprs with
  | [] => exact strict_ok env _
  | expr :: exprs =>
    rw [evalAll_cons, namesAll]
    exact (strict_eval env expr).bind fun _ =>
      (strict_evalAll env exprs).bind_nil fun _ => strict_ok env _

end

variable {env env' : Environment}

mutual

/-- The value of an expression depends only on what its names stand for. -/
theorem eval_of_names {expr : Expr} (h : ∀ name ∈ expr.names, env.get? name = env'.get? name) :
    expr.eval env = expr.eval env' := by
  match expr with
  | number _ _ | string _ _ | boolean _ _ => rfl
  | array items _ => rw [eval, eval, evalAll_of_namesAll h]
  | identifier name span => exact Environment.lookup_congr (h name List.mem_cons_self) span
  | index name position span =>
    obtain ⟨hname, hposition⟩ := List.forall_mem_cons.mp h
    rw [eval, eval, Environment.lookup_congr hname span, eval_of_names hposition]
  | property name key span =>
    rw [eval, eval, Environment.lookup_congr (h name List.mem_cons_self) span]
  | unary operator operand _ =>
    have hoperand : ∀ name ∈ operand.names, env.get? name = env'.get? name := h
    rw [eval, eval, eval_of_names hoperand]
  | binary operator left right _ =>
    obtain ⟨hleft, hright⟩ := List.forall_mem_append.mp h
    rw [eval, eval, eval_of_names hleft, eval_of_names hright]

theorem evalAll_of_namesAll {exprs : List Expr}
    (h : ∀ name ∈ namesAll exprs, env.get? name = env'.get? name) :
    evalAll env exprs = evalAll env' exprs := by
  match exprs with
  | [] => rfl
  | expr :: exprs =>
    obtain ⟨hexpr, hexprs⟩ := List.forall_mem_append.mp h
    rw [evalAll, evalAll, eval_of_names hexpr, evalAll_of_namesAll hexprs]

end

end Expr

/-- Expressions are strict, and depend on nothing but their names. If an expression has a value then
all names in it have one, also those in an operand that does not decide the result. A name that is
blamed for having no value occurs in the expression and has none. And in environments in which the
names of the expression stand for the same values, whatever their frames are, it has the same value
or the same fault. -/
theorem eval_strict_in_names (expr : Expr) (env : Environment) :
    (∀ value, expr.eval env = .ok value →
      ∀ name ∈ expr.names, ∃ found, env.get? name = some found) ∧
    (∀ fault name, expr.eval env = .error fault → fault.cause = .undefinedVariable name →
      name ∈ expr.names ∧ env.get? name = none) ∧
    ∀ env' : Environment, (∀ name ∈ expr.names, env.get? name = env'.get? name) →
      expr.eval env = expr.eval env' :=
  ⟨(expr.strict_eval env).bound, (expr.strict_eval env).unbound, fun _ => Expr.eval_of_names⟩

/-- A disjunction of two variables. -/
def eitherOf (first second : String) : Expr :=
  .binary .or (.identifier first ⟨0, 1⟩) (.identifier second ⟨4, 5⟩) ⟨0, 5⟩

/-- The second operand is looked up although the first one is true. It does not matter whether the
two are found in one frame or in two. -/
theorem eval_strict_in_names_or :
    let nested : Environment := ⟨[("b", .boolean false)], [[("a", .boolean true)]]⟩
    let flat : Environment := ⟨[("a", .boolean true), ("b", .boolean false)], []⟩
    let lacking : Environment := ⟨[("a", .boolean true)], []⟩
    ((eitherOf "a" "b").eval nested = .ok (.boolean true) ∧
      ∃ found, nested.get? "b" = some found) ∧
    ((eitherOf "a" "b").eval lacking =
        .error ⟨.undefinedVariable "b", ⟨4, 5⟩, some "Assign it before use: `b = ...`."⟩ ∧
      "b" ∈ (eitherOf "a" "b").names ∧ lacking.get? "b" = none) ∧
    (eitherOf "a" "b").eval nested = (eitherOf "a" "b").eval flat := by
  intro nested flat lacking
  have hnested : (eitherOf "a" "b").eval nested = .ok (.boolean true) := rfl
  have hlacking : (eitherOf "a" "b").eval lacking =
      .error ⟨.undefinedVariable "b", ⟨4, 5⟩, some "Assign it before use: `b = ...`."⟩ := rfl
  obtain ⟨hbound, -, hsame⟩ := eval_strict_in_names (eitherOf "a" "b") nested
  obtain ⟨-, hunbound, -⟩ := eval_strict_in_names (eitherOf "a" "b") lacking
  refine ⟨⟨hnested, hbound _ hnested "b" (by decide)⟩, ⟨hlacking, hunbound _ "b" hlacking rfl⟩,
    hsame flat ?_⟩
  intro name hname
  have hnames : name = "a" ∨ name = "b" := by simpa [eitherOf, Expr.names] using hname
  obtain rfl | rfl := hnames
  · rfl
  · rfl

end LineScript
