import LineScript.Machine.Statement
import LineScript.Proofs.Machine.Evaluation
import LineScript.Proofs.Program.Erasure

/-!
# Running ignores spans and declarations of lists

Spans are only copied into faults, and whether a variable was declared for a list is only noted in
the journal. So statements that are the same once both are stripped do the same on machines that are
the same once both are stripped: the same lines, the same variables, and the same faults up to
spans.
-/

namespace LineScript

/-! ### Stripping -/

/-- A fault without its span. -/
def Fault.erase (fault : Fault) : Fault :=
  { fault with span := ⟨0, 0⟩ }

namespace Stmt

mutual

/-- A statement with all its spans erased, and no variable declared for a list. -/
def strip : Stmt → Stmt
  | print value _ => print value.erase ⟨0, 0⟩
  | assign name value _ _ => assign name value.erase false ⟨0, 0⟩
  | function name params body _ => function name params (stripAll body) ⟨0, 0⟩
  | branch condition consequence alternative _ =>
    branch condition.erase (stripAll consequence) (stripAlternative alternative) ⟨0, 0⟩
  | loop count body _ => loop count.erase (stripAll body) ⟨0, 0⟩
  | call name args _ => call name (Expr.eraseAll args) ⟨0, 0⟩

/-- Statements that are all stripped. -/
def stripAll : List Stmt → List Stmt
  | [] => []
  | stmt :: stmts => stmt.strip :: stripAll stmts

/-- The block of an alternative, if there is one, stripped. -/
def stripAlternative : Option (List Stmt) → Option (List Stmt)
  | none => none
  | some stmts => some (stripAll stmts)

end

end Stmt

/-- A program with all its statements stripped. -/
def Program.strip (program : Program) : Program :=
  ⟨Stmt.stripAll program.body⟩

/-- A function with its body stripped. -/
def Procedure.strip (procedure : Procedure) : Procedure :=
  { procedure with body := Stmt.stripAll procedure.body }

/-- A machine with its functions stripped and without its journal. -/
def Machine.strip (machine : Machine) : Machine :=
  { machine with
    functions := machine.functions.map fun entry => (entry.1, entry.2.strip)
    journal := #[] }

/-- What a step leaves, with the machine stripped and the fault without its span. -/
def Outcome.strip (outcome : Outcome) : Outcome :=
  ⟨outcome.machine.strip, outcome.fault?.map Fault.erase⟩

namespace Expr

mutual

theorem erase_erase (expr : Expr) : expr.erase.erase = expr.erase := by
  match expr with
  | number _ _ | string _ _ | boolean _ _ | identifier _ _ | property _ _ _ => rfl
  | array items span => simp only [erase, eraseAll_eraseAll items]
  | index name position span => simp only [erase, erase_erase position]
  | unary operator operand span => simp only [erase, erase_erase operand]
  | binary operator left right span => simp only [erase, erase_erase left, erase_erase right]

theorem eraseAll_eraseAll (exprs : List Expr) : eraseAll (eraseAll exprs) = eraseAll exprs := by
  match exprs with
  | [] => rfl
  | expr :: exprs => simp only [eraseAll, erase_erase expr, eraseAll_eraseAll exprs]

end

end Expr

namespace Stmt

mutual

theorem strip_erase (stmt : Stmt) : stmt.erase.strip = stmt.strip := by
  match stmt with
  | print value span => simp only [erase, strip, Expr.erase_erase]
  | assign name value isList span => simp only [erase, strip, Expr.erase_erase]
  | function name params body span => simp only [erase, strip, stripAll_eraseAll body]
  | branch condition consequence alternative span =>
    simp only [erase, strip, Expr.erase_erase, stripAll_eraseAll consequence,
      stripAlternative_eraseAlternative alternative]
  | loop count body span => simp only [erase, strip, Expr.erase_erase, stripAll_eraseAll body]
  | call name args span => simp only [erase, strip, Expr.eraseAll_eraseAll]

theorem stripAll_eraseAll (stmts : List Stmt) : stripAll (eraseAll stmts) = stripAll stmts := by
  match stmts with
  | [] => rfl
  | stmt :: stmts => simp only [eraseAll, stripAll, strip_erase stmt, stripAll_eraseAll stmts]

theorem stripAlternative_eraseAlternative (alternative : Option (List Stmt)) :
    stripAlternative (eraseAlternative alternative) = stripAlternative alternative := by
  match alternative with
  | none => rfl
  | some stmts => simp only [eraseAlternative, stripAlternative, stripAll_eraseAll stmts]

end

end Stmt

namespace Stmt

mutual

theorem strip_strip (stmt : Stmt) : stmt.strip.strip = stmt.strip := by
  match stmt with
  | print value span => simp only [strip, Expr.erase_erase]
  | assign name value isList span => simp only [strip, Expr.erase_erase]
  | function name params body span => simp only [strip, stripAll_stripAll body]
  | branch condition consequence alternative span =>
    simp only [strip, Expr.erase_erase, stripAll_stripAll consequence,
      stripAlternative_stripAlternative alternative]
  | loop count body span => simp only [strip, Expr.erase_erase, stripAll_stripAll body]
  | call name args span => simp only [strip, Expr.eraseAll_eraseAll]

theorem stripAll_stripAll (stmts : List Stmt) : stripAll (stripAll stmts) = stripAll stmts := by
  match stmts with
  | [] => rfl
  | stmt :: stmts => simp only [stripAll, strip_strip stmt, stripAll_stripAll stmts]

theorem stripAlternative_stripAlternative (alternative : Option (List Stmt)) :
    stripAlternative (stripAlternative alternative) = stripAlternative alternative := by
  match alternative with
  | none => rfl
  | some stmts => simp only [stripAlternative, stripAll_stripAll stmts]

end

end Stmt

/-- Programs that are the same up to spans are the same once they are stripped. -/
theorem Program.strip_of_erase {program other : Program} (h : program.erase = other.erase) :
    program.strip = other.strip := by
  have hbody : Stmt.eraseAll program.body = Stmt.eraseAll other.body := congrArg Program.body h
  rw [Program.strip, Program.strip, ← Stmt.stripAll_eraseAll, hbody, Stmt.stripAll_eraseAll]

/-! ### Expressions -/

/-- Results that are the same up to spans fail for the same cause, if they fail. -/
theorem mapError_cause_of_erase {α : Type} {result result' : Except Fault α}
    (h : result.mapError Fault.erase = result'.mapError Fault.erase) :
    result.mapError Fault.cause = result'.mapError Fault.cause := by
  obtain ⟨value, rfl, rfl⟩ | ⟨fault, fault', rfl, rfl, hfault⟩ := cases_of_mapError h
  · rfl
  · have hcause : fault.erase.cause = fault'.erase.cause := congrArg Fault.cause hfault
    exact congrArg Except.error hcause

namespace Environment

theorem erase_lookup (env : Environment) (name : String) (span span' : Span) :
    (env.lookup name span).mapError Fault.erase = (env.lookup name span').mapError Fault.erase := by
  unfold lookup
  cases env.get? name <;> rfl

end Environment

namespace Value

theorem erase_itemAt (name : String) (items : List Value) (position : Value) (span span' : Span) :
    (itemAt name items position span).mapError Fault.erase =
      (itemAt name items position span').mapError Fault.erase := by
  unfold itemAt
  cases itemAt? items position <;> rfl

theorem erase_property (value : Value) (key : String) (span span' : Span) :
    (value.property key span).mapError Fault.erase =
      (value.property key span').mapError Fault.erase := by
  unfold property
  split <;> rfl

theorem erase_applyUnary (operator : UnaryOperator) (value : Value) (span span' : Span) :
    (applyUnary operator value span).mapError Fault.erase =
      (applyUnary operator value span').mapError Fault.erase := by
  unfold applyUnary
  split <;> rfl

theorem erase_applyBinary (operator : BinaryOperator) (left right : Value) (span span' : Span) :
    (applyBinary operator left right span).mapError Fault.erase =
      (applyBinary operator left right span').mapError Fault.erase := by
  cases operator <;> unfold applyBinary <;> dsimp only <;> first | rfl | (split <;> try rfl)
  split <;> rfl

end Value

namespace Expr

variable (env : Environment)

mutual

/-- The spans of an expression show in nothing but the span of its fault. -/
theorem eval_erase (expr : Expr) :
    (expr.eval env).mapError Fault.erase = (expr.erase.eval env).mapError Fault.erase := by
  match expr with
  | number _ _ | string _ _ | boolean _ _ => rfl
  | array items span =>
    rw [erase, eval_array, eval_array]
    exact mapError_bind (evalAll_eraseAll items) fun _ => rfl
  | identifier name span => exact env.erase_lookup name span ⟨0, 0⟩
  | index name position span =>
    -- The position is evaluated only if the variable holds a list.
    rw [erase, eval_index, eval_index]
    refine mapError_bind (env.erase_lookup name span ⟨0, 0⟩) fun value => ?_
    cases value with
    | list items =>
      exact mapError_bind (eval_erase position) fun value => Value.erase_itemAt name items value _ _
    | _ => rfl
  | property name key span =>
    rw [erase, eval_property, eval_property]
    exact mapError_bind (env.erase_lookup name span ⟨0, 0⟩) fun value =>
      value.erase_property key _ _
  | unary operator operand span =>
    rw [erase, eval_unary, eval_unary]
    exact mapError_bind (eval_erase operand) fun value => Value.erase_applyUnary operator value _ _
  | binary operator left right span =>
    rw [erase, eval_binary, eval_binary]
    exact mapError_bind (eval_erase left) fun l =>
      mapError_bind (eval_erase right) fun r => Value.erase_applyBinary operator l r _ _

theorem evalAll_eraseAll (exprs : List Expr) :
    (evalAll env exprs).mapError Fault.erase =
      (evalAll env (eraseAll exprs)).mapError Fault.erase := by
  match exprs with
  | [] => rfl
  | expr :: exprs =>
    rw [eraseAll, evalAll_cons, evalAll_cons]
    exact mapError_bind (eval_erase expr) fun value =>
      mapError_bind (evalAll_eraseAll exprs) fun _ => rfl

end

/-- Expressions that are the same up to spans have the same value, or the same fault up to its
span. -/
theorem eval_of_erase {expr other : Expr} (h : expr.erase = other.erase) :
    (expr.eval env).mapError Fault.erase = (other.eval env).mapError Fault.erase := by
  rw [eval_erase, h, ← eval_erase]

theorem evalAll_of_eraseAll {exprs others : List Expr}
    (h : eraseAll exprs = eraseAll others) :
    (evalAll env exprs).mapError Fault.erase = (evalAll env others).mapError Fault.erase := by
  rw [evalAll_eraseAll, h, ← evalAll_eraseAll]

end Expr

/-! ### Machines -/

namespace Table

variable {α β : Type} (f : α → β)

theorem get?_map (table : Table α) (name : String) :
    get? (table.map fun entry => (entry.1, f entry.2)) name = (table.get? name).map f := by
  induction table with
  | nil => rfl
  | cons entry rest ih =>
    obtain ⟨key, value⟩ := entry
    have ih' : List.lookup name (rest.map fun entry => (entry.1, f entry.2)) =
        (List.lookup name rest).map f := ih
    simp only [get?, List.map_cons, List.lookup_cons]
    cases name == key <;> simp [ih']

theorem map_insert (table : Table α) (name : String) (value : α) :
    ((table.insert name value).map fun entry => (entry.1, f entry.2)) =
      insert (table.map fun entry => (entry.1, f entry.2)) name (f value) := by
  induction table with
  | nil => rfl
  | cons entry rest ih =>
    simp only [insert, List.map_cons]
    split
    · rfl
    · rw [List.map_cons, ih]

end Table

namespace Machine

theorem strip_defineFunction (machine : Machine) (name : String) (procedure : Procedure) :
    (machine.defineFunction name procedure).strip =
      machine.strip.defineFunction name procedure.strip := by
  simp only [defineFunction, strip, Table.map_insert]

theorem strip_noteDeclaration (machine : Machine) (name : String) (isList : Bool) (value : Value) :
    (machine.noteDeclaration name isList value).strip = machine.strip := by
  unfold noteDeclaration
  split <;> rfl

theorem strip_noteArguments (machine : Machine) (name : String) (procedure : Procedure)
    (values : List Value) :
    (machine.noteArguments name procedure values).strip = machine.strip := by
  unfold noteArguments
  split <;> rfl

theorem env_of_strip {machine machine' : Machine} (h : machine.strip = machine'.strip) :
    machine.env = machine'.env := by
  show machine.strip.env = machine'.strip.env
  rw [h]

/-- Machines that are the same once stripped know the same functions, up to what is stripped. -/
theorem functions_of_strip {machine machine' : Machine} (h : machine.strip = machine'.strip)
    (name : String) : (machine.functions.get? name).map Procedure.strip =
      (machine'.functions.get? name).map Procedure.strip := by
  rw [← Table.get?_map, ← Table.get?_map]
  exact congrArg (fun machine => machine.functions.get? name) h

theorem functions_cases_of_strip {machine machine' : Machine}
    (h : machine.strip = machine'.strip) (name : String) :
    (machine.functions.get? name = none ∧ machine'.functions.get? name = none) ∨
      ∃ procedure procedure', machine.functions.get? name = some procedure ∧
        machine'.functions.get? name = some procedure' ∧ procedure.strip = procedure'.strip := by
  have hfound := functions_of_strip h name
  cases hget : machine.functions.get? name with
  | none =>
    rw [hget] at hfound
    exact .inl ⟨rfl, by simpa using hfound.symm⟩
  | some procedure =>
    rw [hget] at hfound
    obtain ⟨procedure', hget', hstrip⟩ := Option.map_eq_some_iff.mp hfound.symm
    exact .inr ⟨procedure, procedure', rfl, hget', hstrip.symm⟩

theorem strip_fail {machine machine' : Machine} (hsame : machine.strip = machine'.strip)
    {fault fault' : Fault} (hfault : fault.erase = fault'.erase) :
    (machine.fail fault).strip = (machine'.fail fault').strip := by
  simp only [fail, Outcome.strip, hsame, Option.map_some, hfault]

/-- Two steps leave the same, once stripped, of machines that are the same once stripped. -/
def Agree (step step' : Machine → Outcome) : Prop :=
  ∀ machine machine', machine.strip = machine'.strip →
    (step machine).strip = (step' machine').strip

namespace Agree

variable {first first' second second' : Machine → Outcome}

theorem symm (h : Agree first second) : Agree second first :=
  fun machine machine' hsame => (h machine' machine hsame.symm).symm

theorem trans {third : Machine → Outcome} (h : Agree first second) (h' : Agree second third) :
    Agree first third :=
  fun machine machine' hsame => (h machine machine' hsame).trans (h' machine' machine' rfl)

theorem andThen (hfirst : Agree first first') (hsecond : Agree second second') :
    Agree (fun machine => (first machine).andThen second)
      (fun machine => (first' machine).andThen second') := by
  intro machine machine' hsame
  have houtcome := hfirst machine machine' hsame
  show ((first machine).andThen second).strip = ((first' machine').andThen second').strip
  generalize first machine = outcome at houtcome ⊢
  generalize first' machine' = outcome' at houtcome ⊢
  obtain ⟨after, fault?⟩ := outcome
  obtain ⟨after', fault?'⟩ := outcome'
  have hmachine : after.strip = after'.strip := congrArg Outcome.machine houtcome
  have hfault : fault?.map Fault.erase = fault?'.map Fault.erase := congrArg Outcome.fault? houtcome
  cases fault? with
  | none =>
    obtain rfl : fault?' = none := by simpa using hfault.symm
    exact hsecond after after' hmachine
  | some fault =>
    cases fault?' with
    | none => cases hfault
    | some fault' => exact houtcome

theorem times (h : Agree first first') (count : Nat) :
    Agree (Machine.times count first) (Machine.times count first') := by
  induction count with
  | zero => exact fun _ _ hsame => congrArg (Outcome.mk · none) hsame
  | succ count ih => exact h.andThen ih

theorem leave (h : Agree first first') :
    Agree (fun machine => ⟨(first machine).machine.leave, (first machine).fault?⟩)
      (fun machine => ⟨(first' machine).machine.leave, (first' machine).fault?⟩) := by
  intro machine machine' hsame
  show Outcome.mk (first machine).strip.machine.leave (first machine).strip.fault? =
    Outcome.mk (first' machine').strip.machine.leave (first' machine').strip.fault?
  rw [h machine machine' hsame]

end Agree

/-- What follows an expression agrees if it does for every value. -/
theorem strip_evaluate {machine machine' : Machine} (hsame : machine.strip = machine'.strip)
    {expr expr' : Expr} (hexpr : expr.erase = expr'.erase) {next next' : Value → Outcome}
    (h : ∀ value, (next value).strip = (next' value).strip) :
    (machine.evaluate expr next).strip = (machine'.evaluate expr' next').strip := by
  have hvalue := Expr.eval_of_erase machine.env hexpr
  rw [evaluate, evaluate, ← env_of_strip hsame]
  obtain ⟨value, hleft, hright⟩ | ⟨fault, fault', hleft, hright, hfault⟩ :=
    cases_of_mapError hvalue
  · rw [hleft, hright]
    exact h value
  · rw [hleft, hright]
    exact strip_fail hsame hfault

end Machine

namespace Stmt

open Machine

variable {call call' : Caller}

mutual

/-- A statement does the same as when it is stripped, if calls do. -/
theorem agree_exec
    (hcall : ∀ name args span,
      Agree (call name args span) (call' name (Expr.eraseAll args) ⟨0, 0⟩))
    (stmt : Stmt) : Agree (stmt.exec call) (stmt.strip.exec call') := by
  intro machine machine' hsame
  match stmt with
  | print value span =>
    rw [strip, exec, exec]
    refine strip_evaluate hsame value.erase_erase.symm fun value => ?_
    show (machine.strip.print value.display).done = (machine'.strip.print value.display).done
    rw [hsame]
  | assign name value isList span =>
    rw [strip, exec, exec]
    refine strip_evaluate hsame value.erase_erase.symm fun value => ?_
    -- The two may differ in what they note, and that is not part of a stripped machine.
    show ((machine.noteDeclaration name isList value).strip.define name value).done =
      ((machine'.noteDeclaration name false value).strip.define name value).done
    rw [strip_noteDeclaration, strip_noteDeclaration, hsame]
  | function name params body span =>
    rw [strip, exec, exec]
    show (machine.defineFunction name ⟨params, body⟩).strip.done =
      (machine'.defineFunction name ⟨params, stripAll body⟩).strip.done
    rw [strip_defineFunction, strip_defineFunction, hsame, Procedure.strip, Procedure.strip,
      stripAll_stripAll]
  | branch condition consequence alternative span =>
    rw [strip, exec, exec]
    refine strip_evaluate hsame condition.erase_erase.symm fun value => ?_
    split
    · exact agree_execAll hcall consequence machine machine' hsame
    · exact agree_execAlternative hcall alternative machine machine' hsame
  | loop count body span =>
    rw [strip, exec, exec]
    refine strip_evaluate hsame count.erase_erase.symm fun value => ?_
    split
    · exact strip_fail hsame rfl
    · exact (agree_execAll hcall body).times _ machine machine' hsame
  | Stmt.call name args span =>
    rw [strip, exec, exec]
    exact hcall name args span machine machine' hsame

theorem agree_execAll
    (hcall : ∀ name args span,
      Agree (call name args span) (call' name (Expr.eraseAll args) ⟨0, 0⟩))
    (stmts : List Stmt) : Agree (execAll call stmts) (execAll call' (stripAll stmts)) := by
  intro machine machine' hsame
  match stmts with
  | [] => exact congrArg (Outcome.mk · none) hsame
  | stmt :: stmts =>
    rw [stripAll, execAll, execAll]
    exact (agree_exec hcall stmt).andThen (agree_execAll hcall stmts) machine machine' hsame

theorem agree_execAlternative
    (hcall : ∀ name args span,
      Agree (call name args span) (call' name (Expr.eraseAll args) ⟨0, 0⟩))
    (alternative : Option (List Stmt)) :
    Agree (execAlternative call alternative)
      (execAlternative call' (stripAlternative alternative)) := by
  intro machine machine' hsame
  match alternative with
  | none => exact congrArg (Outcome.mk · none) hsame
  | some stmts =>
    rw [stripAlternative, execAlternative, execAlternative]
    exact agree_execAll hcall stmts machine machine' hsame

end

end Stmt

namespace Stmt

open Machine

/-- Statements that are the same once stripped do the same, if calls do. -/
theorem agree_of_stripAll {call : Caller}
    (hcall : ∀ name {args args' : List Expr} (span span' : Span),
      Expr.eraseAll args = Expr.eraseAll args' →
        Agree (call name args span) (call name args' span'))
    {stmts stmts' : List Stmt} (h : stripAll stmts = stripAll stmts') :
    Agree (execAll call stmts) (execAll call stmts') := by
  -- Each of the two does the same as the stripped statements, which are the same.
  have hstripped (stmts : List Stmt) : Agree (execAll call stmts) (execAll call (stripAll stmts)) :=
    agree_execAll (fun name args span => hcall name span ⟨0, 0⟩ (Expr.eraseAll_eraseAll args).symm)
      stmts
  exact (hstripped stmts).trans (h ▸ (hstripped stmts').symm)

end Stmt

namespace Machine

/-- Calls whose arguments are the same up to spans do the same. -/
theorem agree_callWithin (limit room : Nat) (name : String) {args args' : List Expr}
    (span span' : Span) (hargs : Expr.eraseAll args = Expr.eraseAll args') :
    Agree (callWithin limit room name args span) (callWithin limit room name args' span') := by
  induction room generalizing name args args' span span' with
  | zero =>
    intro machine machine' hsame
    obtain ⟨hnone, hnone'⟩ | ⟨procedure, procedure', hfound, hfound', -⟩ :=
      functions_cases_of_strip hsame name
    · rw [callWithin, callWithin, hnone, hnone']
      exact strip_fail hsame rfl
    · rw [callWithin, callWithin, hfound, hfound']
      exact strip_fail hsame rfl
  | succ room ih =>
    intro machine machine' hsame
    obtain ⟨hnone, hnone'⟩ | ⟨procedure, procedure', hfound, hfound', hprocedure⟩ :=
      functions_cases_of_strip hsame name
    · rw [callWithin, callWithin, hnone, hnone']
      exact strip_fail hsame rfl
    have hparams : procedure.params = procedure'.params := by
      show procedure.strip.params = procedure'.strip.params
      rw [hprocedure]
    have hbody : Stmt.stripAll procedure.body = Stmt.stripAll procedure'.body :=
      congrArg Procedure.body hprocedure
    have hvalues := Expr.evalAll_of_eraseAll machine.env hargs
    rw [callWithin, callWithin, hfound, hfound']
    dsimp only
    rw [← env_of_strip hsame]
    obtain ⟨values, hleft, hright⟩ | ⟨fault, fault', hleft, hright, hfault⟩ :=
      cases_of_mapError hvalues
    · rw [hleft, hright]
      -- Both calls enter with the same frame, and their bodies agree by the induction hypothesis.
      have hbodies := Stmt.agree_of_stripAll (fun name _ _ => ih name) hbody
      have hframe : procedure.frame values = procedure'.frame values := by
        rw [Procedure.frame, Procedure.frame, hparams]
      refine hbodies.leave _ _ ?_
      show (machine.noteArguments name procedure values).strip.enter _ =
        (machine'.noteArguments name procedure' values).strip.enter _
      rw [strip_noteArguments, strip_noteArguments, hsame, hframe]
    · rw [hleft, hright]
      exact strip_fail hsame hfault

theorem agree_execAll (limit : Nat) {stmts stmts' : List Stmt}
    (h : Stmt.stripAll stmts = Stmt.stripAll stmts') :
    Agree (Machine.execAll limit stmts) (Machine.execAll limit stmts') := by
  intro machine machine' hsame
  rw [Machine.execAll, Machine.execAll, env_of_strip hsame]
  exact Stmt.agree_of_stripAll (fun name _ _ => agree_callWithin limit _ name) h machine machine'
    hsame

/-- Running ignores spans and declarations of lists: programs that are the same once stripped print
the same lines or have the same fault up to its span, and leave machines that are the same once
stripped. -/
theorem run_of_strip (limit : Nat) {program program' : Program}
    (h : program.strip = program'.strip) {machine machine' : Machine}
    (hsame : machine.strip = machine'.strip) :
    (machine.run limit program).1.mapError Fault.erase =
        (machine'.run limit program').1.mapError Fault.erase ∧
      (machine.run limit program).2.strip = (machine'.run limit program').2.strip := by
  have houtcome := agree_execAll limit (congrArg Program.body h) machine machine' hsame
  rw [run, run]
  generalize machine.execAll limit program.body = outcome at houtcome ⊢
  generalize machine'.execAll limit program'.body = outcome' at houtcome ⊢
  obtain ⟨after, fault?⟩ := outcome
  obtain ⟨after', fault?'⟩ := outcome'
  have hmachine : after.strip = after'.strip := congrArg Outcome.machine houtcome
  have hfault : fault?.map Fault.erase = fault?'.map Fault.erase := congrArg Outcome.fault? houtcome
  have hprinted : after.printed = after'.printed := by
    show after.strip.printed = after'.strip.printed
    rw [hmachine]
  cases fault? with
  | none =>
    obtain rfl : fault?' = none := by simpa using hfault.symm
    refine ⟨?_, ?_⟩
    · show Except.ok after.printed.toList = Except.ok after'.printed.toList
      rw [hprinted]
    · show { after.strip with printed := #[] } = { after'.strip with printed := #[] }
      rw [hmachine]
  | some fault =>
    cases fault?' with
    | none => cases hfault
    | some fault' => exact ⟨congrArg Except.error (Option.some.inj hfault), hmachine⟩

end Machine

end LineScript
