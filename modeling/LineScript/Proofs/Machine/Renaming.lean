import LineScript.Proofs.Machine.Frames
import LineScript.Proofs.Machine.Strictness
import Mathlib.Data.Set.Function

/-!
# Names matter only up to equality

Variables and functions are looked up by name in tables of their own, and names are only ever
compared. So a program in which all names are replaced, those of variables and those of functions
independently of each other, runs in the same way, as long as different names of a kind stay
different: it prints the same lines, or fails for the same cause with the names replaced.

The relation that carries this is `Machine.Renames`: under their other names, names stand for the
same values and the same functions. It says nothing about names that do not occur in the program, so
what the renaming does to those is of no account.
-/

namespace LineScript

/-! ### Faults -/

/-- A cause with other names. -/
def Cause.rename (names : Renaming) : Cause → Cause
  | undefinedVariable name => undefinedVariable (names.ofVariable name)
  | undefinedFunction name => undefinedFunction (names.ofFunction name)
  | notAList name found => notAList (names.ofVariable name) found
  | cause => cause

namespace Fault

/-- A fault without its advice. -/
def withoutHelp (fault : Fault) : Fault :=
  { fault with help := none }

/-- A fault with other names, and without its advice. -/
def rename (names : Renaming) (fault : Fault) : Fault :=
  { cause := fault.cause.rename names, span := fault.span }

/-- The fault of an operation on values tells no names. -/
theorem IsOfOperation.rename_eq {span : Span} {fault : Fault} (h : fault.IsOfOperation span)
    (names : Renaming) : fault.rename names = fault.withoutHelp := by
  obtain ⟨cause, span, help⟩ := fault
  have hcause : cause.IsOfOperation := h.cause
  cases cause with
  | indexOutOfBounds | divisionByZero | typeMismatch | unknownProperty => rfl
  | _ => exact hcause.elim

end Fault

/-! ### Expressions -/

section

variable {names : Renaming} {span : Span}

/-- An operation on values fails, if it fails, with a fault that tells no names. -/
theorem mapError_rename_of_operation {α : Type} {result : Except Fault α}
    (h : FailsOnly (Fault.IsOfOperation span) result) :
    result.mapError Fault.withoutHelp = result.mapError (Fault.rename names) := by
  cases result with
  | ok value => rfl
  | error fault => exact congrArg Except.error ((h fault rfl).rename_eq names).symm

/-- The name of the list shows only in advice. -/
theorem Value.mapError_itemAt (name other : String) (items : List Value) (position : Value)
    (span : Span) :
    (itemAt other items position span).mapError Fault.withoutHelp =
      (itemAt name items position span).mapError (Fault.rename names) := by
  rw [← mapError_rename_of_operation (failsOnly_itemAt name items position span)]
  unfold itemAt
  cases itemAt? items position <;> rfl

variable {env env' : Environment}

theorem Environment.mapError_lookup {name : String}
    (h : env'.get? (names.ofVariable name) = env.get? name) (span : Span) :
    (env'.lookup (names.ofVariable name) span).mapError Fault.withoutHelp =
      (env.lookup name span).mapError (Fault.rename names) := by
  rw [lookup, lookup, h]
  cases env.get? name <;> rfl

namespace Expr

mutual

/-- An expression has the same value with other names, if these stand for the same values. -/
theorem eval_rename {expr : Expr}
    (h : ∀ name ∈ expr.names, env'.get? (names.ofVariable name) = env.get? name) :
    ((expr.rename names).eval env').mapError Fault.withoutHelp =
      (expr.eval env).mapError (Fault.rename names) := by
  match expr with
  | number _ _ | string _ _ | boolean _ _ => rfl
  | array items _ =>
    rw [rename, eval_array, eval_array]
    exact mapError_bind (evalAll_renameAll h) fun _ => rfl
  | identifier name span => exact Environment.mapError_lookup (h name List.mem_cons_self) span
  | index name position span =>
    obtain ⟨hname, hposition⟩ := List.forall_mem_cons.mp h
    rw [rename, eval_index, eval_index]
    refine mapError_bind (Environment.mapError_lookup hname span) fun value => ?_
    cases value with
    | list items =>
      rw [indexed, indexed, span_rename]
      exact mapError_bind (eval_rename hposition) fun value =>
        Value.mapError_itemAt name _ items value _
    | number | string | boolean | undefined => rfl
  | property name key span =>
    rw [rename, eval_property, eval_property]
    exact mapError_bind (Environment.mapError_lookup (h name List.mem_cons_self) span) fun value =>
      mapError_rename_of_operation (value.failsOnly_property key span)
  | unary operator operand span =>
    have hoperand : ∀ name ∈ operand.names,
        env'.get? (names.ofVariable name) = env.get? name := h
    rw [rename, eval_unary, eval_unary]
    exact mapError_bind (eval_rename hoperand) fun value =>
      mapError_rename_of_operation (Value.failsOnly_applyUnary operator value span)
  | binary operator left right span =>
    obtain ⟨hleft, hright⟩ := List.forall_mem_append.mp h
    rw [rename, eval_binary, eval_binary]
    exact mapError_bind (eval_rename hleft) fun l => mapError_bind (eval_rename hright) fun r =>
      mapError_rename_of_operation (Value.failsOnly_applyBinary operator l r span)

theorem evalAll_renameAll {exprs : List Expr}
    (h : ∀ name ∈ namesAll exprs, env'.get? (names.ofVariable name) = env.get? name) :
    (evalAll env' (renameAll names exprs)).mapError Fault.withoutHelp =
      (evalAll env exprs).mapError (Fault.rename names) := by
  match exprs with
  | [] => rfl
  | expr :: exprs =>
    obtain ⟨hexpr, hexprs⟩ := List.forall_mem_append.mp h
    rw [renameAll, evalAll_cons, evalAll_cons]
    exact mapError_bind (eval_rename hexpr) fun _ =>
      mapError_bind (evalAll_renameAll hexprs) fun _ => rfl

end

end Expr

end

/-! ### Tables -/

namespace Table

variable {α β : Type}

/-- Entries that are the same under other names stay so if one is given to a name and to its other
name. -/
theorem get?_insert_rename {f : String → String} {keys : Set String} (hf : Set.InjOn f keys)
    {g : α → β} {table : Table α} {table' : Table β}
    (h : ∀ key ∈ keys, table'.get? (f key) = (table.get? key).map g) {name : String}
    (hname : name ∈ keys) (value : α) :
    ∀ key ∈ keys, (table'.insert (f name) (g value)).get? (f key) =
      ((table.insert name value).get? key).map g := by
  intro key hkey
  by_cases heq : key = name
  · rw [heq, get?_insert_self, get?_insert_self]
    rfl
  · have hne : f key ≠ f name := fun hsame => heq (hf hkey hname hsame)
    rw [get?_insert_of_ne _ hne, get?_insert_of_ne _ heq, h key hkey]

end Table

namespace Procedure

/-- A function with other names. -/
def rename (names : Renaming) (procedure : Procedure) : Procedure :=
  ⟨procedure.params.map names.ofVariable, Stmt.renameAll names procedure.body⟩

/-- The variables of a call are the same under other names. -/
theorem get?_frame_rename {names : Renaming} {vars : Set String}
    (hvars : Set.InjOn names.ofVariable vars) (procedure : Procedure)
    (hparams : ∀ param ∈ procedure.params, param ∈ vars) (values : List Value) :
    ∀ name ∈ vars, ((procedure.rename names).frame values).get? (names.ofVariable name) =
      (procedure.frame values).get? name := by
  -- The parameters are put one after the other into two tables that begin the same.
  have hbind : ∀ (params : List String) (values : List Value) (table table' : Frame),
      (∀ param ∈ params, param ∈ vars) →
      (∀ name ∈ vars, table'.get? (names.ofVariable name) = (table.get? name).map id) →
      ∀ name ∈ vars,
        Table.get? ((bind (params.map names.ofVariable) values).foldl
          (fun table (name, value) => table.insert name value) table') (names.ofVariable name) =
        (Table.get? ((bind params values).foldl
          (fun table (name, value) => table.insert name value) table) name).map id := by
    intro params
    induction params with
    | nil =>
      intro values table table' _ h
      cases values <;> exact h
    | cons param params ih =>
      intro values table table' hparams h
      obtain ⟨hparam, hparams⟩ := List.forall_mem_cons.mp hparams
      cases values with
      | nil => exact ih [] _ _ hparams (Table.get?_insert_rename hvars h hparam .undefined)
      | cons value values =>
        exact ih values _ _ hparams (Table.get?_insert_rename hvars h hparam value)
  intro name hname
  have hframe := hbind procedure.params values [] [] hparams (fun _ _ => rfl) name hname
  rwa [Option.map_id_fun, id_eq] at hframe

end Procedure

/-! ### Machines -/

/-- The names of a function are among the given ones. -/
structure Procedure.Within (vars funs : Set String) (procedure : Procedure) : Prop where
  /-- The names of its parameters. -/
  params : ∀ name ∈ procedure.params, name ∈ vars
  /-- The names of variables in its body. -/
  bodyVariables : ∀ name ∈ Stmt.variableNamesAll procedure.body, name ∈ vars
  /-- The names of functions in its body. -/
  bodyFunctions : ∀ name ∈ Stmt.functionNamesAll procedure.body, name ∈ funs

/-- The given names, under which one machine knows values and functions, have other names under
which another machine knows the same. -/
structure Machine.Renames (names : Renaming) (vars funs : Set String) (machine machine' : Machine) :
    Prop where
  /-- The values of variables. -/
  values : ∀ name ∈ vars, machine'.env.get? (names.ofVariable name) = machine.env.get? name
  /-- The functions, with other names in their bodies. -/
  functions : ∀ name ∈ funs, machine'.functions.get? (names.ofFunction name) =
    (machine.functions.get? name).map (Procedure.rename names)
  /-- No other names occur in functions. -/
  within : ∀ name procedure, machine.functions.get? name = some procedure →
    procedure.Within vars funs
  /-- The same lines were printed. -/
  printed : machine'.printed = machine.printed

/-- Two steps leave machines that know the same under other names, and fail for the same cause with
other names, or not at all. -/
structure Outcome.Renames (names : Renaming) (vars funs : Set String) (outcome outcome' : Outcome) :
    Prop where
  /-- What the steps leave. -/
  machine : outcome.machine.Renames names vars funs outcome'.machine
  /-- Why they fail. -/
  fault : outcome'.fault?.map Fault.withoutHelp = outcome.fault?.map (Fault.rename names)

section

variable {names : Renaming} {vars funs : Set String} {machine machine' : Machine}

theorem Outcome.Renames.andThen {outcome outcome' : Outcome} {next next' : Machine → Outcome}
    (h : outcome.Renames names vars funs outcome')
    (hnext : ∀ machine machine', machine.Renames names vars funs machine' →
      (next machine).Renames names vars funs (next' machine')) :
    (outcome.andThen next).Renames names vars funs (outcome'.andThen next') := by
  obtain ⟨after, fault?⟩ := outcome
  obtain ⟨after', fault?'⟩ := outcome'
  obtain ⟨hmachine, hfault⟩ := h
  cases fault? with
  | none =>
    obtain rfl : fault?' = none := Option.map_eq_none_iff.mp hfault
    exact hnext after after' hmachine
  | some fault =>
    cases fault?' with
    | none => cases hfault
    | some fault' => exact ⟨hmachine, hfault⟩

namespace Machine.Renames

theorem times {step step' : Machine → Outcome}
    (hstep : ∀ machine machine', machine.Renames names vars funs machine' →
      (step machine).Renames names vars funs (step' machine')) (count : Nat)
    (h : machine.Renames names vars funs machine') :
    (machine.times count step).Renames names vars funs (machine'.times count step') := by
  induction count generalizing machine machine' with
  | zero => exact ⟨h, rfl⟩
  | succ count ih => exact (hstep machine machine' h).andThen fun _ _ => ih

theorem fail (h : machine.Renames names vars funs machine') {fault fault' : Fault}
    (hfault : fault'.withoutHelp = fault.rename names) :
    (machine.fail fault).Renames names vars funs (machine'.fail fault') :=
  ⟨h, congrArg some hfault⟩

/-- What is noted is of no account. -/
theorem note (h : machine.Renames names vars funs machine') (event event' : Event) :
    (machine.note event).Renames names vars funs (machine'.note event') :=
  ⟨h.values, h.functions, h.within, h.printed⟩

theorem noteDeclaration (h : machine.Renames names vars funs machine') (name name' : String)
    (isList : Bool) (value : Value) :
    (machine.noteDeclaration name isList value).Renames names vars funs
      (machine'.noteDeclaration name' isList value) := by
  cases isList with
  | false => cases value <;> exact h
  | true =>
    cases value with
    | list items => exact h
    | number | string | boolean | undefined => exact h.note _ _

theorem noteArguments (h : machine.Renames names vars funs machine') (name name' : String)
    (procedure : Procedure) (values : List Value) :
    (machine.noteArguments name procedure values).Renames names vars funs
      (machine'.noteArguments name' (procedure.rename names) values) := by
  have hlength : (procedure.rename names).params.length = procedure.params.length :=
    List.length_map _
  rw [Machine.noteArguments, Machine.noteArguments, hlength]
  split
  · exact h.note _ _
  · exact h

theorem define (hvars : Set.InjOn names.ofVariable vars)
    (h : machine.Renames names vars funs machine') {name : String} (hname : name ∈ vars)
    (value : Value) :
    (machine.define name value).Renames names vars funs
      (machine'.define (names.ofVariable name) value) := by
  refine ⟨fun other hother => ?_, h.functions, h.within, h.printed⟩
  show (machine'.env.define _ value).get? _ = (machine.env.define name value).get? other
  by_cases heq : other = name
  · rw [heq, Environment.get?_define_self, Environment.get?_define_self]
  · have hne : names.ofVariable other ≠ names.ofVariable name :=
      fun hsame => heq (hvars hother hname hsame)
    rw [Environment.get?_define_of_ne _ heq, Environment.get?_define_of_ne _ hne,
      h.values other hother]

theorem defineFunction (hfuns : Set.InjOn names.ofFunction funs)
    (h : machine.Renames names vars funs machine') {name : String} (hname : name ∈ funs)
    {procedure : Procedure} (hprocedure : procedure.Within vars funs) :
    (machine.defineFunction name procedure).Renames names vars funs
      (machine'.defineFunction (names.ofFunction name) (procedure.rename names)) := by
  refine ⟨h.values, Table.get?_insert_rename hfuns h.functions hname procedure, ?_, h.printed⟩
  intro other found hfound
  by_cases heq : other = name
  · subst heq
    obtain rfl : procedure = found :=
      Option.some.inj ((Table.get?_insert_self _ _ _).symm.trans hfound)
    exact hprocedure
  · exact h.within other found ((Table.get?_insert_of_ne _ heq _).symm.trans hfound)

/-- A call is entered with variables that are the same under other names. -/
theorem enter (hvars : Set.InjOn names.ofVariable vars)
    (h : machine.Renames names vars funs machine') {procedure : Procedure}
    (hparams : ∀ param ∈ procedure.params, param ∈ vars) (values : List Value) :
    (machine.enter (procedure.frame values)).Renames names vars funs
      (machine'.enter ((procedure.rename names).frame values)) := by
  refine ⟨fun name hname => ?_, h.functions, h.within, h.printed⟩
  show (machine'.env.push _).get? _ = (machine.env.push _).get? name
  rw [Environment.get?_push, Environment.get?_push, h.values name hname,
    Procedure.get?_frame_rename hvars procedure hparams values name hname]

theorem evaluate (h : machine.Renames names vars funs machine') {expr : Expr}
    (hexpr : ∀ name ∈ expr.names, name ∈ vars) {next next' : Value → Outcome}
    (hnext : ∀ value, (next value).Renames names vars funs (next' value)) :
    (machine.evaluate expr next).Renames names vars funs
      (machine'.evaluate (expr.rename names) next') := by
  have hvalue := Expr.eval_rename fun name hname => h.values name (hexpr name hname)
  rw [Machine.evaluate, Machine.evaluate]
  obtain ⟨value, hright, hleft⟩ | ⟨fault', fault, hright, hleft, hfault⟩ :=
    cases_of_mapError hvalue
  · rw [hleft, hright]
    exact hnext value
  · rw [hleft, hright]
    exact h.fail hfault

end Machine.Renames

/-! ### Statements -/

/-- Among the given names, different ones have different other names. -/
structure Renaming.InjOn (names : Renaming) (vars funs : Set String) : Prop where
  /-- Those of variables. -/
  ofVariable : Set.InjOn names.ofVariable vars
  /-- Those of functions. -/
  ofFunction : Set.InjOn names.ofFunction funs

/-- Two ways to run calls do the same under other names. -/
def RenamesCalls (names : Renaming) (vars funs : Set String) (call call' : Caller) : Prop :=
  ∀ name args span, name ∈ funs → (∀ name ∈ Expr.namesAll args, name ∈ vars) →
    ∀ machine machine', machine.Renames names vars funs machine' →
      (call name args span machine).Renames names vars funs
        (call' (names.ofFunction name) (Expr.renameAll names args) span machine')

namespace Stmt

variable {call call' : Caller}

mutual

/-- A statement does the same under other names, if calls do. -/
theorem renames_exec (hinj : names.InjOn vars funs)
    (hcall : RenamesCalls names vars funs call call') (stmt : Stmt)
    (hvariables : ∀ name ∈ stmt.variableNames, name ∈ vars)
    (hfunctions : ∀ name ∈ stmt.functionNames, name ∈ funs) (machine machine' : Machine)
    (h : machine.Renames names vars funs machine') :
    (stmt.exec call machine).Renames names vars funs
      ((stmt.rename names).exec call' machine') := by
  match stmt with
  | print value span =>
    rw [rename, exec, exec]
    refine h.evaluate hvariables fun value => ⟨?_, rfl⟩
    exact { h with printed := congrArg (·.push value.display) h.printed }
  | assign name value isList span =>
    obtain ⟨hname, hvalue⟩ := List.forall_mem_cons.mp hvariables
    rw [rename, exec, exec]
    refine h.evaluate hvalue fun value => ⟨?_, rfl⟩
    exact (h.noteDeclaration name _ isList value).define hinj.ofVariable hname value
  | function name params body span =>
    obtain ⟨hparams, hbody⟩ := List.forall_mem_append.mp hvariables
    obtain ⟨hname, hinner⟩ := List.forall_mem_cons.mp hfunctions
    rw [rename, exec, exec]
    exact ⟨h.defineFunction hinj.ofFunction hname ⟨hparams, hbody, hinner⟩, rfl⟩
  | branch condition consequence alternative span =>
    obtain ⟨hcondition, hblocks⟩ := List.forall_mem_append.mp hvariables
    obtain ⟨hconsequence, halternative⟩ := List.forall_mem_append.mp hblocks
    obtain ⟨hinner, hother⟩ := List.forall_mem_append.mp hfunctions
    rw [rename, exec, exec]
    refine h.evaluate hcondition fun value => ?_
    split
    · exact renames_execAll hinj hcall consequence hconsequence hinner machine machine' h
    · exact renames_execAlternative hinj hcall alternative halternative hother machine machine' h
  | loop count body span =>
    obtain ⟨hcount, hbody⟩ := List.forall_mem_append.mp hvariables
    rw [rename, exec, exec]
    refine h.evaluate hcount fun value => ?_
    split
    · exact h.fail rfl
    · exact h.times (renames_execAll hinj hcall body hbody hfunctions) _
  | Stmt.call name args span =>
    rw [rename, exec, exec]
    exact hcall name args span (hfunctions name List.mem_cons_self) hvariables machine machine' h

theorem renames_execAll (hinj : names.InjOn vars funs)
    (hcall : RenamesCalls names vars funs call call') (stmts : List Stmt)
    (hvariables : ∀ name ∈ variableNamesAll stmts, name ∈ vars)
    (hfunctions : ∀ name ∈ functionNamesAll stmts, name ∈ funs) (machine machine' : Machine)
    (h : machine.Renames names vars funs machine') :
    (execAll call stmts machine).Renames names vars funs
      (execAll call' (renameAll names stmts) machine') := by
  match stmts with
  | [] => exact ⟨h, rfl⟩
  | stmt :: stmts =>
    obtain ⟨hstmt, hstmts⟩ := List.forall_mem_append.mp hvariables
    obtain ⟨hfirst, hrest⟩ := List.forall_mem_append.mp hfunctions
    rw [renameAll, execAll, execAll]
    exact (renames_exec hinj hcall stmt hstmt hfirst machine machine' h).andThen
      (renames_execAll hinj hcall stmts hstmts hrest)

theorem renames_execAlternative (hinj : names.InjOn vars funs)
    (hcall : RenamesCalls names vars funs call call') (alternative : Option (List Stmt))
    (hvariables : ∀ name ∈ variableNamesAlternative alternative, name ∈ vars)
    (hfunctions : ∀ name ∈ functionNamesAlternative alternative, name ∈ funs)
    (machine machine' : Machine) (h : machine.Renames names vars funs machine') :
    (execAlternative call alternative machine).Renames names vars funs
      (execAlternative call' (renameAlternative names alternative) machine') := by
  match alternative with
  | none => exact ⟨h, rfl⟩
  | some stmts =>
    rw [renameAlternative, execAlternative, execAlternative]
    exact renames_execAll hinj hcall stmts hvariables hfunctions machine machine' h

end

end Stmt

/-- Calls do the same under other names. -/
theorem renamesCalls_callWithin (hinj : names.InjOn vars funs) (limit room : Nat) :
    RenamesCalls names vars funs (Machine.callWithin limit room)
      (Machine.callWithin limit room) := by
  induction room with
  | zero =>
    intro name args span hname _ machine machine' h
    rw [Machine.callWithin, Machine.callWithin, h.functions name hname]
    cases machine.functions.get? name with
    | none => exact h.fail rfl
    | some procedure => exact h.fail rfl
  | succ room ih =>
    intro name args span hname hargs machine machine' h
    have hfunction := h.functions name hname
    have hvalues := Expr.evalAll_renameAll fun name hname => h.values name (hargs name hname)
    cases hfound : machine.functions.get? name with
    | none =>
      rw [hfound, Option.map_none] at hfunction
      rw [Machine.callWithin, Machine.callWithin, hfound, hfunction]
      exact h.fail rfl
    | some procedure =>
      rw [hfound, Option.map_some] at hfunction
      obtain ⟨values, hright, hleft⟩ | ⟨fault', fault, hright, hleft, hfault⟩ :=
        cases_of_mapError hvalues
      · have hwithin := h.within name procedure hfound
        have hentered := ((h.noteArguments name (names.ofFunction name) procedure values).note
          (.calling name (machine.env.callDepth + 1))
          (.calling (names.ofFunction name) (machine'.env.callDepth + 1))).enter
            hinj.ofVariable hwithin.params values
        obtain ⟨hafter, hfault⟩ := Stmt.renames_execAll hinj ih procedure.body hwithin.bodyVariables
          hwithin.bodyFunctions _ _ hentered
        -- The body may change the frame of the call, but leaving it brings back the variables.
        have henv := Machine.env_callWithin limit (room + 1) name args span machine
        have henv' := Machine.env_callWithin limit (room + 1) (names.ofFunction name)
          (Expr.renameAll names args) span machine'
        rw [Machine.callWithin_of_entered hfound hleft] at henv ⊢
        rw [Machine.callWithin_of_entered hfunction hright] at henv' ⊢
        refine ⟨⟨fun name hname => ?_, hafter.functions, hafter.within, hafter.printed⟩, hfault⟩
        rw [henv, henv']
        exact h.values name hname
      · rw [Machine.callWithin, Machine.callWithin, hfound, hfunction]
        dsimp only
        rw [hleft, hright]
        exact h.fail hfault

end

/-- Variables and functions have namespaces of their own, and names matter only up to equality.
Replace the names of variables in a program, and independently those of functions, in such a way
that different names of a kind stay different. Under the same limit the program then prints the same
lines, or fails for the same cause with the names replaced and at the same place. Before a fault it
prints the same lines, and its variables have the same values in the end. -/
theorem run_rename (limit : Nat) (program : Program) (names : Renaming)
    (hvars : Set.InjOn names.ofVariable {name | name ∈ program.variableNames})
    (hfuns : Set.InjOn names.ofFunction {name | name ∈ program.functionNames}) :
    let run := Machine.initial.run limit program
    let renamed := Machine.initial.run limit (program.rename names)
    renamed.1.mapError Fault.withoutHelp = run.1.mapError (Fault.rename names) ∧
      renamed.2.printed = run.2.printed ∧
      ∀ name ∈ program.variableNames,
        renamed.2.env.get? (names.ofVariable name) = run.2.env.get? name := by
  have hinitial : Machine.initial.Renames names {name | name ∈ program.variableNames}
      {name | name ∈ program.functionNames} Machine.initial :=
    ⟨fun _ _ => rfl, fun _ _ => rfl, fun _ _ hfound => (nomatch hfound), rfl⟩
  have houtcome : (Machine.initial.execAll limit program.body).Renames names
      {name | name ∈ program.variableNames} {name | name ∈ program.functionNames}
      (Machine.initial.execAll limit (program.rename names).body) :=
    Stmt.renames_execAll ⟨hvars, hfuns⟩ (renamesCalls_callWithin ⟨hvars, hfuns⟩ limit limit)
      program.body (fun _ => id) (fun _ => id) _ _ hinitial
  -- Both runs hand out their lines in the same way, so only what the statements leave matters.
  intro run renamed
  simp only [run, renamed, Machine.run]
  generalize Machine.initial.execAll limit program.body = outcome at houtcome ⊢
  generalize Machine.initial.execAll limit (program.rename names).body = outcome' at houtcome ⊢
  obtain ⟨after, fault?⟩ := outcome
  obtain ⟨after', fault?'⟩ := outcome'
  obtain ⟨hmachine, hfault⟩ := houtcome
  cases fault? with
  | none =>
    obtain rfl : fault?' = none := Option.map_eq_none_iff.mp hfault
    refine ⟨?_, rfl, hmachine.values⟩
    show Except.ok after'.printed.toList = Except.ok after.printed.toList
    rw [show after'.printed = after.printed from hmachine.printed]
  | some fault =>
    cases fault?' with
    | none => cases hfault
    | some fault' =>
      exact ⟨congrArg Except.error (Option.some.inj hfault), hmachine.printed,
        hmachine.values⟩

/-- A function that prints what it is given, by a variable that has the name of the function. The
program calls it, and then prints that variable, which it does not have. -/
def lostAfterCall : Program where
  body :=
    [.function "show" ["item"]
      [.assign "show" (.identifier "item" ⟨24, 28⟩) false ⟨17, 28⟩,
        .print (.identifier "show" ⟨36, 40⟩) ⟨30, 40⟩] ⟨0, 42⟩,
      .call "show" [.string "tea" ⟨48, 53⟩] ⟨43, 54⟩,
      .print (.identifier "show" ⟨61, 65⟩) ⟨55, 65⟩]

/-- Two variables change names with each other, and the function takes the name of one of them. -/
def exchanged : Renaming where
  ofVariable name := if name = "show" then "item" else "show"
  ofFunction _ := "item"

/-- The variable that the program does not have is blamed by its other name, at the same place and
after the same line. -/
theorem run_rename_exchanged :
    let run := Machine.initial.run 100 lostAfterCall
    let renamed := Machine.initial.run 100 (lostAfterCall.rename exchanged)
    run.1 = .error ⟨.undefinedVariable "show", ⟨61, 65⟩,
      some "Assign it before use: `show = ...`."⟩ ∧
    renamed.1.mapError Fault.withoutHelp =
      .error ⟨.undefinedVariable "item", ⟨61, 65⟩, none⟩ ∧
    renamed.2.printed = #["tea"] := by
  intro run renamed
  have hrun : run = (.error ⟨.undefinedVariable "show", ⟨61, 65⟩,
      some "Assign it before use: `show = ...`."⟩, run.2) := rfl
  have hprinted : run.2.printed = #["tea"] := rfl
  have hvariables : ∀ name ∈ lostAfterCall.variableNames, name = "item" ∨ name = "show" := by decide
  have hfunctions : ∀ name ∈ lostAfterCall.functionNames, name = "show" := by decide
  obtain ⟨hresult, hlines, -⟩ := run_rename 100 lostAfterCall exchanged
    (fun name hname other hother hsame => by
      obtain rfl | rfl := hvariables name hname <;> obtain rfl | rfl := hvariables other hother
      · rfl
      · exact absurd hsame (by decide)
      · exact absurd hsame (by decide)
      · rfl)
    (fun name hname other hother _ => (hfunctions name hname).trans (hfunctions other hother).symm)
  refine ⟨congrArg Prod.fst hrun, ?_, hlines.trans hprinted⟩
  rw [hresult, show run.1 = _ from congrArg Prod.fst hrun]
  rfl

end LineScript
