import LineScript.Proofs.Machine.Positions
import LineScript.Proofs.Machine.Steps
import LineScript.Proofs.Program.Nodes

/-!
# Where faults arise

Every fault of a run has the bytes of a node of the program that is run. A fault takes its bytes
from the code at hand, so this comes down to where code is from. `Config.IsOf program` says that the
tasks that are left and the functions that are defined are code of the program, and every step keeps
it: what a step puts in the place of a task is below it, or is the body of a function.
-/

namespace LineScript

/-- The bytes are those of a node of the program. -/
def Program.HasSpan (program : Program) (span : Span) : Prop :=
  ∃ node, program.Has node ∧ node.span = span

/-- A fault arises while a program is run, at bytes of the given sort. -/
structure Fault.ArisesAt (sort : Span → Prop) (fault : Fault) : Prop where
  /-- It is no fault of reading the program. -/
  phase : fault.phase = .runtime
  /-- Its bytes are of that sort. -/
  span : sort fault.span

/-! ### Expressions -/

/-- If there is a fault, then it arises at bytes of the given sort. -/
def Blames {α : Type} (sort : Span → Prop) (outcome : Except Fault α) : Prop :=
  FailsOnly (Fault.ArisesAt sort) outcome

section

variable {α : Type} {sort : Span → Prop} {span : Span}

theorem blames_ok (a : α) : Blames sort (.ok a) :=
  failsOnly_ok _ a

theorem blames_error {fault : Fault} (hphase : fault.phase = .runtime) (h : sort fault.span) :
    Blames sort (.error fault : Except Fault α) :=
  failsOnly_error ⟨hphase, h⟩

/-- Operations on values arise while a program is run. -/
theorem blames_of_operation {result : Except Fault α}
    (hresult : FailsOnly (Fault.IsOfOperation span) result) (h : sort span) :
    Blames sort result := by
  refine hresult.imp fun fault hfault => ⟨?_, hfault.span_eq ▸ h⟩
  have hcause := hfault.cause
  rw [Fault.phase]
  revert hcause
  cases fault.cause <;> simp [Cause.IsOfOperation, Cause.phase]

theorem blames_lookup (env : Environment) (name : String) (h : sort span) :
    Blames sort (env.lookup name span) := by
  unfold Environment.lookup
  split
  · exact blames_ok _
  · exact blames_error rfl h

end

variable {program : Program}

namespace Expr

mutual

/-- The fault of an expression is about the expression or one below it. -/
theorem blames_eval (env : Environment) (expr : Expr) (h : program.Has (.expr expr)) :
    Blames program.HasSpan (expr.eval env) := by
  have hspan : program.HasSpan expr.span := ⟨_, h, rfl⟩
  match expr with
  | number _ _ | string _ _ | boolean _ _ => exact blames_ok _
  | array items _ =>
    rw [eval_array]
    exact (blames_evalAll env items fun item hitem =>
      h.child (List.mem_map_of_mem hitem)).bind fun _ => blames_ok _
  | identifier name _ => exact blames_lookup env name hspan
  | index name position _ =>
    have hposition : program.Has (.expr position) := h.child List.mem_cons_self
    rw [eval_index]
    refine (blames_lookup env name hspan).bind fun value => ?_
    cases value with
    | list items =>
      -- A position out of bounds is blamed on the position alone.
      exact (blames_eval env position hposition).bind fun value =>
        blames_of_operation (Value.failsOnly_itemAt name items value _) ⟨_, hposition, rfl⟩
    | _ => exact blames_error rfl hspan
  | property name key _ =>
    rw [eval_property]
    exact (blames_lookup env name hspan).bind fun value =>
      blames_of_operation (value.failsOnly_property key _) hspan
  | unary operator operand _ =>
    rw [eval_unary]
    exact (blames_eval env operand (h.child List.mem_cons_self)).bind fun value =>
      blames_of_operation (Value.failsOnly_applyUnary operator value _) hspan
  | binary operator left right _ =>
    rw [eval_binary]
    refine (blames_eval env left (h.child List.mem_cons_self)).bind fun l => ?_
    refine (blames_eval env right (h.child (List.mem_cons_of_mem _ List.mem_cons_self))).bind
      fun r => ?_
    exact blames_of_operation (Value.failsOnly_applyBinary operator l r _) hspan

theorem blames_evalAll (env : Environment) (exprs : List Expr)
    (h : ∀ expr ∈ exprs, program.Has (.expr expr)) :
    Blames program.HasSpan (evalAll env exprs) := by
  match exprs with
  | [] => exact blames_ok _
  | expr :: exprs =>
    obtain ⟨hexpr, hexprs⟩ := List.forall_mem_cons.mp h
    rw [evalAll_cons]
    exact (blames_eval env expr hexpr).bind fun _ =>
      (blames_evalAll env exprs hexprs).bind fun _ => blames_ok _

end

end Expr

/-! ### Steps -/

/-- The statements are all of a program. -/
def Program.HasAll (program : Program) (stmts : List Stmt) : Prop :=
  ∀ stmt ∈ stmts, program.Has (.stmt stmt)

/-- The code that a task runs is of a program. -/
def Task.IsOf (program : Program) : Task → Prop
  | statement stmt => program.Has (.stmt stmt)
  | rounds _ body => program.HasAll body
  | leave => True

theorem Task.isOf_ofBlock {stmts : List Stmt} (h : program.HasAll stmts) :
    ∀ task ∈ Task.ofBlock stmts, task.IsOf program := by
  intro task htask
  obtain ⟨stmt, hstmt, rfl⟩ := List.mem_map.mp htask
  exact h stmt hstmt

/-- The bodies of all functions are of a program. -/
def Machine.IsOf (program : Program) (machine : Machine) : Prop :=
  ∀ name procedure, machine.functions.get? name = some procedure → program.HasAll procedure.body

/-- All code is of a program, and so is the place of the fault that is being passed on. -/
structure Config.IsOf (program : Program) (config : Config) : Prop where
  /-- The code that calls run. -/
  machine : config.machine.IsOf program
  /-- The place of the fault. -/
  fault : ∀ fault ∈ config.fault?, fault.ArisesAt program.HasSpan
  /-- The code that is left to run. -/
  tasks : ∀ task ∈ config.tasks, task.IsOf program

namespace Machine.IsOf

variable {machine : Machine} {rest : List Task}

theorem note (h : machine.IsOf program) (event : Event) : (machine.note event).IsOf program := h

theorem enter (h : machine.IsOf program) (frame : Frame) : (machine.enter frame).IsOf program := h

theorem print (h : machine.IsOf program) (line : String) : (machine.print line).IsOf program := h

theorem define (h : machine.IsOf program) (name : String) (value : Value) :
    (machine.define name value).IsOf program := h

theorem noteDeclaration (h : machine.IsOf program) (name : String) (isList : Bool)
    (value : Value) : (machine.noteDeclaration name isList value).IsOf program := by
  unfold Machine.noteDeclaration
  split
  · exact h
  · exact h
  · exact h.note _

theorem noteArguments (h : machine.IsOf program) (name : String) (procedure : Procedure)
    (values : List Value) : (machine.noteArguments name procedure values).IsOf program := by
  unfold Machine.noteArguments
  split
  · exact h.note _
  · exact h

theorem defineFunction (h : machine.IsOf program) (name : String) {procedure : Procedure}
    (hbody : program.HasAll procedure.body) :
    (machine.defineFunction name procedure).IsOf program := by
  intro other found hfound
  by_cases hname : other = name
  · -- The new function is found, whatever the name stood for before.
    subst hname
    obtain rfl : procedure = found :=
      Option.some.inj ((Table.get?_insert_self _ _ _).symm.trans hfound)
    exact hbody
  · exact h other found ((Table.get?_insert_of_ne _ hname _).symm.trans hfound)

/-- Nothing is blamed without a fault. -/
theorem going (h : machine.IsOf program) {tasks : List Task}
    (htasks : ∀ task ∈ tasks, task.IsOf program) : Config.IsOf program ⟨machine, none, tasks⟩ :=
  ⟨h, fun _ hmem => absurd hmem (Option.not_mem_none _), htasks⟩

theorem fail (h : machine.IsOf program) (hrest : ∀ task ∈ rest, task.IsOf program)
    {fault : Fault} (hfault : fault.ArisesAt program.HasSpan) :
    ((machine.fail fault).before rest).IsOf program :=
  ⟨h, fun _ hmem => Option.some.inj hmem ▸ hfault, hrest⟩

theorem proceed (h : machine.IsOf program) (hrest : ∀ task ∈ rest, task.IsOf program)
    {expr : Expr} (hexpr : program.Has (.expr expr)) {next : Value → Config}
    (hnext : ∀ value, (next value).IsOf program) :
    (machine.proceed expr rest next).IsOf program := by
  unfold Machine.proceed
  split
  next fault heval => exact h.fail hrest (Expr.blames_eval _ expr hexpr fault heval)
  next value _ => exact hnext value

/-- A call takes up the body of a function, and whatever keeps it from doing so is blamed on the
call or on an argument. -/
theorem beginCall (h : machine.IsOf program) (hrest : ∀ task ∈ rest, task.IsOf program)
    (limit : Nat) (name : String) {args : List Expr} (hargs : ∀ arg ∈ args, program.Has (.expr arg))
    {span : Span} (hspan : program.HasSpan span) :
    (machine.beginCall limit name args span rest).IsOf program := by
  unfold Machine.beginCall
  split
  next => exact h.fail hrest ⟨rfl, hspan⟩
  next procedure hfound =>
    split
    · exact h.fail hrest ⟨rfl, hspan⟩
    · split
      next fault heval => exact h.fail hrest (Expr.blames_evalAll _ args hargs fault heval)
      next values _ =>
        -- The body was part of a statement that ran before.
        have hbody := Task.isOf_ofBlock (h name procedure hfound)
        have hleave : Task.leave.IsOf program := trivial
        exact (((h.noteArguments name procedure values).note _).enter _).going
          (List.forall_mem_append.mpr ⟨hbody, List.forall_mem_cons.mpr ⟨hleave, hrest⟩⟩)

/-- What a statement leaves to do is below it. -/
theorem begin (h : machine.IsOf program) (hrest : ∀ task ∈ rest, task.IsOf program) (limit : Nat)
    {stmt : Stmt} (hstmt : program.Has (.stmt stmt)) :
    (stmt.begin limit machine rest).IsOf program := by
  have hspan : program.HasSpan stmt.span := ⟨_, hstmt, rfl⟩
  cases stmt with
  | print value span =>
    exact h.proceed hrest (hstmt.child List.mem_cons_self) fun value =>
      (h.print value.display).going hrest
  | assign name value isList span =>
    exact h.proceed hrest (hstmt.child List.mem_cons_self) fun value =>
      ((h.noteDeclaration name isList value).define name value).going hrest
  | function name params body span =>
    have hbody : program.HasAll body := fun stmt hmem => hstmt.child (List.mem_map_of_mem hmem)
    exact (h.defineFunction name hbody).going hrest
  | branch condition consequence alternative span =>
    refine h.proceed hrest (hstmt.child List.mem_cons_self) fun value => ?_
    -- One of the blocks is run, and both are below the statement.
    refine h.going (List.forall_mem_append.mpr ⟨Task.isOf_ofBlock fun stmt hmem => ?_, hrest⟩)
    refine hstmt.child (List.mem_cons_of_mem _ (List.mem_append.mpr ?_))
    split at hmem
    · exact .inl (List.mem_map_of_mem hmem)
    · exact .inr (List.mem_map_of_mem hmem)
  | loop count body span =>
    refine h.proceed hrest (hstmt.child List.mem_cons_self) fun value => ?_
    split
    · -- A count without end is blamed on the whole loop.
      exact h.fail hrest ⟨rfl, hspan⟩
    · have hbody : program.HasAll body := fun stmt hmem =>
        hstmt.child (List.mem_cons_of_mem _ (List.mem_map_of_mem hmem))
      exact h.going (List.forall_mem_cons.mpr ⟨hbody, hrest⟩)
  | call name args span =>
    exact h.beginCall hrest limit name (fun arg hmem => hstmt.child (List.mem_map_of_mem hmem))
      hspan

end Machine.IsOf

namespace Config

variable {limit : Nat} {config after : Config}

/-- A step runs code of the program only. -/
theorem isOf_next? (h : config.IsOf program) (hnext : config.next? limit = some after) :
    after.IsOf program := by
  obtain ⟨hmachine, hfault, htasks⟩ := h
  cases step_of_next? hnext with
  | leave | drop => exact ⟨hmachine, hfault, (List.forall_mem_cons.mp htasks).2⟩
  | statement machine stmt rest =>
    obtain ⟨hstmt, hrest⟩ := List.forall_mem_cons.mp htasks
    exact hmachine.begin hrest limit hstmt
  | done => exact hmachine.going (List.forall_mem_cons.mp htasks).2
  | round machine count body rest =>
    obtain ⟨hbody, hrest⟩ := List.forall_mem_cons.mp htasks
    exact hmachine.going (List.forall_mem_append.mpr
      ⟨Task.isOf_ofBlock hbody, List.forall_mem_cons.mpr ⟨hbody, hrest⟩⟩)

/-- A run runs code of the program only. -/
theorem isOf_of_reaches (h : config.IsOf program) (hreaches : Reaches limit config after) :
    after.IsOf program := by
  induction hreaches with
  | refl => exact h
  | tail _ hnext ih => exact isOf_next? ih hnext

end Config

/-- A program that is run by itself has no fault but at the bytes of one of its nodes. -/
theorem Machine.arisesAt_of_run {limit : Nat} {fault : Fault}
    (h : (Machine.initial.run limit program).1 = .error fault) :
    fault.ArisesAt program.HasSpan := by
  have hmachine : Machine.initial.IsOf program := by
    intro name procedure hfound
    cases hfound
  have hstart : (Config.start .initial program.body).IsOf program :=
    hmachine.going (Task.isOf_ofBlock fun stmt hstmt => ⟨stmt, hstmt, .self⟩)
  have hfinal := Config.isOf_of_reaches hstart
    (Config.reaches_machine_execAll limit program.body .initial)
  apply hfinal.fault
  -- The result of a run is the fault of its last configuration.
  rw [Machine.run] at h
  split at h
  next found hfound => exact hfound.trans (congrArg some (Except.error.inj h))
  next => cases h

end LineScript
