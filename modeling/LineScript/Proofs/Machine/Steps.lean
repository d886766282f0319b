import LineScript.Proofs.Machine.Frames
import Mathlib.Logic.Relation

/-!
# Running step by step

A run is taken apart into steps. A configuration holds a machine, the fault that is being passed on,
if there is one, and the tasks that are left: statements to run, rounds of loops, and calls to
leave. A step does the first task. While a fault is passed on, it drops the task instead, unless the
task is to leave a call. The statements of a block are put before the tasks that follow the block,
so steps never nest, and nothing but the check of the depth at a call keeps a run from going on
forever.

The main facts are that every run ends, with the outcome that `Machine.execAll` gives
(`Config.reaches_machine_execAll`), and that on its way no more calls are active than the limit
allows (`Config.within_of_reaches`).
-/

namespace LineScript

/-- Something that is left to do in a run. -/
inductive Task where
  /-- Run a statement. -/
  | statement (stmt : Stmt)
  /-- Run the body of a loop some more times. -/
  | rounds (count : Nat) (body : List Stmt)
  /-- Leave the innermost call. -/
  | leave

/-- The tasks of a block. -/
def Task.ofBlock (stmts : List Stmt) : List Task :=
  stmts.map .statement

theorem Task.leave_not_mem_ofBlock (stmts : List Stmt) : Task.leave ∉ Task.ofBlock stmts := by
  simp [ofBlock]

/-- A run between two steps. -/
structure Config where
  /-- The machine. -/
  machine : Machine
  /-- The fault that is being passed on. -/
  fault? : Option Fault
  /-- What is left to do, the next task first. -/
  tasks : List Task

/-- What a step of a machine leaves, before the given tasks. -/
def Outcome.before (outcome : Outcome) (tasks : List Task) : Config :=
  ⟨outcome.machine, outcome.fault?, tasks⟩

/-- Goes on with the value of an expression, or passes its fault on to the tasks that follow. -/
def Machine.proceed (machine : Machine) (expr : Expr) (rest : List Task) (next : Value → Config) :
    Config :=
  match expr.eval machine.env with
  | .error fault => (machine.fail fault).before rest
  | .ok value => next value

/-- The step that begins a call. The depth that the machine has is compared with the limit. -/
def Machine.beginCall (limit : Nat) (name : String) (args : List Expr) (span : Span)
    (machine : Machine) (rest : List Task) : Config :=
  match machine.functions.get? name with
  | none =>
    (machine.fail
      { cause := .undefinedFunction name
        span
        help := some ("Define it before calling: `function " ++ name ++
          "(...) \x7b ... \x7d`.") }).before rest
  | some procedure =>
    if limit ≤ machine.env.callDepth then
      (machine.fail { cause := .callDepthExceeded limit, span }).before rest
    else
      match Expr.evalAll machine.env args with
      | .error fault => (machine.fail fault).before rest
      | .ok values =>
        let noted := (machine.noteArguments name procedure values).note
          (.calling name (machine.env.callDepth + 1))
        ⟨noted.enter (procedure.frame values), none,
          Task.ofBlock procedure.body ++ .leave :: rest⟩

/-- The step that runs a statement, or begins to. -/
def Stmt.begin (limit : Nat) (machine : Machine) (rest : List Task) : Stmt → Config
  | print value _ =>
    machine.proceed value rest fun value => (machine.print value.display).done.before rest
  | assign name value isList _ =>
    machine.proceed value rest fun value =>
      ((machine.noteDeclaration name isList value).define name value).done.before rest
  | function name params body _ =>
    (machine.defineFunction name ⟨params, body⟩).done.before rest
  | branch condition consequence alternative _ =>
    machine.proceed condition rest fun value =>
      let block := if value.isTruthy then consequence else alternative.getD []
      ⟨machine, none, Task.ofBlock block ++ rest⟩
  | loop count body span =>
    machine.proceed count rest fun value =>
      if value.toNumber.isInf && 0 < value.toNumber then
        (machine.fail { cause := .invalidRepeatCount value.toNumber, span }).before rest
      else
        ⟨machine, none, .rounds (iterations value.toNumber) body :: rest⟩
  | call name args span => machine.beginCall limit name args span rest

namespace Config

/-- The configuration before the next task, unless nothing is left to do. -/
def next? (limit : Nat) (config : Config) : Option Config :=
  match config.tasks, config.fault? with
  | [], _ => none
  -- Calls are left also while a fault is passed on; all else is dropped then.
  | .leave :: rest, fault? => some ⟨config.machine.leave, fault?, rest⟩
  | _ :: rest, some fault => some ⟨config.machine, some fault, rest⟩
  | .statement stmt :: rest, none => some (stmt.begin limit config.machine rest)
  | .rounds 0 _ :: rest, none => some ⟨config.machine, none, rest⟩
  | .rounds (count + 1) body :: rest, none =>
    some ⟨config.machine, none, Task.ofBlock body ++ .rounds count body :: rest⟩

/-- What a step does, by the task that is next and the fault that is being passed on. -/
inductive Step (limit : Nat) : Config → Config → Prop
  /-- A call is left, with or without a fault. -/
  | leave (machine : Machine) (fault? : Option Fault) (rest : List Task) :
      Step limit ⟨machine, fault?, .leave :: rest⟩ ⟨machine.leave, fault?, rest⟩
  /-- A task is dropped, and the fault stays as it is. -/
  | drop (machine : Machine) (fault : Fault) (task : Task) (rest : List Task) :
      Step limit ⟨machine, some fault, task :: rest⟩ ⟨machine, some fault, rest⟩
  /-- A statement begins. -/
  | statement (machine : Machine) (stmt : Stmt) (rest : List Task) :
      Step limit ⟨machine, none, .statement stmt :: rest⟩ (stmt.begin limit machine rest)
  /-- No rounds of a loop are left. -/
  | done (machine : Machine) (body : List Stmt) (rest : List Task) :
      Step limit ⟨machine, none, .rounds 0 body :: rest⟩ ⟨machine, none, rest⟩
  /-- The body of a loop is run once more, and is kept for the rounds after that. -/
  | round (machine : Machine) (count : Nat) (body : List Stmt) (rest : List Task) :
      Step limit ⟨machine, none, .rounds (count + 1) body :: rest⟩
        ⟨machine, none, Task.ofBlock body ++ .rounds count body :: rest⟩

theorem step_of_next? {limit : Nat} {config after : Config} (h : config.next? limit = some after) :
    Step limit config after := by
  obtain ⟨machine, fault?, tasks⟩ := config
  cases tasks with
  | nil => cases h
  | cons task rest =>
    cases task with
    | leave =>
      cases h
      exact .leave machine fault? rest
    | statement stmt =>
      cases fault? with
      | none =>
        cases h
        exact .statement machine stmt rest
      | some fault =>
        cases h
        exact .drop machine fault _ rest
    | rounds count body =>
      cases fault? with
      | none =>
        cases count with
        | zero =>
          cases h
          exact .done machine body rest
        | succ count =>
          cases h
          exact .round machine count body rest
      | some fault =>
        cases h
        exact .drop machine fault _ rest

/-- The configuration in which a block begins to run on a machine. -/
def start (machine : Machine) (stmts : List Stmt) : Config :=
  ⟨machine, none, Task.ofBlock stmts⟩

/-- A configuration is reached from another by any number of steps. -/
def Reaches (limit : Nat) : Config → Config → Prop :=
  Relation.ReflTransGen fun config after => config.next? limit = some after

variable {limit depth : Nat} {machine : Machine} {call : Caller} {rest : List Task}

theorem Reaches.refl (config : Config) : Reaches limit config config :=
  Relation.ReflTransGen.refl

theorem Reaches.step {config after last : Config} (h : config.next? limit = some after)
    (hlast : Reaches limit after last) : Reaches limit config last :=
  Relation.ReflTransGen.head h hlast

theorem Reaches.trans {config after last : Config} (h : Reaches limit config after)
    (hlast : Reaches limit after last) : Reaches limit config last :=
  Relation.ReflTransGen.trans h hlast

/-- There is one way to go on from each configuration, so all configurations of a run lead to the
one from which none leads on. -/
theorem Reaches.to_last {config after last : Config} (h : Reaches limit config after)
    (hlast : Reaches limit config last) (hnone : last.next? limit = none) :
    Reaches limit after last := by
  have hunique : Relator.RightUnique fun config after => next? limit config = some after :=
    fun _ _ _ hfirst hsecond => Option.some.inj (hfirst.symm.trans hsecond)
  rcases Relation.ReflTransGen.total_of_right_unique hunique h hlast with hfirst | hsecond
  · exact hfirst
  · -- Nothing but the last configuration itself is reached from it.
    rcases Relation.ReflTransGen.cases_head hsecond with heq | ⟨beyond, hnext, -⟩
    · exact heq ▸ .refl last
    · rw [hnone] at hnext
      cases hnext

/-! ### Runs end -/

/-- A fault is passed on over tasks that are not to leave a call. -/
theorem reaches_of_fault (machine : Machine) (fault : Fault) {tasks : List Task}
    (h : Task.leave ∉ tasks) (rest : List Task) :
    Reaches limit ⟨machine, some fault, tasks ++ rest⟩ ⟨machine, some fault, rest⟩ := by
  induction tasks with
  | nil => exact .refl _
  | cons task tasks ih =>
    obtain ⟨htask, htasks⟩ : Task.leave ≠ task ∧ Task.leave ∉ tasks := by
      simpa [not_or] using h
    refine Reaches.step ?_ (ih htasks)
    cases task with
    | leave => exact absurd rfl htask
    | statement stmt => rfl
    | rounds count body => rfl

/-- Tasks after a step do what comes next, or are dropped if the step fails. -/
theorem Reaches.andThen {config : Config} {outcome : Outcome} {next : Machine → Outcome}
    {tasks : List Task} (htasks : Task.leave ∉ tasks)
    (h : Reaches limit config (outcome.before (tasks ++ rest)))
    (hnext : Reaches limit ⟨outcome.machine, none, tasks ++ rest⟩
      ((next outcome.machine).before rest)) :
    Reaches limit config ((outcome.andThen next).before rest) := by
  obtain ⟨after, fault?⟩ := outcome
  cases fault? with
  | none => exact h.trans hnext
  | some fault => exact h.trans (reaches_of_fault after fault htasks rest)

/-- A way to run calls does at a depth what the steps of a call do there. -/
structure Performs (limit depth : Nat) (call : Caller) : Prop where
  /-- Calls keep the frames around them, and so the depth. -/
  keepsOuter : ∀ name args span, Machine.KeepsOuter (call name args span)
  /-- The steps of a call lead to its outcome, whatever is left to do after it. -/
  reaches : ∀ name args span (machine : Machine) (rest : List Task),
    machine.env.callDepth = depth →
      Reaches limit (machine.beginCall limit name args span rest)
        ((call name args span machine).before rest)

theorem reaches_proceed {expr : Expr} {next : Value → Config} {next' : Value → Outcome}
    (h : ∀ value, Reaches limit (next value) ((next' value).before rest)) :
    Reaches limit (machine.proceed expr rest next) ((machine.evaluate expr next').before rest) := by
  unfold Machine.proceed Machine.evaluate
  cases expr.eval machine.env with
  | error fault => exact .refl _
  | ok value => exact h value

/-- The rounds of a loop lead to what taking its body that many times gives. -/
theorem reaches_times {body : List Stmt} {step : Machine → Outcome}
    (hkeeps : Machine.KeepsOuter step)
    (hstep : ∀ (machine : Machine) (rest : List Task), machine.env.callDepth = depth →
      Reaches limit ⟨machine, none, Task.ofBlock body ++ rest⟩ ((step machine).before rest))
    (count : Nat) (machine : Machine) (hdepth : machine.env.callDepth = depth)
    (rest : List Task) :
    Reaches limit ⟨machine, none, .rounds count body :: rest⟩
      ((machine.times count step).before rest) := by
  induction count generalizing machine with
  | zero => exact .step rfl (.refl _)
  | succ count ih =>
    have hround := hstep machine (.rounds count body :: rest) hdepth
    have hafter : (step machine).machine.env.callDepth = depth := by
      rw [Environment.callDepth_of_tail_frames (hkeeps machine), hdepth]
    have hleave : Task.leave ∉ [Task.rounds count body] := by simp
    exact Reaches.step rfl (Reaches.andThen hleave hround (ih _ hafter))

mutual

/-- The steps of a statement lead to its outcome, if those of calls do. -/
theorem reaches_exec (hcall : Performs limit depth call) (stmt : Stmt) (machine : Machine)
    (hdepth : machine.env.callDepth = depth) (rest : List Task) :
    Reaches limit (stmt.begin limit machine rest) ((stmt.exec call machine).before rest) := by
  match stmt with
  | .print value span =>
    rw [Stmt.begin, Stmt.exec]
    exact reaches_proceed fun _ => .refl _
  | .assign name value isList span =>
    rw [Stmt.begin, Stmt.exec]
    exact reaches_proceed fun _ => .refl _
  | .function name params body span =>
    rw [Stmt.begin, Stmt.exec]
    exact .refl _
  | .branch condition consequence alternative span =>
    rw [Stmt.begin, Stmt.exec]
    refine reaches_proceed fun value => ?_
    dsimp only
    split
    · exact reaches_execAll hcall consequence machine rest hdepth
    · exact reaches_execAlternative hcall alternative machine hdepth rest
  | .loop count body span =>
    rw [Stmt.begin, Stmt.exec]
    refine reaches_proceed fun value => ?_
    split
    · exact .refl _
    · exact reaches_times (Stmt.keepsOuter_execAll hcall.keepsOuter body)
        (reaches_execAll hcall body) _ machine hdepth rest
  | .call name args span =>
    rw [Stmt.begin, Stmt.exec]
    exact hcall.reaches name args span machine rest hdepth

theorem reaches_execAll (hcall : Performs limit depth call) (stmts : List Stmt)
    (machine : Machine) (rest : List Task) (hdepth : machine.env.callDepth = depth) :
    Reaches limit ⟨machine, none, Task.ofBlock stmts ++ rest⟩
      ((Stmt.execAll call stmts machine).before rest) := by
  match stmts with
  | [] => exact .refl _
  | stmt :: stmts =>
    have hfirst := reaches_exec hcall stmt machine hdepth (Task.ofBlock stmts ++ rest)
    have hafter : (stmt.exec call machine).machine.env.callDepth = depth := by
      rw [Environment.callDepth_of_tail_frames (Stmt.keepsOuter_exec hcall.keepsOuter stmt machine),
        hdepth]
    rw [Stmt.execAll]
    refine Reaches.andThen (Task.leave_not_mem_ofBlock stmts) (.step rfl hfirst) ?_
    exact reaches_execAll hcall stmts _ rest hafter

theorem reaches_execAlternative (hcall : Performs limit depth call)
    (alternative : Option (List Stmt)) (machine : Machine)
    (hdepth : machine.env.callDepth = depth) (rest : List Task) :
    Reaches limit ⟨machine, none, Task.ofBlock (alternative.getD []) ++ rest⟩
      ((Stmt.execAlternative call alternative machine).before rest) := by
  match alternative with
  | none => exact .refl _
  | some stmts =>
    rw [Stmt.execAlternative]
    exact reaches_execAll hcall stmts machine rest hdepth

end

/-- The steps of a call lead to its outcome. As many calls may still be entered as the limit leaves
at the depth of the machine. -/
theorem performs_callWithin (limit room depth : Nat) (hroom : room = limit - depth) :
    Performs limit depth (Machine.callWithin limit room) := by
  induction room generalizing depth with
  | zero =>
    refine ⟨Machine.keepsOuter_callWithin limit 0, fun name args span machine rest hdepth => ?_⟩
    rw [Machine.beginCall, Machine.callWithin]
    cases machine.functions.get? name with
    | none => exact .refl _
    | some procedure =>
      dsimp only
      rw [if_pos (by omega)]
      exact .refl _
  | succ room ih =>
    refine ⟨Machine.keepsOuter_callWithin limit _, fun name args span machine rest hdepth => ?_⟩
    rw [Machine.beginCall, Machine.callWithin]
    cases machine.functions.get? name with
    | none => exact .refl _
    | some procedure =>
      dsimp only
      rw [if_neg (by omega)]
      cases Expr.evalAll machine.env args with
      | error fault => exact .refl _
      | ok values =>
        -- The body runs one call deeper, where one call fewer may be entered.
        have hinner : Performs limit (depth + 1) (Machine.callWithin limit room) :=
          ih (depth + 1) (by omega)
        have hentered : (((machine.noteArguments name procedure values).note
            (.calling name (machine.env.callDepth + 1))).enter
              (procedure.frame values)).env.callDepth = depth + 1 := by
          show (machine.noteArguments name procedure values).env.callDepth + 1 = depth + 1
          rw [Machine.env_noteArguments, hdepth]
        refine (reaches_execAll hinner procedure.body _ (.leave :: rest) hentered).trans ?_
        -- The task after the body leaves the call, whether the body failed or not.
        exact .step rfl (.refl _)

/-- Every run ends: its steps lead to a configuration in which nothing is left to do, and which is
the outcome of running the statements. -/
theorem reaches_machine_execAll (limit : Nat) (stmts : List Stmt) (machine : Machine) :
    Reaches limit (start machine stmts) ((machine.execAll limit stmts).before []) := by
  have hcall := performs_callWithin limit (limit - machine.env.callDepth) machine.env.callDepth rfl
  have hreaches := reaches_execAll hcall stmts machine [] rfl
  rwa [List.append_nil] at hreaches

/-! ### The depth of calls -/

/-- No more calls are active than the limit allows, and none was entered deeper since `noted` was
all that had been noted. -/
structure Within (limit : Nat) (noted : Array Event) (machine : Machine) : Prop where
  /-- The calls that are active. -/
  depth : machine.env.callDepth ≤ limit
  /-- The calls that were entered. -/
  entered : ∀ name depth, Event.calling name depth ∈ machine.journal →
    Event.calling name depth ∈ noted ∨ depth ≤ limit

namespace Within

variable {noted : Array Event}

theorem note (h : Within limit noted machine) {event : Event}
    (hevent : ∀ name depth, event = .calling name depth → depth ≤ limit) :
    Within limit noted (machine.note event) := by
  refine ⟨h.depth, fun name depth hmem => ?_⟩
  rcases Array.mem_push.mp hmem with hold | hnew
  · exact h.entered name depth hold
  · exact .inr (hevent name depth hnew.symm)

theorem noteDeclaration (h : Within limit noted machine) (name : String) (isList : Bool)
    (value : Value) : Within limit noted (machine.noteDeclaration name isList value) := by
  unfold Machine.noteDeclaration
  split
  · exact h
  · exact h
  · exact h.note nofun

theorem noteArguments (h : Within limit noted machine) (name : String) (procedure : Procedure)
    (values : List Value) : Within limit noted (machine.noteArguments name procedure values) := by
  unfold Machine.noteArguments
  split
  · exact h.note nofun
  · exact h

theorem define (h : Within limit noted machine) (name : String) (value : Value) :
    Within limit noted (machine.define name value) :=
  ⟨Nat.le_trans (Nat.le_of_eq (machine.env.callDepth_define name value)) h.depth, h.entered⟩

theorem leave (h : Within limit noted machine) : Within limit noted machine.leave := by
  refine ⟨Nat.le_trans ?_ h.depth, h.entered⟩
  show machine.env.calls.tail.length ≤ machine.env.calls.length
  rw [List.length_tail]
  exact Nat.sub_le _ _

theorem proceed (h : Within limit noted machine) {expr : Expr} {next : Value → Config}
    (hnext : ∀ value, Within limit noted (next value).machine) :
    Within limit noted (machine.proceed expr rest next).machine := by
  unfold Machine.proceed
  split
  · exact h
  · exact hnext _

/-- A call is entered only where the limit is not reached, and is noted with the depth it has. -/
theorem beginCall (h : Within limit noted machine) (name : String) (args : List Expr)
    (span : Span) : Within limit noted (machine.beginCall limit name args span rest).machine := by
  unfold Machine.beginCall
  split
  · exact h
  · next procedure _ =>
    by_cases hlimit : limit ≤ machine.env.callDepth
    · rw [if_pos hlimit]
      exact h
    · rw [if_neg hlimit]
      split
      · exact h
      · next values _ =>
        have hnoted : Within limit noted ((machine.noteArguments name procedure values).note
            (.calling name (machine.env.callDepth + 1))) := by
          refine (h.noteArguments name procedure values).note fun other depth heq => ?_
          obtain ⟨-, rfl⟩ := Event.calling.inj heq
          omega
        refine ⟨?_, hnoted.entered⟩
        show (machine.noteArguments name procedure values).env.callDepth + 1 ≤ limit
        rw [Machine.env_noteArguments]
        omega

theorem begin (h : Within limit noted machine) (stmt : Stmt) :
    Within limit noted (stmt.begin limit machine rest).machine := by
  cases stmt with
  | print value span => exact h.proceed fun _ => ⟨h.depth, h.entered⟩
  | assign name value isList span =>
    exact h.proceed fun value => (h.noteDeclaration name isList value).define name value
  | function name params body span => exact ⟨h.depth, h.entered⟩
  | branch condition consequence alternative span => exact h.proceed fun _ => h
  | loop count body span =>
    refine h.proceed fun value => ?_
    split
    · exact h
    · exact h
  | call name args span => exact h.beginCall name args span

end Within

/-- A step keeps to the limit. -/
theorem within_next? {noted : Array Event} {config after : Config}
    (h : Within limit noted config.machine) (hnext : config.next? limit = some after) :
    Within limit noted after.machine := by
  cases step_of_next? hnext with
  | leave => exact h.leave
  | statement => exact h.begin _
  | drop | done | round => exact h

/-- A run keeps to the limit. -/
theorem within_of_reaches {noted : Array Event} {config after : Config}
    (h : Within limit noted config.machine) (hreaches : Reaches limit config after) :
    Within limit noted after.machine := by
  induction hreaches with
  | refl => exact h
  | tail _ hnext ih => exact within_next? ih hnext

/-- A call to a function that is defined fails where the limit is reached, and does nothing else:
its arguments are not evaluated, and no frame is entered. -/
theorem beginCall_of_limit {name : String} {procedure : Procedure}
    (hfound : machine.functions.get? name = some procedure)
    (hlimit : machine.env.callDepth = limit) (args : List Expr) (span : Span)
    (rest : List Task) :
    machine.beginCall limit name args span rest =
      (machine.fail { cause := .callDepthExceeded limit, span }).before rest := by
  rw [Machine.beginCall, hfound]
  exact if_pos (Nat.le_of_eq hlimit.symm)

end Config

open Config in
/-- Every run ends, whatever the machine, the limit and the program: all its steps lead to one
configuration without a next one, and the result of the run is read off there. In a run that begins
outside of calls, no more calls are ever active than the limit allows, and none is noted as entered
deeper. A call to a function that is defined fails where the limit is reached, and leaves the
machine as it was, whatever its arguments are. -/
theorem run_ends_within_limit (limit : Nat) (program : Program) (machine : Machine) :
    (∃ final, final.next? limit = none ∧ Reaches limit (start machine program.body) final ∧
      (∀ config, Reaches limit (start machine program.body) config →
        Reaches limit config final) ∧
      machine.run limit program =
        match final.fault? with
        | some fault => (.error fault, final.machine)
        | none => (.ok final.machine.takePrinted.1, final.machine.takePrinted.2)) ∧
    (machine.env.callDepth = 0 →
      (∀ config, Reaches limit (start machine program.body) config →
        config.machine.env.callDepth ≤ limit) ∧
      ∀ name depth, Event.calling name depth ∈ (machine.run limit program).2.journal →
        Event.calling name depth ∈ machine.journal ∨ depth ≤ limit) ∧
    ∀ (name : String) (args : List Expr) (span : Span) (procedure : Procedure),
      machine.functions.get? name = some procedure → machine.env.callDepth = limit →
        let failed := machine.fail { cause := .callDepthExceeded limit, span }
        (Stmt.call name args span).exec
            (Machine.callWithin limit (limit - machine.env.callDepth)) machine = failed ∧
          ∀ rest, next? limit ⟨machine, none, .statement (.call name args span) :: rest⟩ =
            some (failed.before rest) := by
  have hends := reaches_machine_execAll limit program.body machine
  refine ⟨⟨_, rfl, hends, fun config h => h.to_last hends rfl, rfl⟩, fun hdepth => ?_, ?_⟩
  · have hstart : Within limit machine.journal machine :=
      ⟨hdepth ▸ Nat.zero_le limit, fun _ _ => .inl⟩
    refine ⟨fun config hreaches => (within_of_reaches hstart hreaches).depth, ?_⟩
    -- Handing out the lines that were printed adds nothing to the journal.
    have hjournal : (machine.run limit program).2.journal =
        (machine.execAll limit program.body).machine.journal := by
      rw [Machine.run]
      split <;> rfl
    rw [hjournal]
    exact (within_of_reaches hstart hends).entered
  · intro name args span procedure hfound hlimit
    refine ⟨?_, fun rest => ?_⟩
    · rw [Stmt.exec, Machine.callWithin, hfound, hlimit, Nat.sub_self]
    · exact congrArg some (beginCall_of_limit hfound hlimit args span rest)

/-- A function that calls itself, and between its calls makes itself one that does so twice. -/
def selfRedefining : Program :=
  ⟨[.function "f" ["n"]
      [.call "f" [.identifier "n" ⟨0, 0⟩] ⟨0, 0⟩,
        .function "f" [] [.call "f" [] ⟨0, 0⟩, .call "f" [] ⟨0, 0⟩] ⟨0, 0⟩] ⟨0, 0⟩,
    .call "f" [.boolean true ⟨0, 0⟩] ⟨0, 0⟩]⟩

/-- The run of such a function keeps to a limit of five calls. Where no call is allowed, a call
fails before its argument is seen to have no value. -/
theorem run_ends_within_limit_selfRedefining :
    (∀ config, Config.Reaches 5 (.start .initial selfRedefining.body) config →
      config.machine.env.callDepth ≤ 5) ∧
    let machine := Machine.initial.defineFunction "f" ⟨["n"], []⟩
    (Stmt.call "f" [.identifier "missing" ⟨2, 9⟩] ⟨0, 10⟩).exec
        (Machine.callWithin 0 (0 - machine.env.callDepth)) machine =
      machine.fail { cause := .callDepthExceeded 0, span := ⟨0, 10⟩ } := by
  refine ⟨((run_ends_within_limit 5 selfRedefining .initial).2.1 rfl).1, ?_⟩
  have hfound : (Machine.initial.defineFunction "f" ⟨["n"], []⟩).functions.get? "f" =
      some ⟨["n"], []⟩ := Table.get?_insert_self _ _ _
  exact ((run_ends_within_limit 0 selfRedefining _).2.2 "f" _ _ _ hfound rfl).1

end LineScript
