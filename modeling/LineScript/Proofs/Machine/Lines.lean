import LineScript.Proofs.Machine.Steps
import Mathlib

/-!
# Printed lines

A machine that is used for several programs hands out lines when a program ends without a fault and
keeps them when it fails. Whatever programs are run, and whichever of them fail, no line is lost,
doubled or moved: the lines handed out and those that are still kept are together the ones that the
print statements produced, step by step (`Machine.History.printed`).

Lines that were kept from before do not influence a run (`Machine.execAll_withEarlier`), so a
program that ends without a fault can be run together with the next one as one program.
-/

namespace LineScript

/-- The line that running a statement prints by itself, and not through a block or a call: that of a
print statement whose expression has a value. -/
def Stmt.line? (env : Environment) : Stmt → Option String
  | print expr _ => (expr.eval env).toOption.map Value.display
  | _ => none

namespace Config

variable {limit : Nat}

/-- The line that the next step prints. While a fault is passed on, statements are dropped and none
is printed. -/
def line? (config : Config) : Option String :=
  match config.tasks, config.fault? with
  | .statement stmt :: _, none => stmt.line? config.machine.env
  | _, _ => none

/-- Steps lead from one configuration to another, and the print statements that are executed on the
way produce the given lines. -/
inductive Prints (limit : Nat) : Config → List String → Config → Prop
  | refl (config : Config) : Prints limit config [] config
  | step {config after last : Config} {lines : List String} : config.next? limit = some after →
      Prints limit after lines last → Prints limit config (config.line?.toList ++ lines) last

theorem printed_noteDeclaration (machine : Machine) (name : String) (isList : Bool)
    (value : Value) : (machine.noteDeclaration name isList value).printed = machine.printed := by
  unfold Machine.noteDeclaration
  split <;> rfl

theorem printed_noteArguments (machine : Machine) (name : String) (procedure : Procedure)
    (values : List Value) :
    (machine.noteArguments name procedure values).printed = machine.printed := by
  unfold Machine.noteArguments
  split <;> rfl

theorem printed_proceed {machine : Machine} {expr : Expr} {rest : List Task}
    {next : Value → Config} (h : ∀ value, (next value).machine.printed = machine.printed) :
    (machine.proceed expr rest next).machine.printed = machine.printed := by
  unfold Machine.proceed
  split
  · rfl
  · exact h _

/-- Beginning a call prints nothing, whether it is entered or not. -/
theorem printed_beginCall (machine : Machine) (name : String) (args : List Expr) (span : Span)
    (rest : List Task) :
    (machine.beginCall limit name args span rest).machine.printed = machine.printed := by
  unfold Machine.beginCall
  split
  · rfl
  · split
    · rfl
    · split
      · rfl
      · exact printed_noteArguments machine name _ _

/-- Beginning a statement that is no print statement prints nothing. -/
theorem printed_begin_of_ne_print {stmt : Stmt} (h : ∀ value span, stmt ≠ .print value span)
    (machine : Machine) (rest : List Task) :
    (stmt.begin limit machine rest).machine.printed = machine.printed := by
  cases stmt with
  | print value span => exact absurd rfl (h value span)
  | assign name value isList span =>
    exact printed_proceed fun value => printed_noteDeclaration machine name isList value
  | function name params body span => rfl
  | branch condition consequence alternative span => exact printed_proceed fun _ => rfl
  | loop count body span =>
    refine printed_proceed fun value => ?_
    split <;> rfl
  | call name args span => exact printed_beginCall machine name args span rest

/-- The step that begins a statement adds to the lines printed the one of that statement. -/
theorem printed_begin (machine : Machine) (rest : List Task) (stmt : Stmt) :
    (stmt.begin limit machine rest).machine.printed.toList =
      machine.printed.toList ++ (stmt.line? machine.env).toList := by
  cases stmt with
  | print expr span =>
    rw [Stmt.begin, Machine.proceed, Stmt.line?]
    cases expr.eval machine.env with
    | error fault => exact (List.append_nil _).symm
    | ok value => exact Array.toList_push
  | _ =>
    -- Other statements print through the blocks and calls that they leave as tasks.
    rw [printed_begin_of_ne_print (by simp)]
    exact (List.append_nil _).symm

/-- A step adds to the lines printed the one that it prints. -/
theorem printed_next? {config after : Config} (h : config.next? limit = some after) :
    after.machine.printed.toList = config.machine.printed.toList ++ config.line?.toList := by
  cases step_of_next? h with
  | statement machine stmt rest => exact printed_begin machine rest stmt
  | drop machine fault task rest => cases task <;> exact (List.append_nil _).symm
  | leave | done | round =>
    -- A call is left with or without a fault, and neither prints anything.
    exact (List.append_nil _).symm

/-- A run adds to the lines printed those that its steps print, in their order. -/
theorem Prints.printed {config last : Config} {lines : List String}
    (h : Prints limit config lines last) :
    last.machine.printed.toList = config.machine.printed.toList ++ lines := by
  induction h with
  | refl config => exact (List.append_nil _).symm
  | step hnext _ ih => rw [ih, printed_next? hnext, List.append_assoc]

/-- The steps of a run print some lines. -/
theorem Reaches.exists_prints {config last : Config} (h : Reaches limit config last) :
    ∃ lines, Prints limit config lines last := by
  induction h using Relation.ReflTransGen.head_induction_on with
  | refl => exact ⟨[], .refl last⟩
  | head hnext _ ih =>
    obtain ⟨lines, hlines⟩ := ih
    exact ⟨_, .step hnext hlines⟩

/-- There is one way to go on from each configuration, so a run to the end prints the same lines
wherever it is said to end. -/
theorem Prints.lines_eq {config last last' : Config} {lines lines' : List String}
    (h : Prints limit config lines last) (hlast : last.next? limit = none)
    (h' : Prints limit config lines' last') (hlast' : last'.next? limit = none) :
    lines = lines' := by
  induction h generalizing lines' with
  | refl config =>
    cases h' with
    | refl => rfl
    | step hnext' _ =>
      -- The first run has nothing left to do, so the second cannot go on.
      rw [hlast] at hnext'
      cases hnext'
  | step hnext _ ih =>
    cases h' with
    | refl =>
      rw [hlast'] at hnext
      cases hnext
    | step hnext' h' =>
      obtain rfl : _ = _ := Option.some.inj (hnext.symm.trans hnext')
      rw [ih hlast h']

end Config

namespace Machine

variable {limit : Nat}

/-! ### Histories -/

/-- Running a program on a machine executes print statements that produce the given lines. -/
def Executes (limit : Nat) (machine : Machine) (program : Program) (lines : List String) : Prop :=
  ∃ last : Config, last.next? limit = none ∧
    Config.Prints limit (.start machine program.body) lines last

/-- Running programs on a machine one after the other, whichever of them fail, executes print
statements that produce the given lines. -/
inductive History (limit : Nat) : Machine → List Program → List String → Prop
  | nil (machine : Machine) : History limit machine [] []
  | cons {machine : Machine} {program : Program} {programs : List Program}
      {lines more : List String} : Executes limit machine program lines →
      History limit (machine.run limit program).2 programs more →
        History limit machine (program :: programs) (lines ++ more)

/-- What the programs give that are run on a machine one after the other. -/
def results (limit : Nat) : List Program → Machine → List (Except Fault (List String))
  | [], _ => []
  | program :: programs, machine =>
    (machine.run limit program).1 :: results limit programs (machine.run limit program).2

/-- The lines that a program hands out: none if it fails. -/
def handedOut : Except Fault (List String) → List String
  | .ok lines => lines
  | .error _ => []

/-- What a program hands out, and then what it leaves with the machine, are the lines of its
statements. -/
theorem handedOut_run (limit : Nat) (program : Program) (machine : Machine) :
    handedOut (machine.run limit program).1 ++ (machine.run limit program).2.printed.toList =
      (machine.execAll limit program.body).machine.printed.toList := by
  rw [run]
  cases (machine.execAll limit program.body).fault? with
  | none => exact List.append_nil _
  | some fault => rfl

/-- A program adds to the lines of a machine those that its print statements produce. -/
theorem Executes.printed {machine : Machine} {program : Program} {lines : List String}
    (h : Executes limit machine program lines) :
    handedOut (machine.run limit program).1 ++ (machine.run limit program).2.printed.toList =
      machine.printed.toList ++ lines := by
  obtain ⟨last, hlast, hprints⟩ := h
  have hends := Config.reaches_machine_execAll limit program.body machine
  obtain ⟨lines', hlines'⟩ := hends.exists_prints
  obtain rfl : lines = lines' := hprints.lines_eq hlast hlines' rfl
  rw [handedOut_run]
  exact hlines'.printed

theorem exists_executes (limit : Nat) (machine : Machine) (program : Program) :
    ∃ lines, Executes limit machine program lines := by
  obtain ⟨lines, hlines⟩ :=
    (Config.reaches_machine_execAll limit program.body machine).exists_prints
  exact ⟨lines, _, rfl, hlines⟩

theorem Executes.lines_eq {machine : Machine} {program : Program} {lines lines' : List String}
    (h : Executes limit machine program lines) (h' : Executes limit machine program lines') :
    lines = lines' := by
  obtain ⟨last, hlast, hprints⟩ := h
  obtain ⟨last', hlast', hprints'⟩ := h'
  exact hprints.lines_eq hlast hprints' hlast'

theorem exists_history (limit : Nat) (programs : List Program) (machine : Machine) :
    ∃ lines, History limit machine programs lines := by
  induction programs generalizing machine with
  | nil => exact ⟨[], .nil machine⟩
  | cons program programs ih =>
    obtain ⟨lines, hlines⟩ := exists_executes limit machine program
    obtain ⟨more, hmore⟩ := ih (machine.run limit program).2
    exact ⟨lines ++ more, .cons hlines hmore⟩

theorem History.lines_eq {machine : Machine} {programs : List Program} {lines lines' : List String}
    (h : History limit machine programs lines) (h' : History limit machine programs lines') :
    lines = lines' := by
  induction h generalizing lines' with
  | nil machine =>
    cases h'
    rfl
  | cons hexecutes _ ih =>
    cases h' with
    | cons hexecutes' hmore' => rw [hexecutes.lines_eq hexecutes', ih hmore']

/-- The lines handed out and then those still kept are the ones that were kept at the start and then
the ones produced since. -/
theorem History.printed {machine : Machine} {programs : List Program} {lines : List String}
    (h : History limit machine programs lines) :
    (results limit programs machine).flatMap handedOut ++
        (machine.runAll limit programs).printed.toList =
      machine.printed.toList ++ lines := by
  induction h with
  | nil machine => exact (List.append_nil _).symm
  | @cons machine program programs lines more hexecutes _ ih =>
    -- What one program leaves with the machine is what the next one finds there.
    calc (results limit (program :: programs) machine).flatMap handedOut ++
          (machine.runAll limit (program :: programs)).printed.toList
        = handedOut (machine.run limit program).1 ++
            ((results limit programs (machine.run limit program).2).flatMap handedOut ++
              ((machine.run limit program).2.runAll limit programs).printed.toList) := by
          rw [results, List.flatMap_cons, List.append_assoc]
          rfl
      _ = handedOut (machine.run limit program).1 ++
            ((machine.run limit program).2.printed.toList ++ more) := by rw [ih]
      _ = machine.printed.toList ++ (lines ++ more) := by
          rw [← List.append_assoc, hexecutes.printed, List.append_assoc]

/-! ### Lines from before -/

/-- A machine with lines that were printed before all that it has. -/
def withEarlier (lines : Array String) (machine : Machine) : Machine :=
  { machine with printed := lines ++ machine.printed }

theorem env_withEarlier (lines : Array String) (machine : Machine) :
    (machine.withEarlier lines).env = machine.env := rfl

theorem functions_withEarlier (lines : Array String) (machine : Machine) :
    (machine.withEarlier lines).functions = machine.functions := rfl

theorem print_withEarlier (lines : Array String) (machine : Machine) (line : String) :
    (machine.withEarlier lines).print line = (machine.print line).withEarlier lines := by
  simp only [print, withEarlier, Array.push_append]

theorem noteDeclaration_withEarlier (lines : Array String) (machine : Machine) (name : String)
    (isList : Bool) (value : Value) :
    (machine.withEarlier lines).noteDeclaration name isList value =
      (machine.noteDeclaration name isList value).withEarlier lines := by
  unfold noteDeclaration
  split <;> rfl

theorem noteArguments_withEarlier (lines : Array String) (machine : Machine) (name : String)
    (procedure : Procedure) (values : List Value) :
    (machine.withEarlier lines).noteArguments name procedure values =
      (machine.noteArguments name procedure values).withEarlier lines := by
  unfold noteArguments
  split <;> rfl

end Machine

/-- What a step leaves, with lines that were printed before. -/
def Outcome.withEarlier (lines : Array String) (outcome : Outcome) : Outcome :=
  ⟨outcome.machine.withEarlier lines, outcome.fault?⟩

namespace Config

variable {limit : Nat} (lines : Array String)

/-- A configuration with lines that were printed before. -/
def withEarlier (config : Config) : Config :=
  { config with machine := config.machine.withEarlier lines }

theorem proceed_withEarlier {machine : Machine} {expr : Expr} {rest : List Task}
    {next next' : Value → Config} (h : ∀ value, next' value = (next value).withEarlier lines) :
    (machine.withEarlier lines).proceed expr rest next' =
      (machine.proceed expr rest next).withEarlier lines := by
  rw [Machine.proceed, Machine.proceed, Machine.env_withEarlier]
  cases expr.eval machine.env with
  | error fault => rfl
  | ok value => exact h value

theorem beginCall_withEarlier (machine : Machine) (name : String) (args : List Expr) (span : Span)
    (rest : List Task) :
    (machine.withEarlier lines).beginCall limit name args span rest =
      (machine.beginCall limit name args span rest).withEarlier lines := by
  rw [Machine.beginCall, Machine.beginCall, Machine.functions_withEarlier, Machine.env_withEarlier]
  cases machine.functions.get? name with
  | none => rfl
  | some procedure =>
    dsimp only
    split
    · rfl
    · cases Expr.evalAll machine.env args with
      | error fault => rfl
      | ok values =>
        dsimp only
        rw [Machine.noteArguments_withEarlier]
        rfl

/-- Beginning a statement does not look at lines from before. -/
theorem begin_withEarlier (machine : Machine) (rest : List Task) (stmt : Stmt) :
    stmt.begin limit (machine.withEarlier lines) rest =
      (stmt.begin limit machine rest).withEarlier lines := by
  cases stmt with
  | print expr span =>
    refine proceed_withEarlier lines fun value => ?_
    rw [Machine.print_withEarlier]
    rfl
  | assign name expr isList span =>
    refine proceed_withEarlier lines fun value => ?_
    rw [Machine.noteDeclaration_withEarlier]
    rfl
  | function name params body span => rfl
  | branch condition consequence alternative span =>
    exact proceed_withEarlier lines fun value => rfl
  | loop count body span =>
    refine proceed_withEarlier lines fun value => ?_
    split <;> rfl
  | call name args span => exact beginCall_withEarlier lines machine name args span rest

/-- A step does not look at lines from before. -/
theorem next?_withEarlier (config : Config) :
    (config.withEarlier lines).next? limit = (config.next? limit).map (withEarlier lines) := by
  obtain ⟨machine, fault?, tasks⟩ := config
  cases tasks with
  | nil => rfl
  | cons task rest =>
    cases task with
    | leave => rfl
    | statement stmt =>
      cases fault? with
      | none => exact congrArg some (begin_withEarlier lines machine rest stmt)
      | some fault => rfl
    | rounds count body =>
      cases fault? with
      | none => cases count <;> rfl
      | some fault => rfl

/-- A run does not look at lines from before. -/
theorem Reaches.withEarlier {config last : Config} (h : Reaches limit config last) :
    Reaches limit (config.withEarlier lines) (last.withEarlier lines) := by
  induction h with
  | refl => exact .refl _
  | tail _ hnext ih =>
    refine Relation.ReflTransGen.tail ih ?_
    rw [next?_withEarlier, hnext]
    rfl

/-- Nothing but one configuration can be the end of a run. -/
theorem Reaches.last_eq {config last last' : Config} (h : Reaches limit config last)
    (hlast : last.next? limit = none) (h' : Reaches limit config last')
    (hlast' : last'.next? limit = none) : last = last' := by
  rcases Relation.ReflTransGen.cases_head (h.to_last h' hlast') with heq | ⟨after, hnext, -⟩
  · exact heq
  · rw [hlast] at hnext
    cases hnext

end Config

namespace Machine

variable {limit : Nat}

/-- Running statements does not look at lines from before. -/
theorem execAll_withEarlier (lines : Array String) (stmts : List Stmt) (machine : Machine) :
    (machine.withEarlier lines).execAll limit stmts =
      (machine.execAll limit stmts).withEarlier lines := by
  have hrun := (Config.reaches_machine_execAll limit stmts machine).withEarlier lines
  have hends := Config.reaches_machine_execAll limit stmts (machine.withEarlier lines)
  -- Both ends have nothing left to do, so they are the same.
  have hsame := hends.last_eq rfl hrun rfl
  obtain ⟨hmachine, hfault⟩ := Config.mk.inj hsame
  generalize execAll limit stmts (machine.withEarlier lines) = outcome at hmachine hfault ⊢
  obtain ⟨after, fault?⟩ := outcome
  obtain rfl : after = _ := hmachine
  obtain rfl : fault? = _ := hfault.1
  rfl

/-! ### One program after the other -/

theorem execAll_append_stmts (call : Caller) (first second : List Stmt) (machine : Machine) :
    Stmt.execAll call (first ++ second) machine =
      (Stmt.execAll call first machine).andThen (Stmt.execAll call second) := by
  induction first generalizing machine with
  | nil => simp [Stmt.execAll, done]
  | cons stmt first ih =>
    rw [List.cons_append, Stmt.execAll, Stmt.execAll, Outcome.andThen_assoc]
    congr 1
    funext machine
    exact ih machine

/-- Statements after others are run as if the first had been run by themselves: as many calls are
active then as before. -/
theorem execAll_append (limit : Nat) (first second : List Stmt) (machine : Machine) :
    machine.execAll limit (first ++ second) =
      (machine.execAll limit first).andThen (execAll limit second) := by
  have hdepth : (machine.execAll limit first).machine.env.callDepth = machine.env.callDepth :=
    Environment.callDepth_of_tail_frames
      (Stmt.keepsOuter_execAll (keepsOuter_callWithin limit _) first machine)
  rw [execAll, execAll_append_stmts, ← execAll]
  generalize execAll limit first machine = outcome at hdepth ⊢
  obtain ⟨after, fault?⟩ := outcome
  cases fault? with
  | some fault => rfl
  | none =>
    -- The rest may enter as many calls as the whole could, since the depth is the same.
    show Stmt.execAll _ second after = execAll limit second after
    have hdepth : after.env.callDepth = machine.env.callDepth := hdepth
    rw [execAll, hdepth]

/-- A program without a fault hands out all lines of its statements, and they are the only thing it
takes from the machine. -/
theorem execAll_of_run_ok {program : Program} {machine after : Machine} {lines : List String}
    (h : machine.run limit program = (.ok lines, after)) :
    machine.execAll limit program.body = ⟨after.withEarlier lines.toArray, none⟩ := by
  rw [run] at h
  generalize machine.execAll limit program.body = outcome at h ⊢
  obtain ⟨last, fault?⟩ := outcome
  cases fault? with
  | some fault => cases h
  | none =>
    cases h
    simp [takePrinted, withEarlier]

/-- What two runs give is the same, except that they may hand out other lines: neither has a fault,
or both have the same. -/
def SameEnd (first second : Except Fault (List String)) : Prop :=
  first.map (fun _ => ()) = second.map fun _ => ()

/-- A program that follows another one which ended without a fault does what the rest of the two
programs in one does. Only the lines of the first are handed out earlier. -/
theorem run_append {first second : Program} {machine after : Machine} {lines : List String}
    (h : machine.run limit first = (.ok lines, after)) :
    let next := after.run limit second
    let whole := machine.run limit ⟨first.body ++ second.body⟩
    next.2.env = whole.2.env ∧ next.2.functions = whole.2.functions ∧ SameEnd next.1 whole.1 ∧
      lines ++ (handedOut next.1 ++ next.2.printed.toList) =
        handedOut whole.1 ++ whole.2.printed.toList := by
  have hwhole : machine.execAll limit (first.body ++ second.body) =
      (after.execAll limit second.body).withEarlier lines.toArray := by
    rw [execAll_append, execAll_of_run_ok h]
    exact execAll_withEarlier lines.toArray second.body after
  -- Both results are now read off the outcome of the second program.
  dsimp only
  rw [handedOut_run, handedOut_run, hwhole, run, run, hwhole]
  generalize after.execAll limit second.body = outcome
  obtain ⟨last, fault?⟩ := outcome
  refine ⟨?_, ?_, ?_, ?_⟩
  · cases fault? <;> rfl
  · cases fault? <;> rfl
  · cases fault? <;> rfl
  · simp [Outcome.withEarlier, withEarlier]

end Machine

open Machine in
/-- A machine that is used again and again neither loses, doubles nor moves printed lines. Whatever
programs are run on it, and whichever of them fail, the lines handed out and then the lines still
kept are those that were kept at the start and then those that the executed print statements
produced. If a program ends without a fault, the next one leaves the same variables and functions,
and fails in the same way or not at all, as if the two were run as one program, and both ways the
same lines are handed out and then kept. -/
theorem lines_accounted (limit : Nat) (machine : Machine) :
    (∀ programs, ∃ lines, History limit machine programs lines ∧
      (∀ lines', History limit machine programs lines' → lines' = lines) ∧
      (results limit programs machine).flatMap handedOut ++
          (machine.runAll limit programs).printed.toList =
        machine.printed.toList ++ lines) ∧
    ∀ first second lines after, machine.run limit first = (.ok lines, after) →
      let next := after.run limit second
      let whole := machine.run limit ⟨first.body ++ second.body⟩
      next.2.env = whole.2.env ∧ next.2.functions = whole.2.functions ∧ SameEnd next.1 whole.1 ∧
        lines ++ (handedOut next.1 ++ next.2.printed.toList) =
          handedOut whole.1 ++ whole.2.printed.toList := by
  refine ⟨fun programs => ?_, fun first second lines after h => run_append h⟩
  obtain ⟨lines, hlines⟩ := exists_history limit programs machine
  exact ⟨lines, hlines, fun lines' h => h.lines_eq hlines, hlines.printed⟩

/-- A program that prints a line. -/
def printsTrue : Program :=
  ⟨[.print (.boolean true ⟨0, 0⟩) ⟨0, 0⟩]⟩

/-- A program that prints a line and then fails. -/
def printsThenFails : Program :=
  ⟨[.print (.boolean false ⟨0, 0⟩) ⟨0, 0⟩, .call "missing" [] ⟨1, 2⟩]⟩

/-- A line that is printed before a fault is handed out with the next program. As one program, the
two fail in the same way with both lines kept. -/
theorem lines_accounted_failing :
    (Machine.initial.run 1 printsTrue).1 = .ok ["true"] ∧
    Machine.results 1 [printsThenFails, printsTrue] .initial =
      [.error ⟨.undefinedFunction "missing", ⟨1, 2⟩,
        some "Define it before calling: `function missing(...) \x7b ... \x7d`."⟩,
        .ok ["false", "true"]] ∧
    (∃ lines, Machine.History 1 .initial [printsThenFails, printsTrue] lines ∧
      lines = ["false", "true"]) ∧
    Machine.SameEnd ((Machine.initial.run 1 printsTrue).2.run 1 printsThenFails).1
      (Machine.initial.run 1 ⟨printsTrue.body ++ printsThenFails.body⟩).1 := by
  have hfirst : Machine.initial.run 1 printsTrue =
      (.ok ["true"], (Machine.initial.run 1 printsTrue).2) := by
    cbv
  have hresults : Machine.results 1 [printsThenFails, printsTrue] .initial =
      [.error ⟨.undefinedFunction "missing", ⟨1, 2⟩,
        some "Define it before calling: `function missing(...) \x7b ... \x7d`."⟩,
        .ok ["false", "true"]] := by
    cbv
  have hkept : (Machine.initial.runAll 1 [printsThenFails, printsTrue]).printed.toList = [] := by
    cbv
  obtain ⟨haccounted, hsequence⟩ := lines_accounted 1 .initial
  refine ⟨congrArg Prod.fst hfirst, hresults, ?_, (hsequence _ printsThenFails _ _ hfirst).2.2.1⟩
  obtain ⟨lines, hlines, -, hequal⟩ := haccounted [printsThenFails, printsTrue]
  rw [hresults, hkept] at hequal
  exact ⟨lines, hlines, hequal.symm⟩

end LineScript
