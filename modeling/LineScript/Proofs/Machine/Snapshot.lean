import LineScript.Proofs.Machine.Frames
import LineScript.Proofs.Machine.Strictness

/-!
# Calls that save and restore one table of variables

The reference for calls is a state with one flat table of variables. A call saves the table, puts
its parameters over it, runs the body of its function and restores what it saved, also when the body
fails; a counter says how deep calls are. Machines keep a stack of frames instead and copy nothing.
They refine the reference: names stand for the same values, so runs have the same faults, print the
same lines and leave the same functions.
-/

namespace LineScript

/-- The state of the reference. -/
structure Snapshot where
  /-- All variables. -/
  store : Table Value
  /-- The functions. -/
  functions : Table Procedure
  /-- The lines printed since lines were handed out last. -/
  printed : Array String
  /-- What was noted. -/
  journal : Array Event

namespace Snapshot

/-- What a step leaves: the state, and the fault of a step that failed. -/
structure Outcome where
  /-- The state after the step. -/
  state : Snapshot
  /-- Why the step failed, if it did. -/
  fault? : Option Fault

/-- Notes an event. -/
def note (state : Snapshot) (event : Event) : Snapshot :=
  { state with journal := state.journal.push event }

/-- Notes that a variable declared for a list holds something else, if it does. -/
def noteDeclaration (state : Snapshot) (name : String) (isList : Bool) (value : Value) : Snapshot :=
  match isList, value with
  | true, .list _ | false, _ => state
  | true, value => state.note (.notAList name value.typeName)

/-- Goes on with a step, unless there was a fault. -/
def Outcome.andThen (outcome : Outcome) (next : Snapshot → Outcome) : Outcome :=
  match outcome.fault? with
  | none => next outcome.state
  | some _ => outcome

/-- Takes a step a number of times, unless it fails. -/
def times : Nat → (Snapshot → Outcome) → Snapshot → Outcome
  | 0, _, state => ⟨state, none⟩
  | count + 1, step, state => (step state).andThen (times count step)

/-- Goes on with the value of an expression in the one table, unless it has none. -/
def evaluate (state : Snapshot) (expr : Expr) (next : Value → Outcome) : Outcome :=
  match expr.eval ⟨state.store, []⟩ with
  | .error fault => ⟨state, some fault⟩
  | .ok value => next value

/-- Puts parameters over a table, one after the other. Parameters without an argument are undefined,
and arguments without a parameter are dropped. -/
def overlay : List String → List Value → Table Value → Table Value
  | [], _, store => store
  | param :: params, [], store => overlay params [] (store.insert param .undefined)
  | param :: params, value :: values, store =>
    overlay params values (store.insert param value)

/-- A way to run calls: by name, arguments and span. -/
abbrev Caller := String → List Expr → Span → Snapshot → Outcome

mutual

/-- Runs a statement. -/
def exec (call : Caller) : Stmt → Snapshot → Outcome
  | .print value _, state =>
    state.evaluate value fun value =>
      ⟨{ state with printed := state.printed.push value.display }, none⟩
  | .assign name value isList _, state =>
    state.evaluate value fun value =>
      let noted := state.noteDeclaration name isList value
      ⟨{ noted with store := noted.store.insert name value }, none⟩
  | .function name params body _, state =>
    ⟨{ state with functions := state.functions.insert name ⟨params, body⟩ }, none⟩
  | .branch condition consequence alternative _, state =>
    state.evaluate condition fun value =>
      if value.isTruthy then execAll call consequence state
      else execAlternative call alternative state
  | .loop count body span, state =>
    state.evaluate count fun value =>
      if value.toNumber.isInf && 0 < value.toNumber then
        ⟨state, some { cause := .invalidRepeatCount value.toNumber, span }⟩
      else
        times (iterations value.toNumber) (fun state => execAll call body state) state
  | .call name args span, state => call name args span state

/-- Runs statements one after the other. -/
def execAll (call : Caller) : List Stmt → Snapshot → Outcome
  | [], state => ⟨state, none⟩
  | stmt :: stmts, state => (exec call stmt state).andThen fun state => execAll call stmts state

/-- Runs the block for a condition that does not hold, if there is one. -/
def execAlternative (call : Caller) : Option (List Stmt) → Snapshot → Outcome
  | none, state => ⟨state, none⟩
  | some stmts, state => execAll call stmts state

end

/-- Notes that a call has more arguments than parameters, if it has. -/
def noteArguments (state : Snapshot) (name : String) (procedure : Procedure)
    (values : List Value) : Snapshot :=
  if procedure.params.length < values.length then
    state.note (.extraArguments (values.length - procedure.params.length) name)
  else
    state

/-- Runs a call at a depth: evaluates the arguments, saves the variables, puts the parameters over
them, runs the body that the function has now, one call deeper, and restores the variables. -/
def callAt (limit depth : Nat) : Caller := fun name args span state =>
  match state.functions.get? name with
  | none =>
    ⟨state, some
      { cause := .undefinedFunction name
        span
        help := some ("Define it before calling: `function " ++ name ++ "(...) \x7b ... \x7d`.") }⟩
  | some procedure =>
    if depth < limit then
      match Expr.evalAll ⟨state.store, []⟩ args with
      | .error fault => ⟨state, some fault⟩
      | .ok values =>
        let saved := state.store
        let noted := state.noteArguments name procedure values
        let outcome := execAll (callAt limit (depth + 1)) procedure.body
          { noted.note (.calling name (depth + 1)) with
            store := overlay procedure.params values saved }
        ⟨{ outcome.state with store := saved }, outcome.fault?⟩
    else
      ⟨state, some { cause := .callDepthExceeded limit, span }⟩
termination_by limit - depth

/-- Runs a program at a depth. The lines printed are handed out if it runs to its end. -/
def run (limit depth : Nat) (program : Program) (state : Snapshot) :
    Except Fault (List String) × Snapshot :=
  let outcome := execAll (callAt limit depth) program.body state
  match outcome.fault? with
  | some fault => (.error fault, outcome.state)
  | none => (.ok outcome.state.printed.toList, { outcome.state with printed := #[] })

/-! ### Variables -/

/-- Entries put over a table hide those that it has. -/
theorem get?_foldl_insert {α : Type} (entries : List (String × α)) (table : Table α)
    (name : String) :
    (entries.foldl (fun table (name, value) => table.insert name value) table).get? name =
      ((Table.ofEntries entries).get? name).or (table.get? name) := by
  induction entries generalizing table with
  | nil => rfl
  | cons entry entries ih =>
    obtain ⟨key, value⟩ := entry
    -- The first entry is put over the table here and over nothing in the table of all entries.
    have hofEntries : (Table.ofEntries ((key, value) :: entries)).get? name =
        ((Table.ofEntries entries).get? name).or (Table.get? (Table.insert [] key value) name) :=
      ih _
    rw [List.foldl_cons, ih, hofEntries, Option.or_assoc]
    congr 1
    by_cases hname : name = key
    · subst hname
      rw [Table.get?_insert_self, Table.get?_insert_self, Option.some_or]
    · rw [Table.get?_insert_of_ne _ hname, Table.get?_insert_of_ne _ hname]
      rfl

theorem overlay_eq (params : List String) (values : List Value) (store : Table Value) :
    overlay params values store = (Procedure.bind params values).foldl
      (fun table (name, value) => table.insert name value) store := by
  induction params, values, store using overlay.induct with
  | case1 values store => simp [overlay, Procedure.bind]
  | case2 param params store ih => rw [overlay, ih, Procedure.bind, List.foldl_cons]
  | case3 param params value values store ih =>
    rw [overlay, ih, Procedure.bind, List.foldl_cons]

/-- Parameters put over a table stand for what they stand for in the frame of the call. -/
theorem get?_overlay (procedure : Procedure) (values : List Value) (store : Table Value)
    (name : String) :
    (overlay procedure.params values store).get? name =
      ((procedure.frame values).get? name).or (store.get? name) := by
  rw [overlay_eq, get?_foldl_insert]
  rfl

/-! ### The refinement -/

/-- A machine stands for a state of the reference: it is as many calls deep, names stand for the
same values, and all else is the same. -/
structure Refines (depth : Nat) (machine : Machine) (state : Snapshot) : Prop where
  /-- As many calls are active. -/
  depth : machine.env.callDepth = depth
  /-- Names stand for the same values. -/
  store : ∀ name, machine.env.get? name = state.store.get? name
  /-- The functions are the same. -/
  functions : machine.functions = state.functions
  /-- The same lines were printed. -/
  printed : machine.printed = state.printed
  /-- The same was noted. -/
  journal : machine.journal = state.journal

/-- A step of a machine stands for a step of the reference. -/
structure RefinesOutcome (depth : Nat) (outcome : LineScript.Outcome) (reference : Outcome) :
    Prop where
  /-- What the steps leave. -/
  state : Refines depth outcome.machine reference.state
  /-- Both fail, for the same reason, or neither does. -/
  fault : outcome.fault? = reference.fault?

variable {depth : Nat} {machine : Machine} {state : Snapshot}

theorem Refines.eval (h : Refines depth machine state) (expr : Expr) :
    expr.eval machine.env = expr.eval ⟨state.store, []⟩ :=
  Expr.eval_of_names fun name _ => h.store name

theorem Refines.evalAll (h : Refines depth machine state) (exprs : List Expr) :
    Expr.evalAll machine.env exprs = Expr.evalAll ⟨state.store, []⟩ exprs :=
  Expr.evalAll_of_namesAll fun name _ => h.store name

theorem Refines.note (h : Refines depth machine state) (event : Event) :
    Refines depth (machine.note event) (state.note event) :=
  { h with journal := congrArg (·.push event) h.journal }

theorem Refines.noteDeclaration (h : Refines depth machine state) (name : String) (isList : Bool)
    (value : Value) :
    Refines depth (machine.noteDeclaration name isList value)
      (state.noteDeclaration name isList value) := by
  rw [Machine.noteDeclaration.eq_def, Snapshot.noteDeclaration.eq_def]
  cases isList with
  | false => exact h
  | true =>
    cases value with
    | list items => exact h
    | _ => exact h.note _

theorem Refines.noteArguments (h : Refines depth machine state) (name : String)
    (procedure : Procedure) (values : List Value) :
    Refines depth (machine.noteArguments name procedure values)
      (state.noteArguments name procedure values) := by
  unfold Machine.noteArguments Snapshot.noteArguments
  split
  · exact h.note _
  · exact h

theorem store_note (state : Snapshot) (event : Event) :
    (state.note event).store = state.store := rfl

theorem store_noteArguments (state : Snapshot) (name : String) (procedure : Procedure)
    (values : List Value) :
    (state.noteArguments name procedure values).store = state.store := by
  unfold noteArguments
  split <;> rfl

theorem Refines.define (h : Refines depth machine state) (name : String) (value : Value) :
    Refines depth (machine.define name value)
      { state with store := state.store.insert name value } := by
  refine { h with depth := ?_, store := ?_ }
  · exact (machine.env.callDepth_define name value).trans h.depth
  · intro other
    show (machine.env.define name value).get? other = (state.store.insert name value).get? other
    -- The frame that is written to is the innermost one, which is looked up first.
    by_cases hname : other = name
    · subst hname
      rw [Environment.get?_define_self, Table.get?_insert_self]
    · rw [Environment.get?_define_of_ne _ hname, Table.get?_insert_of_ne _ hname, h.store]

theorem RefinesOutcome.andThen {outcome : LineScript.Outcome} {reference : Outcome}
    {next : Machine → LineScript.Outcome} {next' : Snapshot → Outcome}
    (h : RefinesOutcome depth outcome reference)
    (hnext : ∀ machine state, Refines depth machine state →
      RefinesOutcome depth (next machine) (next' state)) :
    RefinesOutcome depth (outcome.andThen next) (reference.andThen next') := by
  obtain ⟨machine, fault?⟩ := outcome
  obtain ⟨state, fault?'⟩ := reference
  obtain rfl : fault? = fault?' := h.fault
  cases fault? with
  | none => exact hnext machine state h.state
  | some fault => exact h

theorem refines_times {step : Machine → LineScript.Outcome} {step' : Snapshot → Outcome}
    (hstep : ∀ machine state, Refines depth machine state →
      RefinesOutcome depth (step machine) (step' state)) (count : Nat)
    (h : Refines depth machine state) :
    RefinesOutcome depth (machine.times count step) (times count step' state) := by
  induction count generalizing machine state with
  | zero => exact ⟨h, rfl⟩
  | succ count ih => exact (hstep machine state h).andThen fun _ _ => ih

theorem Refines.evaluate (h : Refines depth machine state) {expr : Expr}
    {next : Value → LineScript.Outcome} {next' : Value → Outcome}
    (hnext : ∀ value, RefinesOutcome depth (next value) (next' value)) :
    RefinesOutcome depth (machine.evaluate expr next) (state.evaluate expr next') := by
  rw [Machine.evaluate, Snapshot.evaluate, h.eval]
  cases expr.eval ⟨state.store, []⟩ with
  | error fault => exact ⟨h, rfl⟩
  | ok value => exact hnext value

/-- Two ways to run calls take steps that stand for each other. -/
def Simulates (depth : Nat) (call : LineScript.Caller) (call' : Caller) : Prop :=
  ∀ name args span machine state, Refines depth machine state →
    RefinesOutcome depth (call name args span machine) (call' name args span state)

section

variable {call : LineScript.Caller} {call' : Caller}

mutual

/-- Statements stand for each other if calls do. -/
theorem refines_exec (hcall : Simulates depth call call') (stmt : Stmt) (machine : Machine)
    (state : Snapshot) (h : Refines depth machine state) :
    RefinesOutcome depth (stmt.exec call machine) (exec call' stmt state) := by
  match stmt with
  | .print value span =>
    rw [Stmt.exec, exec]
    refine h.evaluate fun value => ⟨?_, rfl⟩
    exact { h with printed := congrArg (·.push value.display) h.printed }
  | .assign name value isList span =>
    rw [Stmt.exec, exec]
    refine h.evaluate fun value => ⟨?_, rfl⟩
    exact (h.noteDeclaration name isList value).define name value
  | .function name params body span =>
    rw [Stmt.exec, exec]
    exact ⟨{ h with functions := congrArg (·.insert name ⟨params, body⟩) h.functions }, rfl⟩
  | .branch condition consequence alternative span =>
    rw [Stmt.exec, exec]
    refine h.evaluate fun value => ?_
    split
    · exact refines_execAll hcall consequence machine state h
    · exact refines_execAlternative hcall alternative machine state h
  | .loop count body span =>
    rw [Stmt.exec, exec]
    refine h.evaluate fun value => ?_
    split
    · exact ⟨h, rfl⟩
    · exact refines_times (refines_execAll hcall body) _ h
  | .call name args span =>
    rw [Stmt.exec, exec]
    exact hcall name args span machine state h

theorem refines_execAll (hcall : Simulates depth call call') (stmts : List Stmt)
    (machine : Machine) (state : Snapshot) (h : Refines depth machine state) :
    RefinesOutcome depth (Stmt.execAll call stmts machine) (execAll call' stmts state) := by
  match stmts with
  | [] => exact ⟨h, rfl⟩
  | stmt :: stmts =>
    rw [Stmt.execAll, execAll]
    exact (refines_exec hcall stmt machine state h).andThen (refines_execAll hcall stmts)

theorem refines_execAlternative (hcall : Simulates depth call call')
    (alternative : Option (List Stmt)) (machine : Machine) (state : Snapshot)
    (h : Refines depth machine state) :
    RefinesOutcome depth (Stmt.execAlternative call alternative machine)
      (execAlternative call' alternative state) := by
  match alternative with
  | none => exact ⟨h, rfl⟩
  | some stmts =>
    rw [Stmt.execAlternative, execAlternative]
    exact refines_execAll hcall stmts machine state h

end

end

/-- Entering a call on a frame stands for putting its parameters over the table. -/
theorem Refines.enter (h : Refines depth machine state) (procedure : Procedure)
    (values : List Value) :
    Refines (depth + 1) (machine.enter (procedure.frame values))
      { state with store := overlay procedure.params values state.store } := by
  refine { h with depth := ?_, store := ?_ }
  · exact congrArg (· + 1) h.depth
  · intro name
    show (machine.env.push (procedure.frame values)).get? name = _
    rw [Environment.get?_push, get?_overlay, h.store]

/-- A call that may still enter as many calls as the limit leaves at its depth stands for the call
that the reference makes there. -/
theorem simulates_callWithin (limit room depth : Nat) (hroom : room = limit - depth) :
    Simulates depth (Machine.callWithin limit room) (callAt limit depth) := by
  induction room generalizing depth with
  | zero =>
    intro name args span machine state h
    rw [Machine.callWithin, callAt, h.functions]
    cases state.functions.get? name with
    | none => exact ⟨h, rfl⟩
    | some procedure =>
      -- Both check the depth once the function is found, and before its arguments.
      dsimp only
      rw [if_neg (by omega)]
      exact ⟨h, rfl⟩
  | succ room ih =>
    intro name args span machine state h
    -- The body runs one call deeper, so its own frames are gone only after it is left.
    have hframes := Machine.env_callWithin limit (room + 1) name args span machine
    rw [Machine.callWithin] at hframes
    rw [Machine.callWithin, callAt, h.functions]
    rw [h.functions] at hframes
    cases hprocedure : state.functions.get? name with
    | none => exact ⟨h, rfl⟩
    | some procedure =>
      rw [hprocedure] at hframes
      dsimp only at hframes ⊢
      rw [if_pos (by omega), h.evalAll]
      rw [h.evalAll] at hframes
      cases hvalues : Expr.evalAll ⟨state.store, []⟩ args with
      | error fault => exact ⟨h, rfl⟩
      | ok values =>
        rw [hvalues] at hframes
        dsimp only at hframes ⊢
        rw [h.depth] at hframes ⊢
        have hentered := ((h.noteArguments name procedure values).note
          (.calling name (depth + 1))).enter procedure values
        rw [store_note, store_noteArguments] at hentered
        obtain ⟨hafter, hfault⟩ :=
          refines_execAll (ih (depth + 1) (by omega)) procedure.body _ _ hentered
        -- Leaving the call brings back the environment for which the saved table stands.
        refine ⟨{ hafter with depth := ?_, store := ?_ }, hfault⟩
        · rw [hframes, h.depth]
        · intro name
          rw [hframes, h.store]

/-- The state that a machine stands for. Its variables are those of all frames, of which the
innermost come first and are found. -/
def ofMachine (machine : Machine) : Snapshot :=
  { store := machine.env.frames.flatten
    functions := machine.functions
    printed := machine.printed
    journal := machine.journal }

/-- The frames one after the other are looked up as a stack of frames is. -/
theorem get?_flatten (frames : List Frame) (name : String) :
    Table.get? frames.flatten name = frames.findSome? (·.get? name) := by
  induction frames with
  | nil => rfl
  | cons frame frames ih =>
    have happend : Table.get? (frame :: frames).flatten name =
        (frame.get? name).or (Table.get? frames.flatten name) := List.lookup_append
    rw [happend, ih, List.findSome?_cons]
    cases frame.get? name <;> rfl

theorem refines_ofMachine (machine : Machine) :
    Refines machine.env.callDepth machine (ofMachine machine) where
  depth := rfl
  store name := by rw [Environment.get?_eq_findSome?_frames, ← get?_flatten]; rfl
  functions := rfl
  printed := rfl
  journal := rfl

end Snapshot

/-- Running a program with a stack of frames and running it with one table that calls save and
restore give the same lines or the same fault, and leave the same functions and the same values of
all names, whatever was run before and however many calls may be active. -/
theorem run_eq_snapshot_run (limit : Nat) (program : Program) (machine : Machine) :
    let (result, after) := machine.run limit program
    let (reference, state) :=
      Snapshot.run limit machine.env.callDepth program (Snapshot.ofMachine machine)
    result = reference ∧ after.functions = state.functions ∧ after.printed = state.printed ∧
      after.journal = state.journal ∧
        ∀ name, after.env.get? name = state.store.get? name := by
  have hcall := Snapshot.simulates_callWithin limit (limit - machine.env.callDepth)
    machine.env.callDepth rfl
  obtain ⟨hstate, hfault⟩ := Snapshot.refines_execAll hcall program.body machine _
    (Snapshot.refines_ofMachine machine)
  -- Both hand out their lines in the same way, so only what the statements leave matters.
  rw [Machine.run, Snapshot.run, Machine.execAll]
  generalize Stmt.execAll _ program.body machine = outcome at hstate hfault ⊢
  generalize Snapshot.execAll _ program.body (Snapshot.ofMachine machine) = reference
    at hstate hfault ⊢
  rw [← hfault]
  cases outcome.fault? with
  | some fault =>
    exact ⟨rfl, hstate.functions, hstate.printed, hstate.journal, hstate.store⟩
  | none =>
    refine ⟨?_, hstate.functions, rfl, hstate.journal, hstate.store⟩
    exact congrArg (fun lines => Except.ok lines.toList) hstate.printed

end LineScript
