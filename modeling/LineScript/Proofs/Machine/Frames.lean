import LineScript.Machine.Statement

/-!
# Frames

Running a statement changes no frame but the innermost, whether it fails or not, and a call changes
none at all. So an environment can be told from the one it was made from by the frame it adds.
-/

namespace LineScript

namespace Environment

theorem frames_push (env : Environment) (frame : Frame) :
    (env.push frame).frames = frame :: env.frames := rfl

theorem tail_frames_define (env : Environment) (name : String) (value : Value) :
    (env.define name value).frames.tail = env.frames.tail := by
  unfold define
  split <;> simp_all [frames]

/-- Leaving a call brings back the environment in which it was entered, provided that the outer
frames are still the same. -/
theorem pop_of_tail_frames {inner env : Environment} (h : inner.frames.tail = env.frames) :
    inner.pop = env := by
  obtain ⟨globals, calls⟩ := inner
  cases calls with
  | nil =>
    have hnil : env.frames = [] := h.symm
    simp [frames] at hnil
  | cons frame outer =>
    have hframes : outer ++ [globals] = env.calls ++ [env.globals] := h
    obtain ⟨hcalls, hglobals⟩ := List.append_inj' hframes rfl
    obtain rfl : globals = env.globals := List.singleton_inj.mp hglobals
    simp only [pop, List.tail_cons, hcalls]

/-- As many calls are active as there are frames around the innermost one. -/
theorem length_tail_frames (env : Environment) : env.frames.tail.length = env.callDepth := by
  simp [frames, callDepth]

theorem callDepth_of_tail_frames {env env' : Environment} (h : env.frames.tail = env'.frames.tail) :
    env.callDepth = env'.callDepth := by
  rw [← length_tail_frames, h, length_tail_frames]

/-- A name has the value that a call gives it, and otherwise the one it has outside. -/
theorem get?_push (env : Environment) (frame : Frame) (name : String) :
    (env.push frame).get? name = (frame.get? name).or (env.get? name) := by
  rw [get?_eq_findSome?_frames, get?_eq_findSome?_frames, frames_push, List.findSome?_cons]
  cases frame.get? name <;> rfl

/-- Giving a name a value leaves those of all others. -/
theorem get?_define_of_ne (env : Environment) {name other : String} (h : other ≠ name)
    (value : Value) : (env.define name value).get? other = env.get? other := by
  unfold define
  split
  next hcalls => simp [get?, hcalls, Table.get?_insert_of_ne _ h]
  next frame outer hcalls =>
    simp [get?, hcalls, List.findSome?_cons, Table.get?_insert_of_ne _ h]

end Environment

namespace Machine

/-- A step changes no frame but the innermost, whether it fails or not. -/
def KeepsOuter (step : Machine → Outcome) : Prop :=
  ∀ machine, (step machine).machine.env.frames.tail = machine.env.frames.tail

theorem KeepsOuter.andThen {first second : Machine → Outcome} (hfirst : KeepsOuter first)
    (hsecond : KeepsOuter second) :
    KeepsOuter fun machine => (first machine).andThen second := by
  intro machine
  have hkept := hfirst machine
  show ((first machine).andThen second).machine.env.frames.tail = machine.env.frames.tail
  generalize first machine = outcome at hkept ⊢
  obtain ⟨after, fault?⟩ := outcome
  cases fault? with
  | none => exact (hsecond after).trans hkept
  | some fault => exact hkept

theorem KeepsOuter.times {step : Machine → Outcome} (h : KeepsOuter step) (count : Nat) :
    KeepsOuter (Machine.times count step) := by
  induction count with
  | zero => exact fun _ => rfl
  | succ count ih => exact h.andThen ih

theorem tail_frames_evaluate {machine : Machine} {expr : Expr} {next : Value → Outcome}
    (h : ∀ value, (next value).machine.env.frames.tail = machine.env.frames.tail) :
    (machine.evaluate expr next).machine.env.frames.tail = machine.env.frames.tail := by
  unfold evaluate
  split
  · rfl
  · exact h _

theorem env_noteDeclaration (machine : Machine) (name : String) (isList : Bool) (value : Value) :
    (machine.noteDeclaration name isList value).env = machine.env := by
  unfold noteDeclaration
  split <;> rfl

theorem env_noteArguments (machine : Machine) (name : String) (procedure : Procedure)
    (values : List Value) : (machine.noteArguments name procedure values).env = machine.env := by
  unfold noteArguments
  split <;> rfl

end Machine

namespace Stmt

open Machine

variable {call : Caller}

mutual

/-- A statement keeps the outer frames if calls do. -/
theorem keepsOuter_exec (hcall : ∀ name args span, KeepsOuter (call name args span))
    (stmt : Stmt) : KeepsOuter (stmt.exec call) := by
  intro machine
  match stmt with
  | print value span =>
    rw [exec]
    exact tail_frames_evaluate fun _ => rfl
  | assign name value isList span =>
    rw [exec]
    refine tail_frames_evaluate fun value => ?_
    show ((machine.noteDeclaration name isList value).env.define name value).frames.tail = _
    rw [Environment.tail_frames_define, env_noteDeclaration]
  | function name params body span => rfl
  | branch condition consequence alternative span =>
    rw [exec]
    refine tail_frames_evaluate fun value => ?_
    split
    · exact keepsOuter_execAll hcall consequence machine
    · exact keepsOuter_execAlternative hcall alternative machine
  | loop count body span =>
    rw [exec]
    refine tail_frames_evaluate fun value => ?_
    split
    · rfl
    · exact (keepsOuter_execAll hcall body).times _ machine
  | Stmt.call name args span =>
    rw [exec]
    exact hcall name args span machine

theorem keepsOuter_execAll (hcall : ∀ name args span, KeepsOuter (call name args span))
    (stmts : List Stmt) : KeepsOuter (execAll call stmts) := by
  intro machine
  match stmts with
  | [] => rfl
  | stmt :: stmts =>
    rw [execAll]
    exact (keepsOuter_exec hcall stmt).andThen (keepsOuter_execAll hcall stmts) machine

theorem keepsOuter_execAlternative
    (hcall : ∀ name args span, KeepsOuter (call name args span))
    (alternative : Option (List Stmt)) : KeepsOuter (execAlternative call alternative) := by
  intro machine
  match alternative with
  | none => rfl
  | some stmts =>
    rw [execAlternative]
    exact keepsOuter_execAll hcall stmts machine

end

end Stmt

namespace Machine

/-- A call that is not kept from being entered runs the body of its function. -/
theorem callWithin_of_entered {limit room : Nat} {name : String} {args : List Expr}
    {machine : Machine} {procedure : Procedure} {values : List Value}
    (hfound : machine.functions.get? name = some procedure)
    (hvalues : Expr.evalAll machine.env args = .ok values) (span : Span) :
    callWithin limit (room + 1) name args span machine =
      let outcome := Stmt.execAll (callWithin limit room) procedure.body
        (((machine.noteArguments name procedure values).note
          (.calling name (machine.env.callDepth + 1))).enter (procedure.frame values))
      ⟨outcome.machine.leave, outcome.fault?⟩ := by
  rw [callWithin, hfound]
  dsimp only
  rw [hvalues]

/-- A call leaves the environment as it was, however its body ends. -/
theorem env_callWithin (limit room : Nat) (name : String) (args : List Expr) (span : Span)
    (machine : Machine) : (callWithin limit room name args span machine).machine.env =
      machine.env := by
  induction room generalizing name args span machine with
  | zero =>
    unfold callWithin
    split <;> rfl
  | succ room ih =>
    unfold callWithin
    split
    · rfl
    · next procedure hprocedure =>
      dsimp only
      split
      · rfl
      · next values hvalues =>
        -- The body may change the frame of the call, and this is the one that is left.
        have hcall : ∀ name args span, KeepsOuter (callWithin limit room name args span) :=
          fun name args span machine => by rw [ih]
        refine Environment.pop_of_tail_frames ?_
        rw [Stmt.keepsOuter_execAll hcall]
        show (machine.noteArguments name procedure values).env.frames = machine.env.frames
        rw [env_noteArguments]

/-- Calls change no frame at all, so they keep the outer ones. -/
theorem keepsOuter_callWithin (limit room : Nat) (name : String) (args : List Expr) (span : Span) :
    KeepsOuter (callWithin limit room name args span) :=
  fun machine => by rw [env_callWithin]

/-- The variables that a program leaves are those that its statements leave. -/
theorem env_run (limit : Nat) (program : Program) (machine : Machine) :
    (machine.run limit program).2.env = (machine.execAll limit program.body).machine.env := by
  rw [run]
  split <;> rfl

/-- A program ends as many calls deep as it began, whether it fails or not. -/
theorem callDepth_run (limit : Nat) (program : Program) (machine : Machine) :
    (machine.run limit program).2.env.callDepth = machine.env.callDepth := by
  rw [env_run]
  exact Environment.callDepth_of_tail_frames
    (Stmt.keepsOuter_execAll (keepsOuter_callWithin limit _) program.body machine)

/-- The machine after programs were run on it one after the other, those that fail included. -/
def runAll (limit : Nat) (programs : List Program) (machine : Machine) : Machine :=
  programs.foldl (fun machine program => (machine.run limit program).2) machine

theorem callDepth_runAll (limit : Nat) (programs : List Program) (machine : Machine) :
    (machine.runAll limit programs).env.callDepth = machine.env.callDepth := by
  induction programs generalizing machine with
  | nil => rfl
  | cons program programs ih => exact (ih _).trans (callDepth_run limit program machine)

end Machine

open Machine in
/-- Frames are kept on success and on failure, on every machine and however many calls may still be
entered. A statement leaves as many frames as there were, and all but the innermost as they were; a
call leaves the whole environment as it was. Evaluating an expression leaves the whole machine as it
was. So no call is active after programs were run on a new machine, whichever of them fail. -/
theorem frames_kept (limit room : Nat) (machine : Machine) :
    (∀ stmt : Stmt,
      let after := (stmt.exec (callWithin limit room) machine).machine
      after.env.frames.length = machine.env.frames.length ∧
        after.env.frames.tail = machine.env.frames.tail) ∧
    (∀ name args span,
      ((Stmt.call name args span).exec (callWithin limit room) machine).machine.env =
        machine.env) ∧
    (∀ expr, (machine.evaluate expr fun _ => machine.done).machine = machine) ∧
    ∀ programs, (initial.runAll limit programs).env.callDepth = 0 := by
  refine ⟨fun stmt => ?_, fun name args span => ?_, fun expr => ?_, fun programs => ?_⟩
  · have htail := Stmt.keepsOuter_exec (keepsOuter_callWithin limit room) stmt machine
    have hdepth := Environment.callDepth_of_tail_frames htail
    refine ⟨?_, htail⟩
    simp only [Environment.callDepth] at hdepth
    simp only [Environment.frames, List.length_append, hdepth, List.length_singleton]
  · rw [Stmt.exec]
    exact env_callWithin limit room name args span machine
  · unfold evaluate
    split <;> rfl
  · exact callDepth_runAll limit programs initial

end LineScript
