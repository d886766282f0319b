import LineScript.Machine.Statement
import Mathlib

/-!
# Raising the limit on the depth of calls

The limit is looked at in one place, when a call is about to be entered, and there it either stops
the run or changes nothing. So a run that is not stopped for its depth is the same under every
higher limit, and one that is stopped for its depth is stopped for its depth under every lower one.

The relation that carries this is `Machine.Extends first second`: wherever `first` is not stopped
for its depth, `second` has the very same outcome.
-/

namespace LineScript

/-- A fault says that too many calls were active, whatever the limit was. -/
def Fault.IsOfDepth (fault : Fault) : Prop :=
  ∃ limit, fault.cause = .callDepthExceeded limit

/-- A step was stopped for the depth of its calls. -/
def Outcome.Exceeds (outcome : Outcome) : Prop :=
  ∃ fault, outcome.fault? = some fault ∧ fault.IsOfDepth

namespace Machine

/-- Wherever the first step is not stopped for its depth, the second does the same. -/
def Extends (first second : Machine → Outcome) : Prop :=
  ∀ machine, (first machine).Exceeds ∨ second machine = first machine

theorem extends_refl (step : Machine → Outcome) : Extends step step :=
  fun _ => .inr rfl

theorem Extends.andThen {first first' second second' : Machine → Outcome}
    (hfirst : Extends first first') (hsecond : Extends second second') :
    Extends (fun machine => (first machine).andThen second)
      (fun machine => (first' machine).andThen second') := by
  intro machine
  rcases hfirst machine with ⟨fault, hfault, hdepth⟩ | hsame
  · -- What comes after a fault does not matter.
    left
    refine ⟨fault, ?_, hdepth⟩
    simp only [Outcome.andThen, hfault]
  · dsimp only
    rw [hsame]
    generalize first machine = outcome
    obtain ⟨after, fault?⟩ := outcome
    cases fault? with
    | none => exact hsecond after
    | some fault => exact .inr rfl

theorem Extends.times {step step' : Machine → Outcome} (h : Extends step step') (count : Nat) :
    Extends (Machine.times count step) (Machine.times count step') := by
  induction count with
  | zero => exact extends_refl _
  | succ count ih => exact h.andThen ih

/-- An expression has its value whatever the limit is. -/
theorem extends_evaluate {machine : Machine} {expr : Expr} {next next' : Value → Outcome}
    (h : ∀ value, (next value).Exceeds ∨ next' value = next value) :
    (machine.evaluate expr next).Exceeds ∨
      machine.evaluate expr next' = machine.evaluate expr next := by
  unfold evaluate
  cases expr.eval machine.env with
  | error fault => exact .inr rfl
  | ok value => exact h value

end Machine

namespace Stmt

open Machine

variable {call call' : Caller}

mutual

/-- A statement is extended where calls are. -/
theorem extends_exec
    (hcall : ∀ name args span, Extends (call name args span) (call' name args span))
    (stmt : Stmt) : Extends (stmt.exec call) (stmt.exec call') := by
  intro machine
  match stmt with
  | print value span =>
    rw [exec, exec]
    exact .inr rfl
  | assign name value isList span =>
    rw [exec, exec]
    exact .inr rfl
  | function name params body span => exact .inr rfl
  | branch condition consequence alternative span =>
    rw [exec, exec]
    refine extends_evaluate fun value => ?_
    split
    · exact extends_execAll hcall consequence machine
    · exact extends_execAlternative hcall alternative machine
  | loop count body span =>
    rw [exec, exec]
    refine extends_evaluate fun value => ?_
    split
    · exact .inr rfl
    · exact (extends_execAll hcall body).times _ machine
  | Stmt.call name args span =>
    rw [exec, exec]
    exact hcall name args span machine

theorem extends_execAll
    (hcall : ∀ name args span, Extends (call name args span) (call' name args span))
    (stmts : List Stmt) : Extends (execAll call stmts) (execAll call' stmts) := by
  intro machine
  match stmts with
  | [] => exact .inr rfl
  | stmt :: stmts =>
    rw [execAll, execAll]
    exact (extends_exec hcall stmt).andThen (extends_execAll hcall stmts) machine

theorem extends_execAlternative
    (hcall : ∀ name args span, Extends (call name args span) (call' name args span))
    (alternative : Option (List Stmt)) :
    Extends (execAlternative call alternative) (execAlternative call' alternative) := by
  intro machine
  match alternative with
  | none => exact .inr rfl
  | some stmts =>
    rw [execAlternative, execAlternative]
    exact extends_execAll hcall stmts machine

end

end Stmt

namespace Machine

/-- A call is extended where at least as many more calls may be entered, whatever the two limits
are: they are named in faults of depth only. -/
theorem extends_callWithin (limit limit' : Nat) {room room' : Nat} (hroom : room ≤ room')
    (name : String) (args : List Expr) (span : Span) :
    Extends (callWithin limit room name args span) (callWithin limit' room' name args span) := by
  induction room generalizing room' name args span with
  | zero =>
    intro machine
    rw [callWithin, callWithin]
    cases machine.functions.get? name with
    | none => exact .inr rfl
    | some procedure =>
      -- No more call may be entered, so the first one is stopped here, whatever the second does.
      exact .inl ⟨_, rfl, limit, rfl⟩
  | succ room ih =>
    intro machine
    obtain ⟨room', rfl⟩ : ∃ inner, room' = inner + 1 := ⟨room' - 1, by omega⟩
    have hinner : room ≤ room' := by omega
    rw [callWithin, callWithin]
    -- Up to the body both calls do the same, since the arguments are evaluated without calls.
    cases machine.functions.get? name with
    | none => exact .inr rfl
    | some procedure =>
      dsimp only
      cases Expr.evalAll machine.env args with
      | error fault => exact .inr rfl
      | ok values =>
        -- Both enter the call with the same frame and run the same body in it.
        have hbody := Stmt.extends_execAll (fun name args span => ih hinner name args span)
          procedure.body (((machine.noteArguments name procedure values).note
            (.calling name (machine.env.callDepth + 1))).enter (procedure.frame values))
        rcases hbody with hexceeds | hsame
        · exact .inl hexceeds
        · right
          dsimp only
          rw [hsame]

/-- A run is extended by the one under a higher limit. -/
theorem extends_execAll {limit higher : Nat} (hle : limit ≤ higher) (stmts : List Stmt) :
    Extends (execAll limit stmts) (execAll higher stmts) := by
  intro machine
  have hroom : limit - machine.env.callDepth ≤ higher - machine.env.callDepth := by omega
  exact Stmt.extends_execAll (extends_callWithin limit higher hroom) stmts machine

/-- A program whose statements are stopped for their depth ends in that fault. -/
theorem run_of_exceeds {limit : Nat} {program : Program} {machine : Machine}
    (h : (machine.execAll limit program.body).Exceeds) :
    ∃ fault, (machine.run limit program).1 = .error fault ∧ fault.IsOfDepth := by
  obtain ⟨fault, hfault, hdepth⟩ := h
  refine ⟨fault, ?_, hdepth⟩
  rw [run, hfault]

end Machine

/-- Raising the limit on the depth of calls never changes a run that stayed within it. If a program
does not end in a fault of depth, it has under every higher limit the same lines or the same fault,
and leaves the same machine: variables, functions, pending lines and journal. And a program that
ends in a fault of depth does so under every lower limit. -/
theorem run_of_higher_limit {limit higher : Nat} (hle : limit ≤ higher) (program : Program)
    (machine : Machine) :
    ((∀ fault, (machine.run limit program).1 = .error fault → ¬ fault.IsOfDepth) →
      machine.run higher program = machine.run limit program) ∧
    ∀ fault, (machine.run higher program).1 = .error fault → fault.IsOfDepth →
      ∃ fault', (machine.run limit program).1 = .error fault' ∧ fault'.IsOfDepth := by
  rcases Machine.extends_execAll hle program.body machine with hexceeds | hsame
  · -- The lower limit stops the program, so nothing is said about the run under the higher one.
    obtain ⟨fault, hfault, hdepth⟩ := Machine.run_of_exceeds hexceeds
    exact ⟨fun hwithin => absurd hdepth (hwithin fault hfault),
      fun _ _ _ => ⟨fault, hfault, hdepth⟩⟩
  · -- The statements have the same outcome, and the result is read off it in the same way.
    have hrun : machine.run higher program = machine.run limit program := by
      rw [Machine.run, Machine.run, hsame]
    refine ⟨fun _ => hrun, fun fault hfault hdepth => ⟨fault, ?_, hdepth⟩⟩
    rw [← hrun, hfault]

/-- A function that calls itself once more, without an argument, if it has one. -/
def callsItselfOnce : Program :=
  ⟨[.function "f" ["again"]
      [.branch (.identifier "again" ⟨0, 0⟩) [.call "f" [] ⟨0, 0⟩] none ⟨0, 0⟩,
        .print (.identifier "again" ⟨0, 0⟩) ⟨0, 0⟩] ⟨0, 0⟩,
    .call "f" [.boolean true ⟨0, 0⟩] ⟨0, 0⟩]⟩

/-- Two calls are active at once, so a limit of two does as well as one of a thousand. A limit of
one stops the run, and so does a limit of none. -/
theorem run_of_higher_limit_two :
    Machine.initial.run 1000 callsItselfOnce = Machine.initial.run 2 callsItselfOnce ∧
    ∃ fault, (Machine.initial.run 0 callsItselfOnce).1 = .error fault ∧ fault.IsOfDepth := by
  have htwo : (Machine.initial.run 2 callsItselfOnce).1 = .ok ["undefined", "true"] := by
    cbv
  have hone : (Machine.initial.run 1 callsItselfOnce).1 =
      .error { cause := .callDepthExceeded 1, span := ⟨0, 0⟩ } := by
    cbv
  refine ⟨(run_of_higher_limit (by decide) callsItselfOnce .initial).1 fun fault hfault => ?_,
    (run_of_higher_limit (by decide) callsItselfOnce .initial).2 _ hone ⟨1, rfl⟩⟩
  rw [htwo] at hfault
  cases hfault

end LineScript
