import LineScript.Event
import LineScript.Machine.Expression

/-!
# Machines

A machine is the state of running programs: variables, functions, the lines that were printed and
not yet handed out, and the journal. A step of a machine always leaves a machine, also when it
fails, so nothing that happened before a fault is lost.
-/

namespace LineScript

/-- A function that was defined. -/
structure Procedure where
  /-- The names of its parameters. -/
  params : List String
  /-- The statements it runs. -/
  body : List Stmt
deriving Inhabited

/-- The state of running programs. -/
structure Machine where
  /-- The variables. -/
  env : Environment
  /-- The functions. -/
  functions : Table Procedure
  /-- The lines printed since lines were handed out last. -/
  printed : Array String
  /-- What was noted. -/
  journal : Array Event
deriving Inhabited

/-- What a step of a machine leaves: the machine, and the fault of a step that failed. -/
structure Outcome where
  /-- The machine after the step. -/
  machine : Machine
  /-- Why the step failed, if it did. -/
  fault? : Option Fault

namespace Outcome

/-- Goes on with a step, unless there was a fault. -/
@[inline]
def andThen (outcome : Outcome) (next : Machine → Outcome) : Outcome :=
  match outcome.fault? with
  | none => next outcome.machine
  | some _ => outcome

/-- After a step without a fault comes the next one. -/
@[simp]
theorem andThen_of_done (machine : Machine) (next : Machine → Outcome) :
    andThen ⟨machine, none⟩ next = next machine := rfl

/-- After a fault nothing comes. -/
@[simp]
theorem andThen_of_fault (machine : Machine) (fault : Fault) (next : Machine → Outcome) :
    andThen ⟨machine, some fault⟩ next = ⟨machine, some fault⟩ := rfl

/-- Steps can be grouped in any way. -/
theorem andThen_assoc (outcome : Outcome) (second third : Machine → Outcome) :
    (outcome.andThen second).andThen third =
      outcome.andThen fun machine => (second machine).andThen third := by
  obtain ⟨machine, fault?⟩ := outcome
  cases fault? <;> rfl

end Outcome

namespace Machine

/-- The machine before any program was run. -/
def initial : Machine :=
  { env := .empty, functions := [], printed := #[], journal := #[] }

/-- The step that changes nothing. -/
def done (machine : Machine) : Outcome :=
  ⟨machine, none⟩

/-- The step that fails. -/
def fail (machine : Machine) (fault : Fault) : Outcome :=
  ⟨machine, some fault⟩

/-- Notes an event. -/
def note (machine : Machine) (event : Event) : Machine :=
  { machine with journal := machine.journal.push event }

/-- Prints a line. -/
def print (machine : Machine) (line : String) : Machine :=
  { machine with printed := machine.printed.push line }

/-- Gives a variable a value. -/
def define (machine : Machine) (name : String) (value : Value) : Machine :=
  { machine with env := machine.env.define name value }

/-- Defines a function, in the place of the one its name may have. -/
def defineFunction (machine : Machine) (name : String) (procedure : Procedure) : Machine :=
  { machine with functions := machine.functions.insert name procedure }

/-- Enters a call. -/
def enter (machine : Machine) (frame : Frame) : Machine :=
  { machine with env := machine.env.push frame }

/-- Leaves the innermost call. -/
def leave (machine : Machine) : Machine :=
  { machine with env := machine.env.pop }

/-- Goes on with the value of an expression, unless it has none. -/
@[inline]
def evaluate (machine : Machine) (expr : Expr) (next : Value → Outcome) : Outcome :=
  match expr.eval machine.env with
  | .error fault => machine.fail fault
  | .ok value => next value

/-- Takes a step a number of times, unless it fails. -/
def times : Nat → (Machine → Outcome) → Machine → Outcome
  | 0, _, machine => machine.done
  | count + 1, step, machine => (step machine).andThen (times count step)

end Machine

end LineScript
