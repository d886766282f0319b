import LineScript.Machine.Basic

/-!
# Running statements

Statements are run by recursion on their structure, with the way to run calls as a parameter. A call
runs the body of its function where one call fewer may still be entered, so the limit on the depth
of calls is what makes running end.
-/

namespace LineScript

/-- A way to run calls: by name, arguments and span. -/
abbrev Caller := String → List Expr → Span → Machine → Outcome

/-- The largest count of a loop. -/
def maxIterations : Nat :=
  UInt64.size - 1

/-- How often a loop runs: counts that are not positive, or no numbers, mean not at all; a fraction
counts as one more. -/
def iterations (count : Float) : Nat :=
  if 0 < count then min (ceiling count) maxIterations else 0

namespace Procedure

/-- Parameters with their arguments. Parameters without one are undefined, and arguments without a
parameter are dropped. -/
def bind : List String → List Value → List (String × Value)
  | [], _ => []
  | param :: params, [] => (param, .undefined) :: bind params []
  | param :: params, value :: values => (param, value) :: bind params values

/-- The variables with which the body of a function is run. -/
def frame (procedure : Procedure) (values : List Value) : Frame :=
  Table.ofEntries (bind procedure.params values)

end Procedure

/-- Notes that a variable declared for a list holds something else, if it does. -/
def Machine.noteDeclaration (machine : Machine) (name : String) (isList : Bool) (value : Value) :
    Machine :=
  match isList, value with
  | true, .list _ | false, _ => machine
  | true, value => machine.note (.notAList name value.typeName)

namespace Stmt

mutual

/-- Runs a statement. -/
def exec (call : Caller) : Stmt → Machine → Outcome
  | print value _, machine =>
    machine.evaluate value fun value => (machine.print value.display).done
  | assign name value isList _, machine =>
    machine.evaluate value fun value =>
      ((machine.noteDeclaration name isList value).define name value).done
  | function name params body _, machine => (machine.defineFunction name ⟨params, body⟩).done
  | branch condition consequence alternative _, machine =>
    machine.evaluate condition fun value =>
      if value.isTruthy then execAll call consequence machine
      else execAlternative call alternative machine
  | loop count body span, machine =>
    machine.evaluate count fun value =>
      if value.toNumber.isInf && 0 < value.toNumber then
        machine.fail { cause := .invalidRepeatCount value.toNumber, span }
      else
        machine.times (iterations value.toNumber) (fun machine => execAll call body machine)
  | Stmt.call name args span, machine => call name args span machine

/-- Runs statements one after the other. -/
def execAll (call : Caller) : List Stmt → Machine → Outcome
  | [], machine => machine.done
  | stmt :: stmts, machine =>
    (stmt.exec call machine).andThen fun machine => execAll call stmts machine

/-- Runs the block for a condition that does not hold, if there is one. -/
def execAlternative (call : Caller) : Option (List Stmt) → Machine → Outcome
  | none, machine => machine.done
  | some stmts, machine => execAll call stmts machine

end

end Stmt

namespace Machine

/-- Notes that a call has more arguments than parameters, if it has. -/
def noteArguments (machine : Machine) (name : String) (procedure : Procedure)
    (values : List Value) : Machine :=
  if procedure.params.length < values.length then
    machine.note (.extraArguments (values.length - procedure.params.length) name)
  else
    machine

/-- Runs a call where `room` more calls may be entered of the `limit` in all. The depth is checked
after the function is found and before the arguments are evaluated. The call is left however its
body ends. -/
def callWithin (limit room : Nat) : Caller := fun name args span machine =>
  match machine.functions.get? name with
  | none =>
    machine.fail
      { cause := .undefinedFunction name
        span
        help := some ("Define it before calling: `function " ++ name ++ "(...) \x7b ... \x7d`.") }
  | some procedure =>
    match room with
    | 0 => machine.fail { cause := .callDepthExceeded limit, span }
    | room + 1 =>
      match Expr.evalAll machine.env args with
      | .error fault => machine.fail fault
      | .ok values =>
        let noted := machine.noteArguments name procedure values
        let entered :=
          (noted.note (.calling name (machine.env.callDepth + 1))).enter (procedure.frame values)
        -- The body is the one found above, whatever the call does to the table of functions.
        let outcome := Stmt.execAll (callWithin limit room) procedure.body entered
        ⟨outcome.machine.leave, outcome.fault?⟩

/-- Runs statements where at most `limit` calls may be active at once. -/
def execAll (limit : Nat) (stmts : List Stmt) (machine : Machine) : Outcome :=
  Stmt.execAll (callWithin limit (limit - machine.env.callDepth)) stmts machine

/-- Hands out the lines that were printed. -/
def takePrinted (machine : Machine) : List String × Machine :=
  (machine.printed.toList, { machine with printed := #[] })

/-- Runs a program. The lines printed are handed out if it runs to its end; otherwise they stay with
the machine. -/
def run (limit : Nat) (program : Program) (machine : Machine) :
    Except Fault (List String) × Machine :=
  let outcome := machine.execAll limit program.body
  match outcome.fault? with
  | some fault => (.error fault, outcome.machine)
  | none => (.ok outcome.machine.takePrinted.1, outcome.machine.takePrinted.2)

end Machine

end LineScript
