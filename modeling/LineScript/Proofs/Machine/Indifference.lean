import LineScript.Proofs.Machine.Lines
import LineScript.Proofs.Machine.Positions

/-!
# Sequences of programs ignore spans and declarations of lists

What holds of one program holds of programs that are run on one machine after the other: a machine
that ran a program up to spans is the same, up to spans, as one that ran the program itself, and so
is every function it will call later.
-/

namespace LineScript

namespace Machine

variable {machine machine' : Machine} {programs programs' : List Program}

/-- Programs that are the same once stripped give, one after the other, results that are the same up
to spans, and leave machines that are the same once stripped. -/
theorem runAll_of_strip (limit : Nat)
    (hprograms : programs.map Program.strip = programs'.map Program.strip)
    (hsame : machine.strip = machine'.strip) :
    (results limit programs machine).map (·.mapError Fault.erase) =
        (results limit programs' machine').map (·.mapError Fault.erase) ∧
      (machine.runAll limit programs).strip = (machine'.runAll limit programs').strip := by
  induction programs generalizing programs' machine machine' with
  | nil =>
    obtain rfl : programs' = [] := by simpa using hprograms.symm
    exact ⟨rfl, hsame⟩
  | cons program programs ih =>
    cases programs' with
    | nil => cases hprograms
    | cons program' programs' =>
      rw [List.map_cons, List.map_cons, List.cons.injEq] at hprograms
      obtain ⟨hresult, hafter⟩ := run_of_strip limit hprograms.1 hsame
      -- The machines that the first programs leave are the ones that the others start with.
      obtain ⟨hresults, hlast⟩ := ih hprograms.2 hafter
      refine ⟨?_, hlast⟩
      rw [results, results, List.map_cons, List.map_cons, hresult, hresults]

end Machine

open Machine in
/-- Running never depends on spans, nor on which variables were declared to hold lists. Two
sequences of programs that differ in nothing else, run on machines that differ in nothing else,
print the same lines and fail for the same causes and with the same advice at each step. They leave
the same variables and pending lines, and functions that again differ in nothing else. -/
theorem runs_ignore_places (limit : Nat) {programs programs' : List Program}
    {machine machine' : Machine}
    (hprograms : programs.map Program.strip = programs'.map Program.strip)
    (hsame : machine.strip = machine'.strip) :
    let last := machine.runAll limit programs
    let last' := machine'.runAll limit programs'
    (results limit programs machine).map (·.mapError Fault.erase) =
        (results limit programs' machine').map (·.mapError Fault.erase) ∧
      last.env = last'.env ∧ last.printed = last'.printed ∧
      (last.functions.map fun entry => (entry.1, entry.2.strip)) =
        last'.functions.map fun entry => (entry.1, entry.2.strip) := by
  obtain ⟨hresults, hlast⟩ := runAll_of_strip limit hprograms hsame
  have hprinted : (machine.runAll limit programs).strip.printed =
      (machine'.runAll limit programs').strip.printed := congrArg printed hlast
  have hfunctions : (machine.runAll limit programs).strip.functions =
      (machine'.runAll limit programs').strip.functions := congrArg functions hlast
  exact ⟨hresults, env_of_strip hlast, hprinted, hfunctions⟩

/-- A function whose body declares a variable and prints it, with the span of the body's nodes and
the declaration left open. -/
def definesEcho (isList : Bool) (span : Span) : Program :=
  ⟨[.function "echo" ["text"]
    [.assign "copy" (.identifier "text" span) isList span,
      .print (.identifier "copy" span) span] span]⟩

/-- A call of that function, and then a variable without a value. -/
def callsEcho (span : Span) : Program :=
  ⟨[.call "echo" [.string "hi" span] span, .print (.identifier "copy" span) span]⟩

/-- The function is stored by one program and run by the next, which fails and keeps the line for
the third. Neither the places of its nodes nor its declaration of a list show in what is printed. -/
theorem runs_ignore_places_echo :
    (Machine.results 5 [definesEcho true ⟨3, 9⟩, callsEcho ⟨4, 5⟩, ⟨[]⟩] .initial).map
        (·.mapError Fault.erase) =
      [.ok [],
        .error ⟨.undefinedVariable "copy", ⟨0, 0⟩, some "Assign it before use: `copy = ...`."⟩,
        .ok ["hi"]] := by
  have hplain : (Machine.results 5 [definesEcho false ⟨0, 0⟩, callsEcho ⟨0, 0⟩, ⟨[]⟩] .initial).map
      (·.mapError Fault.erase) =
      [.ok [],
        .error ⟨.undefinedVariable "copy", ⟨0, 0⟩, some "Assign it before use: `copy = ...`."⟩,
        .ok ["hi"]] := by
    cbv
  rw [← hplain]
  exact (runs_ignore_places 5 rfl rfl).1

end LineScript
