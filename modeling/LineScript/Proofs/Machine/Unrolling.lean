import LineScript.Proofs.Machine.Lines
import LineScript.Proofs.Number.Value

/-!
# Loops are unrolled

A loop does what copies of its body do that stand one after the other. How many copies there are is
settled before the first of them is run, by the value that the count has then; what the body does to
the variables of the count is of no account.
-/

namespace LineScript

/-- Running statements a number of times is running as many copies of them. -/
theorem Machine.times_execAll (call : Caller) (body : List Stmt) (k : Nat) (machine : Machine) :
    machine.times k (Stmt.execAll call body) =
      Stmt.execAll call (List.replicate k body).flatten machine := by
  induction k generalizing machine with
  | zero => simp [times, Stmt.execAll]
  | succ k ih =>
    rw [times, List.replicate_succ, List.flatten_cons, execAll_append_stmts]
    -- The first copy is the same, and the others are run on whatever machine it leaves.
    congr 1
    funext after
    exact ih after

/-- How many copies of its body a loop stands for, by the number that its count counts as: none if
that is no number or not above zero, and otherwise the number rounded up, but not more than fit into
64 bits. -/
def copies (count : Float) : Nat :=
  if count.isNaN = true ∨ count ≤ 0 then 0 else min ⌈exactValue count⌉₊ (2 ^ 64 - 1)

/-- A loop leaves the same machine and fails in the same way as copies of its body, one after the
other. Their number is that of the count as it was before the loop, also if the body gives its
variables other values. A count that is infinite is a fault, and nothing is run. -/
theorem loop_eq_unrolled (call : Caller) (count : Expr) (body : List Stmt) (span : Span)
    (machine : Machine) {value : Value} (h : count.eval machine.env = .ok value) :
    (value.toNumber.isInf = true ∧ 0 < value.toNumber →
      (Stmt.loop count body span).exec call machine =
        ⟨machine, some { cause := .invalidRepeatCount value.toNumber, span }⟩) ∧
    (¬(value.toNumber.isInf = true ∧ 0 < value.toNumber) →
      (Stmt.loop count body span).exec call machine =
        Stmt.execAll call (List.replicate (copies value.toNumber) body).flatten machine) := by
  rw [Stmt.exec, Machine.evaluate, h]
  simp only [Bool.and_eq_true, decide_eq_true_eq]
  constructor
  · intro hinf
    rw [if_pos hinf]
    rfl
  · -- The number of rounds is a function of the value alone, so no copy can change it.
    intro hnot
    rw [if_neg hnot, iterations_eq hnot, ← copies]
    exact Machine.times_execAll call body _ machine

/-- Prints a variable and gives it another value. -/
def printsAndResets : List Stmt :=
  [.print (.identifier "n" ⟨17, 18⟩) ⟨11, 18⟩, .assign "n" (.number 9 ⟨24, 25⟩) false ⟨20, 25⟩]

theorem copies_one_and_a_half : copies 1.5 = 2 := by
  have hunpack : (1.5 : Float).toModel.unpack =
      .finite .positive 6755399441055744 (-52) (by decide) := by rfl
  have hvalue : exactValue 1.5 = 3 / 2 := by
    rw [exactValue, hunpack]
    norm_num
  have hceil : ⌈(3 / 2 : ℚ)⌉₊ = 2 := by norm_num [Nat.ceil_eq_iff]
  rw [copies, if_neg (by decide +kernel), hvalue, hceil]
  rfl

/-- The count is the text of a fraction, in a list, and the body gives it another value. It is run
twice nevertheless. -/
theorem loop_eq_unrolled_reset :
    let call := Machine.callWithin 100 100
    let machine := Machine.initial.define "n" (.list [.string "1.5"])
    let loop := Stmt.loop (.identifier "n" ⟨7, 8⟩) printsAndResets ⟨0, 27⟩
    loop.exec call machine = Stmt.execAll call (printsAndResets ++ printsAndResets) machine ∧
      (loop.exec call machine).machine.printed = #["1.5", "9"] := by
  intro call machine loop
  have hnumber : (Value.list [.string "1.5"]).toNumber = 1.5 := by decide +kernel
  have hvalue : (Expr.identifier "n" ⟨7, 8⟩).eval machine.env = .ok (.list [.string "1.5"]) := rfl
  have hunrolled :=
    (loop_eq_unrolled call (.identifier "n" ⟨7, 8⟩) printsAndResets ⟨0, 27⟩ machine hvalue).2
  rw [hnumber, copies_one_and_a_half] at hunrolled
  have hcopies : loop.exec call machine =
    Stmt.execAll call (printsAndResets ++ printsAndResets) machine := hunrolled (by decide +kernel)
  refine ⟨hcopies, ?_⟩
  rw [hcopies]
  decide +kernel

end LineScript
