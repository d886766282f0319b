import LineScript.Value.Comparison
import Mathlib

/-!
# The order of numbers

Numbers are compared as IEEE-754 has it: what is not a number has no order with anything, and the
two zeros are equal. So of two numbers that have an order exactly one of "less", "equal" and
"greater" holds, and comparing them the other way round gives the reverse.
-/

namespace LineScript

open Float.Model (UnpackedFloat)

theorem compare_parts_swap (m m' : Nat) (e e' : Int) :
    (Ord.compare e' e).then (Ord.compare m' m) =
      ((Ord.compare e e').then (Ord.compare m m')).swap := by
  rw [Ordering.swap_then, ← Std.OrientedCmp.eq_swap, ← Std.OrientedCmp.eq_swap]

/-- Comparing two floats the other way round gives the reverse. -/
theorem compare_unpacked_swap (a b : UnpackedFloat) :
    b.compare a = (a.compare b).map Ordering.swap := by
  -- Only floats of the same sign are compared by their parts.
  rcases a with (_ | _) | _ | _ | ⟨_ | _, m, e, _⟩ <;>
    rcases b with (_ | _) | _ | _ | ⟨_ | _, m', e', _⟩
  case finite.negative.finite.negative =>
    exact congrArg (fun order => some order.swap) (compare_parts_swap m m' e e')
  case finite.positive.finite.positive => exact congrArg some (compare_parts_swap m m' e e')
  all_goals rfl

theorem lt_iff_compare (a b : Float) :
    a < b ↔ a.toModel.unpack.compare b.toModel.unpack = some .lt :=
  decide_eq_true_iff.trans beq_iff_eq

theorem beq_iff_compare (a b : Float) :
    (a == b) = true ↔ a.toModel.unpack.compare b.toModel.unpack = some .eq :=
  show (a.toModel.unpack.compare b.toModel.unpack == some .eq) = true ↔ _ from beq_iff_eq

/-- The order of two numbers is the one that IEEE-754 gives them. -/
theorem compareNumbers_eq (a b : Float) :
    Value.compareNumbers a b = a.toModel.unpack.compare b.toModel.unpack := by
  have hswap := compare_unpacked_swap a.toModel.unpack b.toModel.unpack
  simp only [Value.compareNumbers, lt_iff_compare, beq_iff_compare, hswap]
  cases a.toModel.unpack.compare b.toModel.unpack with
  | none => rfl
  | some order => cases order <;> rfl

namespace Value

/-- Comparing two numbers the other way round gives the reverse. -/
theorem compareNumbers_swap (a b : Float) :
    compareNumbers b a = (compareNumbers a b).map Ordering.swap := by
  rw [compareNumbers_eq, compareNumbers_eq, compare_unpacked_swap]

/-- Equal numbers are equal in their order. -/
theorem compareNumbers_of_beq {a b : Float} (h : (a == b) = true) :
    compareNumbers a b = some .eq := by
  rw [compareNumbers_eq, (beq_iff_compare a b).mp h]

/-- What is not a number has no order with anything. -/
theorem compareNumbers_nan_left {a : Float} (h : a.isNaN = true) (b : Float) :
    compareNumbers a b = none := by
  have hunpack : a.toModel.unpack = .notANumber := Float.Model.UnpackedFloat.isNaN_iff.mp h
  rw [compareNumbers_eq, hunpack]
  rfl

theorem compareNumbers_nan_right {b : Float} (h : b.isNaN = true) (a : Float) :
    compareNumbers a b = none := by
  rw [compareNumbers_swap, compareNumbers_nan_left h, Option.map_none]

end Value

end LineScript
