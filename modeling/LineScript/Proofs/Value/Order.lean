import LineScript.Machine.Expression
import LineScript.Proofs.Decimal.RoundTrip
import LineScript.Proofs.Value.Equality

/-!
# Equality and order of values

The operator `==` turns a list into its text, and that into a number; the operators `<` and `>` take
the number of its only item. The two numbers differ where a text spells no number, as those of truth
values and of infinities do not, but then one of them is none and has no order. So values that are
equal are never in order.
-/

namespace LineScript

/-- Two numbers that are equal, or of which one is none: neither is less than the other. -/
def Unordered (a b : Float) : Prop :=
  a.isNaN = true ∨ b.isNaN = true ∨ (a == b) = true

namespace Unordered

variable {a b c : Float}

theorem refl (a : Float) : Unordered a a := by
  rw [Unordered, Float.beq_self_iff, Float.isNaN_eq_decide_eq_nan, decide_eq_true_eq]
  tauto

theorem symm (h : Unordered a b) : Unordered b a := by
  obtain hleft | hright | hequal := h
  · exact .inr (.inl hleft)
  · exact .inl hright
  · exact .inr (.inr (BEq.symm hequal))

/-- What is equal to a number is equal to something. -/
theorem trans_beq (h : Unordered a b) (hequal : (b == c) = true) : Unordered a c := by
  obtain hleft | hright | hsame := h
  · exact .inl hleft
  · rw [Float.isNaN_eq_decide_eq_nan, decide_eq_true_eq] at hright
    rw [hright, Float.nan_beq_eq_false] at hequal
    cases hequal
  · exact .inr (.inr (BEq.trans hsame hequal))

/-- The order of such numbers is that of equal ones, if they have one. -/
theorem compareNumbers (h : Unordered a b) :
    Value.compareNumbers a b ≠ some .lt ∧ Value.compareNumbers a b ≠ some .gt := by
  obtain hleft | hright | hequal := h
  · rw [Value.compareNumbers_nan_left hleft]
    decide
  · rw [Value.compareNumbers_nan_right hright]
    decide
  · rw [Value.compareNumbers_of_beq hequal]
    decide

end Unordered

namespace Value

/-! ### The numbers of texts -/

theorem isNaN_notANumber : notANumber.isNaN = true := by
  decide +kernel

/-- The number that a value counts as and that of its text are in no order. -/
theorem unordered_display (value : Value) :
    Unordered value.toNumber (numberOfText value.display) := by
  match value with
  | number n =>
    rw [toNumber, display]
    cases hfinite : n.isFinite with
    | true => exact .symm (.inr (.inr (numberOfText_write hfinite)))
    | false => exact .inr (.inl (isNaN_numberOfText_write hfinite))
  | string text => exact .refl _
  | boolean truth =>
    have hwords : ∀ truth : Bool, (numberOfText (toString truth)).isNaN = true := by decide +kernel
    exact .inr (.inl (hwords truth))
  | list [] => exact .refl 0
  | list [undefined] | list (_ :: _ :: _) | undefined => exact .inl isNaN_notANumber
  -- A list with one item that is not undefined has the number of the item and its text.
  | list [number n] => exact unordered_display (number n)
  | list [string text] => exact unordered_display (string text)
  | list [boolean truth] => exact unordered_display (boolean truth)
  | list [list items] => exact unordered_display (list items)

/-- Values that are compared as they are have numbers in no order if they are equal. -/
theorem unordered_of_scalarEq {a b : Value} (h : scalarEq a b = true) :
    Unordered a.toNumber b.toNumber := by
  cases a with
  | string text =>
    cases b with
    | string other => exact beq_iff_eq.mp h ▸ .refl _
    | number | boolean | list | undefined => exact .inr (.inr h)
  | boolean truth =>
    cases b with
    | boolean other => exact beq_iff_eq.mp h ▸ .refl _
    | number | string | list | undefined => exact .inr (.inr h)
  | number | list | undefined => exact .inr (.inr h)

/-- A list that is compared through its text has a number in no order with an equal one. -/
theorem unordered_of_text (items : List Value) (b : Value)
    (h : scalarEq (string (list items).display) b = true) :
    Unordered (list items).toNumber b.toNumber := by
  have hdisplay := unordered_display (list items)
  cases b with
  | string text =>
    obtain rfl := beq_iff_eq.mp h
    exact hdisplay
  | number | boolean | list | undefined => exact hdisplay.trans_beq h

/-- Values that are equal have numbers in no order. -/
theorem unordered_of_looseEq {a b : Value} (h : a.looseEq b = true) :
    Unordered a.toNumber b.toNumber := by
  match a, b, h with
  | undefined, _, _ => exact .inl isNaN_notANumber
  | _, undefined, _ => exact .inr (.inl isNaN_notANumber)
  | list [], list [], _ => exact .refl 0
  | list [a], list [b], h =>
    -- The numbers of two lists with one item each are those of the items, which are equal.
    rw [looseEq, areLooseEq, areLooseEq, Bool.and_true] at h
    have hitems : Unordered a.toNumber b.toNumber := unordered_of_looseEq h
    exact hitems
  | list (_ :: _ :: _), list _, _ => exact .inl isNaN_notANumber
  | list [], list (_ :: _ :: _), _ | list [_], list (_ :: _ :: _), _ =>
    exact .inr (.inl isNaN_notANumber)
  | list [], list [_], h | list [_], list [], h => cases h
  | list items, number n, h => exact unordered_of_text items (number n) h
  | list items, string text, h => exact unordered_of_text items (string text) h
  | list items, boolean truth, h => exact unordered_of_text items (boolean truth) h
  | number n, list items, h =>
    exact (unordered_of_text items (number n) ((looseEq_comm _ _).trans h)).symm
  | string text, list items, h =>
    exact (unordered_of_text items (string text) ((looseEq_comm _ _).trans h)).symm
  | boolean truth, list items, h =>
    exact (unordered_of_text items (boolean truth) ((looseEq_comm _ _).trans h)).symm
  | number _, number _, h | number _, string _, h | number _, boolean _, h
  | string _, number _, h | string _, string _, h | string _, boolean _, h
  | boolean _, number _, h | boolean _, string _, h | boolean _, boolean _, h =>
    exact unordered_of_scalarEq h

/-! ### The order of values -/

/-- Values of which one is no string are ordered as their numbers. -/
theorem compare_eq_or (a b : Value) :
    (∃ text other, a = string text ∧ b = string other) ∨
      (a.compare b = compareNumbers a.toNumber b.toNumber ∧
        b.compare a = compareNumbers b.toNumber a.toNumber) := by
  cases a with
  | string text =>
    cases b with
    | string other => exact .inl ⟨text, other, rfl, rfl⟩
    | number | boolean | list | undefined => exact .inr ⟨rfl, rfl⟩
  | number | boolean | list | undefined =>
    cases b
    all_goals exact .inr ⟨rfl, rfl⟩

/-- Comparing the other way round gives the reverse. -/
theorem compare_swap (a b : Value) : b.compare a = (a.compare b).map Ordering.swap := by
  rcases compare_eq_or a b with ⟨text, other, rfl, rfl⟩ | ⟨hab, hba⟩
  · rw [compare, compare, Option.map_some]
    exact congrArg some
      (compareOfLessAndEq_eq_swap String.le_antisymm String.le_total String.not_le)
  · rw [hab, hba, compareNumbers_swap]

/-- Values that are equal are in no order. -/
theorem compare_of_looseEq {a b : Value} (h : a.looseEq b = true) :
    a.compare b ≠ some .lt ∧ a.compare b ≠ some .gt := by
  rcases compare_eq_or a b with ⟨text, other, rfl, rfl⟩ | ⟨hab, -⟩
  · obtain rfl : text = other := beq_iff_eq.mp h
    rw [compare, compareOfLessAndEq, if_neg (String.lt_irrefl text), if_pos rfl]
    decide
  · rw [hab]
    exact (unordered_of_looseEq h).compareNumbers

/-- Equality and order never contradict each other. Values that `==` calls equal are neither less
nor greater than each other, for `compare` and for the operators `<` and `>`, and comparing any two
values the other way round gives the reverse. -/
theorem looseEq_excludes_order (a b : Value) :
    (a.looseEq b = true → a.compare b ≠ some .lt ∧ a.compare b ≠ some .gt) ∧
      b.compare a = (a.compare b).map Ordering.swap ∧
      ∀ span, applyBinary .equal a b span = .ok (boolean true) →
        applyBinary .less a b span = .ok (boolean false) ∧
          applyBinary .greater a b span = .ok (boolean false) := by
  refine ⟨compare_of_looseEq, compare_swap a b, fun span h => ?_⟩
  have hequal : a.looseEq b = true := boolean.inj (Except.ok.inj h)
  obtain ⟨hless, hgreater⟩ := compare_of_looseEq hequal
  exact ⟨congrArg (Except.ok ∘ boolean) (beq_eq_false_iff_ne.mpr hless),
    congrArg (Except.ok ∘ boolean) (beq_eq_false_iff_ne.mpr hgreater)⟩

/-- A list that counts as one, and its text, which counts as no number. -/
theorem looseEq_excludes_order_truth :
    (list [boolean true]).looseEq (string "true") = true ∧
      (list [boolean true]).compare (string "true") ≠ some .lt ∧
      (list [boolean true]).compare (string "true") ≠ some .gt ∧
      applyBinary .less (list [boolean true]) (string "true") ⟨0, 1⟩ = .ok (boolean false) := by
  have hequal : (list [boolean true]).looseEq (string "true") = true := by decide +kernel
  obtain ⟨hcompare, -, hoperators⟩ := looseEq_excludes_order (list [boolean true]) (string "true")
  obtain ⟨hless, hgreater⟩ := hcompare hequal
  have happly : applyBinary .equal (list [boolean true]) (string "true") ⟨0, 1⟩ =
      .ok (boolean true) := congrArg (Except.ok ∘ boolean) hequal
  exact ⟨hequal, hless, hgreater, (hoperators ⟨0, 1⟩ happly).1⟩

end Value

end LineScript
