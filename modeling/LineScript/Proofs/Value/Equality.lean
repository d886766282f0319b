import LineScript.Value.Comparison
import Mathlib

/-!
# Equality of values

The operator `==` compares values of different types through their texts and numbers. It is
symmetric nevertheless, since both sides are turned into the same text or number whichever of them
comes first, and it calls equal what is the same. The only values that it does not call equal to
themselves are those in which something is not a number, at whatever depth.
-/

namespace LineScript.Value

/-- A value is another one, or is an item of a list in it at whatever depth. -/
inductive Holds (root : Value) : Value → Prop
  | self : Holds root root
  | item {items : List Value} {value : Value} :
      Holds root (list items) → value ∈ items → Holds root value

/-- A value in which everything that should be a number is one, at whatever depth. -/
def LacksNaN (value : Value) : Prop :=
  ∀ n, value.Holds (number n) → n.isNaN = false

/-! ### What a value holds -/

/-- A value that is no list holds nothing but itself. -/
theorem Holds.eq_of_not_list {root value : Value} (h : root.Holds value)
    (hroot : ∀ items, root ≠ list items) : value = root := by
  induction h with
  | self => rfl
  | item _ _ ih => exact absurd ih.symm (hroot _)

/-- What an item holds, its list holds. -/
theorem Holds.of_item {items : List Value} {item value : Value} (hmem : item ∈ items)
    (h : item.Holds value) : (list items).Holds value := by
  induction h with
  | self => exact .item .self hmem
  | item _ hvalue ih => exact .item ih hvalue

/-- What a list holds besides itself, one of its items holds. -/
theorem Holds.eq_or_exists {items : List Value} {value : Value} (h : (list items).Holds value) :
    value = list items ∨ ∃ item ∈ items, item.Holds value := by
  induction h with
  | self => exact .inl rfl
  | @item inner value _ hvalue ih =>
    rcases ih with hinner | ⟨item, hmem, hinner⟩
    · rw [list.inj hinner] at hvalue
      exact .inr ⟨value, hvalue, .self⟩
    · exact .inr ⟨item, hmem, .item hinner hvalue⟩

theorem lacksNaN_number {n : Float} : (number n).LacksNaN ↔ n.isNaN = false := by
  constructor
  · intro h
    exact h n .self
  · intro hn m hm
    obtain rfl : m = n := number.inj (hm.eq_of_not_list nofun)
    exact hn

/-- A value without numbers lacks what is not a number. -/
theorem lacksNaN_of_ne {value : Value} (hlist : ∀ items, value ≠ list items)
    (hnumber : ∀ n, value ≠ number n) : value.LacksNaN :=
  fun n hn => absurd (hn.eq_of_not_list hlist).symm (hnumber n)

theorem lacksNaN_list {items : List Value} :
    (list items).LacksNaN ↔ ∀ item ∈ items, item.LacksNaN := by
  constructor
  · intro h item hmem n hn
    exact h n (.of_item hmem hn)
  · intro h n hn
    rcases hn.eq_or_exists with hlist | ⟨item, hmem, hitem⟩
    · cases hlist
    · exact h item hmem n hitem

/-! ### Symmetry -/

/-- What a value is compared as with a value of another type: a list as its text. -/
def flat : Value → Value
  | list items => string (list items).display
  | value => value

/-- Unless both are lists or one is undefined, values are compared as what they are flat. -/
theorem looseEq_eq_scalarEq {a b : Value} (hundefined : a ≠ undefined ∧ b ≠ undefined)
    (hlists : ∀ as bs, (a, b) ≠ (list as, list bs)) : a.looseEq b = scalarEq a.flat b.flat := by
  cases a with
  | undefined => exact absurd rfl hundefined.1
  | list as =>
    cases b with
    | undefined => exact absurd rfl hundefined.2
    | list bs => exact absurd rfl (hlists as bs)
    | number | string | boolean => rfl
  | number | string | boolean =>
    cases b with
    | undefined => exact absurd rfl hundefined.2
    | number | string | boolean | list => rfl

theorem scalarEq_comm (a b : Value) : scalarEq a b = scalarEq b a := by
  cases a <;> cases b <;> exact BEq.comm

mutual

theorem looseEq_comm (a b : Value) : a.looseEq b = b.looseEq a := by
  match a, b with
  | undefined, b => cases b <;> rfl
  | list as, list bs =>
    rw [looseEq, looseEq]
    exact areLooseEq_comm as bs
  | list _, undefined => rfl
  | list _, number _ | list _, string _ | list _, boolean _ =>
    rw [looseEq_eq_scalarEq, looseEq_eq_scalarEq, scalarEq_comm]
    all_goals simp
  | number _, b | string _, b | boolean _, b =>
    cases b with
    | undefined => rfl
    | number | string | boolean | list =>
      rw [looseEq_eq_scalarEq, looseEq_eq_scalarEq, scalarEq_comm]
      all_goals simp

theorem areLooseEq_comm (as bs : List Value) : areLooseEq as bs = areLooseEq bs as := by
  match as, bs with
  | [], [] | [], _ :: _ | _ :: _, [] => rfl
  | a :: as, b :: bs => rw [areLooseEq, areLooseEq, looseEq_comm a b, areLooseEq_comm as bs]

end

/-! ### The same value -/

mutual

/-- Values that are the same are equal. -/
theorem looseEq_of_isSame {a b : Value} (h : a.isSame b = true) : a.looseEq b = true := by
  match a, b with
  | number _, number _ | string _, string _ | boolean _, boolean _ => exact h
  | undefined, undefined => rfl
  | list as, list bs =>
    rw [looseEq]
    exact areLooseEq_of_areSame h

theorem areLooseEq_of_areSame {as bs : List Value} (h : areSame as bs = true) :
    areLooseEq as bs = true := by
  match as, bs with
  | [], [] => rfl
  | a :: as, b :: bs =>
    rw [areSame, Bool.and_eq_true] at h
    rw [areLooseEq, looseEq_of_isSame h.1, areLooseEq_of_areSame h.2]
    rfl

end

mutual

/-- A value is equal to itself unless it holds something that is not a number. -/
theorem looseEq_self_iff (value : Value) : value.looseEq value = true ↔ value.LacksNaN := by
  match value with
  | number n =>
    rw [lacksNaN_number]
    show (n == n) = true ↔ n.isNaN = false
    rw [Float.beq_self_iff, Float.isNaN_eq_decide_eq_nan, decide_eq_false_iff_not]
  | string text =>
    have hself : (string text).looseEq (string text) = true := beq_self_eq_true text
    exact iff_of_true hself (lacksNaN_of_ne nofun nofun)
  | boolean truth =>
    have hself : (boolean truth).looseEq (boolean truth) = true := beq_self_eq_true truth
    exact iff_of_true hself (lacksNaN_of_ne nofun nofun)
  | undefined => exact iff_of_true rfl (lacksNaN_of_ne nofun nofun)
  | list items =>
    rw [lacksNaN_list, looseEq]
    exact areLooseEq_self_iff items

theorem areLooseEq_self_iff (items : List Value) :
    areLooseEq items items = true ↔ ∀ item ∈ items, item.LacksNaN := by
  match items with
  | [] => exact iff_of_true rfl nofun
  | item :: items =>
    rw [areLooseEq, Bool.and_eq_true, looseEq_self_iff item, areLooseEq_self_iff items,
      List.forall_mem_cons]

end

/-- The operator `==` is symmetric, and calls equal all values that are the same. A value is equal
to itself exactly if nothing in it, at whatever depth, is not a number. -/
theorem looseEq_extends_isSame (a b : Value) :
    a.looseEq b = b.looseEq a ∧ (a.isSame b = true → a.looseEq b = true) ∧
      (a.looseEq a = true ↔ a.LacksNaN) :=
  ⟨looseEq_comm a b, looseEq_of_isSame, looseEq_self_iff a⟩

/-- Nested lists that differ in the sign of a zero are the same and so equal, and a list is not
equal to itself if an item of an item is not a number. -/
theorem looseEq_extends_isSame_nested :
    (list [string "x", list [number 0]]).looseEq (list [string "x", list [number (-0)]]) = true ∧
    (list [undefined, list [number notANumber]]).looseEq
      (list [undefined, list [number notANumber]]) = false := by
  obtain ⟨-, hsame, -⟩ := looseEq_extends_isSame (list [string "x", list [number 0]])
    (list [string "x", list [number (-0)]])
  obtain ⟨-, -, hself⟩ :=
    looseEq_extends_isSame (list [undefined, list [number notANumber]]) undefined
  refine ⟨hsame (by decide +kernel), Bool.eq_false_iff.mpr fun hequal => ?_⟩
  have hnumber : (list [undefined, list [number notANumber]]).Holds (number notANumber) :=
    .item (.item .self (.tail _ (.head _))) (.head _)
  have hnan : notANumber.isNaN = true := by decide +kernel
  exact Bool.false_ne_true ((hself.mp hequal _ hnumber).symm.trans hnan)

end LineScript.Value
