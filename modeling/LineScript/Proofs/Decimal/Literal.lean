import LineScript.Proofs.Decimal.Exact

/-!
# Decimals in positional notation

A literal spells the decimal of its digits with the trailing zeros moved into the exponent. So what
positional notation writes of a decimal is read back as that decimal, unless its coefficient ends
with a zero itself.
-/

namespace LineScript.Decimal

/-! ### Digits -/

theorem natOfDigits_eq (digits : List Char) : natOfDigits digits = Nat.ofDigitChars 10 digits 0 :=
  Nat.ofDigitChars_eq_foldl.symm

theorem natOfDigits_append (left right : List Char) :
    natOfDigits (left ++ right) = 10 ^ right.length * natOfDigits left + natOfDigits right := by
  rw [natOfDigits_eq, natOfDigits_eq, natOfDigits_eq, Nat.ofDigitChars_append,
    Nat.ofDigitChars_eq_ofDigitChars_zero]

theorem natOfDigits_zeros (zeros : Nat) : natOfDigits (List.replicate zeros '0') = 0 := by
  rw [natOfDigits_eq, Nat.ofDigitChars_replicate_zero, Nat.mul_zero]

theorem natOfDigits_toDigits (n : Nat) : natOfDigits (Nat.toDigits 10 n) = n := by
  rw [natOfDigits_eq, Nat.ofDigitChars_ten_toDigits]

/-- The value of a digit other than zero. -/
theorem digitValue_pos {c : Char} (h : c.isDigit = true) (hc : c ≠ '0') :
    0 < digitValue c ∧ digitValue c < 10 := by
  have hzero : ('0' : Char).toNat = 48 := rfl
  have hnine : ('9' : Char).toNat = 57 := rfl
  have hne : c.toNat ≠ 48 := fun hsame => hc (Char.ext (UInt32.toNat_inj.mp hsame))
  obtain ⟨hlower, hupper⟩ := Char.isDigit_iff_toNat.mp h
  rw [digitValue, hzero]
  omega

theorem isDigit_of_mem_toDigits {n : Nat} {c : Char} (h : c ∈ Nat.toDigits 10 n) :
    c.isDigit = true :=
  Nat.isDigit_of_mem_toDigits (by decide) (by decide) h

/-- The last digit of a natural number. -/
theorem exists_toDigits_eq_concat (n : Nat) :
    ∃ before, Nat.toDigits 10 n = before ++ [(n % 10).digitChar] := by
  rw [Nat.toDigits_eq_if (by decide)]
  split
  next hlt => exact ⟨[], by rw [Nat.mod_eq_of_lt hlt, List.nil_append]⟩
  next => exact ⟨_, rfl⟩

/-! ### Trailing zeros -/

theorem withoutTrailingZeros_concat {c : Char} (hc : c ≠ '0') (digits : List Char) :
    withoutTrailingZeros (digits ++ [c]) = digits ++ [c] := by
  simp [withoutTrailingZeros, hc]

theorem withoutTrailingZeros_append_zeros (digits : List Char) (zeros : Nat) :
    withoutTrailingZeros (digits ++ List.replicate zeros '0') = withoutTrailingZeros digits := by
  induction zeros with
  | zero => simp
  | succ zeros ih =>
    rw [List.replicate_succ', ← List.append_assoc, ← ih]
    simp [withoutTrailingZeros]

/-- The zeros that are left out. -/
theorem exists_zeros (digits : List Char) :
    ∃ zeros, digits = withoutTrailingZeros digits ++ List.replicate zeros '0' := by
  induction digits using List.reverseRecOn with
  | nil => exact ⟨0, rfl⟩
  | append_singleton digits c ih =>
    by_cases hc : c = '0'
    · obtain ⟨zeros, hzeros⟩ := ih
      have hsame := withoutTrailingZeros_append_zeros digits 1
      rw [List.replicate_one] at hsame
      refine ⟨zeros + 1, ?_⟩
      rw [hc, hsame, List.replicate_succ', ← List.append_assoc, ← hzeros]
    · exact ⟨0, by rw [withoutTrailingZeros_concat hc, List.replicate_zero, List.append_nil]⟩

/-- What is left does not end with a zero. -/
theorem withoutTrailingZeros_eq_nil_or (digits : List Char) :
    withoutTrailingZeros digits = [] ∨
      ∃ before c, withoutTrailingZeros digits = before ++ [c] ∧ c ≠ '0' := by
  induction digits using List.reverseRecOn with
  | nil => exact .inl rfl
  | append_singleton digits c ih =>
    by_cases hc : c = '0'
    · have hsame := withoutTrailingZeros_append_zeros digits 1
      rw [List.replicate_one] at hsame
      rwa [hc, hsame]
    · exact .inr ⟨digits, c, withoutTrailingZeros_concat hc digits, hc⟩

theorem withoutTrailingZeros_toDigits {n : Nat} (h : n % 10 ≠ 0) (before : List Char) :
    withoutTrailingZeros (before ++ Nat.toDigits 10 n) = before ++ Nat.toDigits 10 n := by
  have hlast : ∀ k < 10, k ≠ 0 → Nat.digitChar k ≠ '0' := by decide
  obtain ⟨digits, hdigits⟩ := exists_toDigits_eq_concat n
  rw [hdigits, ← List.append_assoc]
  exact withoutTrailingZeros_concat (hlast _ (Nat.mod_lt n (by decide)) h) _

/-- Moving zeros into the exponent keeps the number. -/
theorem value_ofDigits (digits : List Char) (exponent : Int) :
    (ofDigits digits exponent).value = natOfDigits digits * 10 ^ exponent := by
  obtain ⟨zeros, hzeros⟩ := exists_zeros digits
  generalize hkept : withoutTrailingZeros digits = kept at hzeros
  have hlength : digits.length - kept.length = zeros := by rw [hzeros]; simp
  have hnumber : natOfDigits digits = 10 ^ zeros * natOfDigits kept := by
    rw [hzeros, natOfDigits_append, natOfDigits_zeros, List.length_replicate, Nat.add_zero]
  rw [value, ofDigits, hkept, hlength, hnumber, zpow_add₀ (by norm_num), zpow_natCast]
  push_cast
  ring

theorem value_ofScaled (coefficient : Nat) (exponent : Int) :
    (ofScaled coefficient exponent).value = coefficient * 10 ^ exponent := by
  rw [ofScaled, value_ofDigits, natOfDigits_toDigits]

/-- The coefficient of what is scaled does not end with a zero, unless it is zero. -/
theorem coefficient_ofScaled (coefficient : Nat) (exponent : Int) :
    (ofScaled coefficient exponent).coefficient = 0 ∨
      (ofScaled coefficient exponent).coefficient % 10 ≠ 0 := by
  obtain ⟨zeros, hzeros⟩ := exists_zeros (Nat.toDigits 10 coefficient)
  rcases withoutTrailingZeros_eq_nil_or (Nat.toDigits 10 coefficient) with
    hnil | ⟨before, c, hkept, hc⟩
  · exact .inl (congrArg natOfDigits hnil)
  · refine .inr ?_
    have hdigit : c.isDigit = true := isDigit_of_mem_toDigits (by rw [hzeros, hkept]; simp)
    have hvalue := digitValue_pos hdigit hc
    have hcoefficient : (ofScaled coefficient exponent).coefficient =
        10 * natOfDigits before + digitValue c := by
      rw [ofScaled, ofDigits, hkept]
      simp [natOfDigits]
    omega

/-! ### Literals -/

theorem ne_point_of_isDigit {c : Char} (h : c.isDigit = true) : c ≠ '.' := by
  rintro rfl
  cases h

theorem all_digits {digits : List Char} (h : ∀ c ∈ digits, c.isDigit = true) :
    (digits.all fun c => c.isDigit || c == '.') = true ∧ digits.count '.' = 0 :=
  ⟨List.all_eq_true.mpr fun c hc => by rw [h c hc, Bool.true_or],
    List.count_eq_zero_of_not_mem fun hmem => ne_point_of_isDigit (h _ hmem) rfl⟩

theorem any_isDigit {digits : List Char} (hne : digits ≠ [])
    (h : ∀ c ∈ digits, c.isDigit = true) : digits.any Char.isDigit = true := by
  obtain ⟨c, rest, rfl⟩ := List.exists_cons_of_ne_nil hne
  rw [List.any_cons, h c List.mem_cons_self, Bool.true_or]

theorem ofLiteral?_digits {digits : List Char} (hne : digits ≠ [])
    (h : ∀ c ∈ digits, c.isDigit = true) : ofLiteral? digits = some (ofDigits digits 0) := by
  obtain ⟨hall, hcount⟩ := all_digits h
  have hliteral : isLiteral digits = true := by
    rw [isLiteral, any_isDigit hne h, hall, hcount]
    rfl
  have hne_point : ∀ c ∈ digits, (c != '.') = true := fun c hc =>
    bne_iff_ne.mpr (ne_point_of_isDigit (h c hc))
  rw [ofLiteral?, if_pos hliteral, List.takeWhile_eq_self_iff.mpr hne_point,
    List.dropWhile_eq_nil_iff.mpr hne_point]
  simp

theorem ofLiteral?_point {whole fraction : List Char} (hne : whole ≠ [])
    (hwhole : ∀ c ∈ whole, c.isDigit = true) (hfraction : ∀ c ∈ fraction, c.isDigit = true) :
    ofLiteral? (whole ++ '.' :: fraction) =
      some (ofDigits (whole ++ fraction) (-(fraction.length : Int))) := by
  obtain ⟨hall, hcount⟩ := all_digits hwhole
  obtain ⟨hall', hcount'⟩ := all_digits hfraction
  have hliteral : isLiteral (whole ++ '.' :: fraction) = true := by
    rw [isLiteral, List.any_append, any_isDigit hne hwhole, List.all_append, List.all_cons, hall,
      hall', List.count_append, List.count_cons_self, hcount, hcount']
    rfl
  have hne_point : ∀ c ∈ whole, (c != '.') = true := fun c hc =>
    bne_iff_ne.mpr (ne_point_of_isDigit (hwhole c hc))
  rw [ofLiteral?, if_pos hliteral, List.takeWhile_append_of_pos hne_point,
    List.dropWhile_append_of_pos hne_point]
  simp

/-- Digits with zeros on both sides. -/
theorem ofDigits_zeros {n : Nat} (h : n % 10 ≠ 0) (before after : Nat) (exponent : Int) :
    ofDigits (List.replicate before '0' ++ Nat.toDigits 10 n ++ List.replicate after '0') exponent =
      ⟨n, exponent + after⟩ := by
  have hnumber : natOfDigits (List.replicate before '0' ++ Nat.toDigits 10 n) = n := by
    rw [natOfDigits_append, natOfDigits_zeros, natOfDigits_toDigits, Nat.mul_zero, Nat.zero_add]
  rw [ofDigits, withoutTrailingZeros_append_zeros, withoutTrailingZeros_toDigits h, hnumber]
  simp

theorem isDigit_of_mem_zeros {zeros : Nat} {c : Char} (h : c ∈ List.replicate zeros '0') :
    c.isDigit = true := by
  rw [List.eq_of_mem_replicate h]
  rfl

/-- Positional notation is read back. -/
theorem ofLiteral?_positional {d : Decimal} (h : d.coefficient % 10 ≠ 0) :
    ofLiteral? d.positional = some d := by
  obtain ⟨n, exponent⟩ := d
  have hdigits := ofDigits_zeros h
  have hdigit : ∀ c ∈ Nat.toDigits 10 n, c.isDigit = true := fun c => isDigit_of_mem_toDigits
  have hne : Nat.toDigits 10 n ≠ [] := Nat.toDigits_ne_nil
  dsimp only at hdigits
  unfold positional
  dsimp only
  generalize Nat.toDigits 10 n = digits at hdigits hdigit hne
  split
  next zeros =>
    have hall : ∀ c ∈ digits ++ List.replicate zeros '0', c.isDigit = true :=
      List.forall_mem_append.mpr ⟨hdigit, fun _ => isDigit_of_mem_zeros⟩
    have hread := hdigits 0 zeros 0
    rw [List.replicate_zero, List.nil_append] at hread
    rw [ofLiteral?_digits (List.append_ne_nil_of_left_ne_nil hne _) hall, hread, Int.zero_add]
    rfl
  next lessOne =>
    split
    next hshort =>
      -- The point stands between two digits of the coefficient.
      have hwhole : digits.take (digits.length - (lessOne + 1)) ≠ [] := fun hnil => by
        have hlength := congrArg List.length hnil
        rw [List.length_take, List.length_nil] at hlength
        omega
      have hfraction : (digits.drop (digits.length - (lessOne + 1))).length = lessOne + 1 := by
        rw [List.length_drop]
        omega
      have hread := hdigits 0 0 (-(lessOne + 1 : Nat))
      rw [List.replicate_zero, List.nil_append, List.append_nil] at hread
      rw [ofLiteral?_point hwhole (fun c hc => hdigit c (List.mem_of_mem_take hc))
        (fun c hc => hdigit c (List.mem_of_mem_drop hc)), List.take_append_drop, hfraction, hread,
        Nat.cast_zero, Int.add_zero]
      rfl
    next hlong =>
      -- The point stands behind a zero, and before those that the coefficient does not have.
      have hfraction : (List.replicate (lessOne + 1 - digits.length) '0' ++ digits).length =
          lessOne + 1 := by
        rw [List.length_append, List.length_replicate]
        omega
      have hread := hdigits (lessOne + 1 - digits.length + 1) 0 (-(lessOne + 1 : Nat))
      rw [List.replicate_zero, List.append_nil, List.replicate_succ, List.cons_append] at hread
      have hall : ∀ c ∈ List.replicate (lessOne + 1 - digits.length) '0' ++ digits,
          c.isDigit = true := List.forall_mem_append.mpr ⟨fun _ => isDigit_of_mem_zeros, hdigit⟩
      have hpoint := ofLiteral?_point (List.cons_ne_nil '0' [])
        (List.forall_mem_singleton.mpr rfl) hall
      rw [List.singleton_append, List.singleton_append, hfraction, hread, Nat.cast_zero,
        Int.add_zero] at hpoint
      exact hpoint

end LineScript.Decimal
