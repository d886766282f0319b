import LineScript.Machine.Statement
import LineScript.Proofs.Decimal.RoundTrip

/-!
# Numbers as rational numbers

A finite number has an exact value, which is a rational number: the magnitude with its sign, in
units of the least positive float. What is computed with magnitudes is said here of exact values:
which natural number a number is equal to, and how often a loop runs.
-/

namespace LineScript

open Float.Model (UnpackedFloat)

/-- The exact value of a finite number. What is not finite is given zero. -/
def exactValue (n : Float) : ℚ :=
  match n.toModel.unpack with
  | .finite .positive m e _ => m * 2 ^ e
  | .finite .negative m e _ => -(m * 2 ^ e)
  | .zero _ | .infinity _ | .notANumber => 0

theorem cast_one_shiftLeft (k : Nat) : ((1 <<< k : Nat) : ℚ) = 2 ^ (k : ℤ) := by
  rw [Nat.one_shiftLeft, Nat.cast_pow, zpow_natCast, Nat.cast_ofNat]

theorem cast_unitsPerOne : (unitsPerOne : ℚ) = 2 ^ (1074 : ℤ) :=
  cast_one_shiftLeft 1074

theorem unitsPerOne_pos : 0 < unitsPerOne := by
  have hpos : (0 : ℚ) < unitsPerOne := by
    rw [cast_unitsPerOne]
    positivity
  exact_mod_cast hpos

section

variable {n : Float}

/-- The magnitude of a finite number is its distance from zero. -/
theorem cast_magnitude (h : n.isFinite = true) :
    (magnitude n : ℚ) = |exactValue n| * unitsPerOne := by
  obtain ⟨sign, hn⟩ | ⟨sign, m, e, hm, hn⟩ := (isFinite_iff n).mp h
  · rw [magnitude_of_zero hn, exactValue, hn]
    simp
  · have hlower := (fits_of_unpack hn).lower
    have hvalue : |exactValue n| = m * 2 ^ e := by
      have hpos : (0 : ℚ) ≤ m * 2 ^ e := by positivity
      rw [exactValue, hn]
      cases sign with
      | positive => exact abs_of_nonneg hpos
      | negative => exact (abs_neg _).trans (abs_of_nonneg hpos)
    -- No exponent is below that of the least positive float, so the shift is not cut off at zero.
    have hshift : ((2 ^ (e + 1074).toNat : Nat) : ℚ) = 2 ^ (e + 1074) := by
      rw [Nat.cast_pow, Nat.cast_ofNat, ← zpow_natCast, Int.toNat_of_nonneg (by omega)]
    rw [magnitude_of_finite hn, hvalue, cast_unitsPerOne, Nat.cast_mul, hshift,
      zpow_add₀ two_ne_zero, mul_assoc]

/-- A finite number whose sign is not set is not below zero. -/
theorem exactValue_nonneg (h : isNegative n = false) : 0 ≤ exactValue n := by
  cases hn : n.toModel.unpack with
  | finite sign m e hm =>
    rw [exactValue, hn]
    cases sign with
    | positive => positivity
    | negative =>
      rw [(isNegative_of_finite hn).mpr rfl] at h
      cases h
  | zero | infinity | notANumber =>
    rw [exactValue, hn]

/-- A finite number whose sign is set is not above zero. -/
theorem exactValue_nonpos (h : isNegative n = true) : exactValue n ≤ 0 := by
  cases hn : n.toModel.unpack with
  | finite sign m e hm =>
    obtain rfl := (isNegative_of_finite hn).mp h
    rw [exactValue, hn]
    simp only [Left.neg_nonpos_iff]
    positivity
  | zero | infinity | notANumber =>
    rw [exactValue, hn]

/-! ### Whole numbers -/

/-- A number is equal to a natural number if that is its exact value. -/
theorem toNat?_eq_some_iff {k : Nat} :
    toNat? n = some k ↔ n.isFinite = true ∧ exactValue n = k := by
  have hunits : (unitsPerOne : ℚ) ≠ 0 := by exact_mod_cast unitsPerOne_pos.ne'
  rw [toNat?]
  simp only [Option.ite_none_right_eq_some, Bool.and_eq_true, decide_eq_true_eq, Bool.or_eq_true,
    Bool.not_eq_true', Option.some.injEq]
  constructor
  · rintro ⟨⟨⟨hwhole, hfinite⟩, hsign⟩, hquotient⟩
    have hexact : magnitude n = k * unitsPerOne := by
      rw [← hquotient, Nat.div_mul_cancel (Nat.dvd_of_mod_eq_zero hwhole)]
    have habs : |exactValue n| = k := by
      refine mul_right_cancel₀ hunits ?_
      rw [← cast_magnitude hfinite, hexact, Nat.cast_mul]
    refine ⟨hfinite, ?_⟩
    obtain hpositive | hzero := hsign
    · rwa [abs_of_nonneg (exactValue_nonneg hpositive)] at habs
    · obtain rfl : k = 0 := by rw [← hquotient, hzero, Nat.zero_div]
      simpa using habs
  · rintro ⟨hfinite, hvalue⟩
    have hexact : magnitude n = k * unitsPerOne := by
      have hcast := cast_magnitude hfinite
      rw [hvalue, Nat.abs_cast] at hcast
      exact_mod_cast hcast
    refine ⟨⟨⟨?_, hfinite⟩, ?_⟩, ?_⟩
    · rw [hexact, Nat.mul_mod_left]
    · -- The only number whose sign is set that is not below zero is a zero.
      cases hsign : isNegative n with
      | false => exact .inl rfl
      | true =>
        have hnonpos := exactValue_nonpos hsign
        rw [hvalue] at hnonpos
        obtain rfl : k = 0 := by exact_mod_cast le_antisymm hnonpos (Nat.cast_nonneg k)
        exact .inr (by rw [hexact, Nat.zero_mul])
    · rw [hexact, Nat.mul_div_cancel _ unitsPerOne_pos]

/-! ### Rounding up -/

/-- Rounding up the magnitude rounds up the exact value. -/
theorem ceiling_eq (hfinite : n.isFinite = true) (hsign : isNegative n = false) :
    ceiling n = ⌈exactValue n⌉₊ := by
  have hunits : (0 : ℚ) < unitsPerOne := by exact_mod_cast unitsPerOne_pos
  have hcast := cast_magnitude hfinite
  rw [abs_of_nonneg (exactValue_nonneg hsign)] at hcast
  -- Both are the least natural number that is not below the value.
  refine eq_of_forall_ge_iff fun k => ?_
  calc ceiling n ≤ k
      ↔ magnitude n ≤ k * unitsPerOne := by
        rw [ceiling, Nat.div_le_iff_le_mul_add_pred unitsPerOne_pos, Nat.add_le_add_iff_right,
          Nat.mul_comm]
    _ ↔ (magnitude n : ℚ) ≤ k * unitsPerOne := by exact_mod_cast Iff.rfl
    _ ↔ exactValue n ≤ k := by rw [hcast, mul_le_mul_iff_left₀ hunits]
    _ ↔ ⌈exactValue n⌉₊ ≤ k := Nat.ceil_le.symm

/-! ### Counts of loops -/

theorem unpack_zero : (0 : Float).toModel.unpack = .zero .positive := by
  rfl

theorem le_iff_compare (a b : Float) :
    a ≤ b ↔ (a.toModel.unpack.compare b.toModel.unpack).any (·.isLE) = true :=
  decide_eq_true_iff

/-- A number is above zero, or it is none or not above zero. -/
theorem not_pos_iff : ¬0 < n ↔ n.isNaN = true ∨ n ≤ 0 := by
  have hnan : n.isNaN = true ↔ n.toModel.unpack.isNaN = true := .rfl
  rw [lt_iff_compare, le_iff_compare, hnan, unpack_zero]
  -- How a float compares with zero is settled by its kind and its sign.
  rcases n.toModel.unpack with (_ | _) | _ | _ | ⟨_ | _, m, e, _⟩ <;>
    simp [UnpackedFloat.compare, UnpackedFloat.isNaN]

/-- What is above zero is infinite, or a finite number whose sign is not set. -/
theorem isInf_or_isFinite_of_pos (h : 0 < n) :
    n.isInf = true ∨ n.isFinite = true ∧ isNegative n = false := by
  rw [lt_iff_compare, unpack_zero] at h
  cases hn : n.toModel.unpack with
  | infinity => exact .inl (congrArg UnpackedFloat.isInf hn)
  | zero | notANumber =>
    rw [hn] at h
    cases h
  | finite sign m e hm =>
    refine .inr ⟨congrArg UnpackedFloat.isFinite hn, ?_⟩
    cases sign with
    | negative =>
      rw [hn] at h
      cases h
    | positive =>
      exact Bool.eq_false_iff.mpr fun hsign => nomatch (isNegative_of_finite hn).mp hsign

/-- A loop whose count is not infinite runs as often as the count says, rounded up, and at most as
often as the largest count. If the count is no number, or not above zero, it does not run. -/
theorem iterations_eq (h : ¬(n.isInf = true ∧ 0 < n)) :
    iterations n = if n.isNaN = true ∨ n ≤ 0 then 0 else min ⌈exactValue n⌉₊ (2 ^ 64 - 1) := by
  rw [iterations]
  split
  next hpos =>
    obtain hinf | ⟨hfinite, hsign⟩ := isInf_or_isFinite_of_pos hpos
    · exact absurd ⟨hinf, hpos⟩ h
    · rw [if_neg fun hnot => not_pos_iff.mpr hnot hpos, ceiling_eq hfinite hsign]
      rfl
  next hnot => rw [if_pos (not_pos_iff.mp hnot)]

end

end LineScript
