import LineScript.Proofs.Number.Parts

/-!
# Results that need no rounding

Products and quotients of floats are rounded to a mantissa of 53 bits. Where the exact result is a
float itself, rounding gives that float.
-/

namespace LineScript

open Float.Model
open Float.Model.UnpackedFloat (Accuracy ExtendedMantissa Sign)

variable {sign : Sign} {m : Nat} {e : Int} {hm : 0 < m}

/-- Shifting out zeros loses nothing. -/
theorem shiftRight_exact (m k : Nat) :
    (⟨m * 2 ^ k, false, false⟩ : ExtendedMantissa) >>> k = ⟨m, false, false⟩ := by
  change k.repeat ExtendedMantissa.shiftRightOne _ = _
  induction k generalizing m with
  | zero => simp [Nat.repeat]
  | succ k ih =>
    have hdouble : m * 2 ^ (k + 1) = 2 * m * 2 ^ k := by ring
    rw [Nat.repeat, hdouble, ih]
    simp [ExtendedMantissa.shiftRightOne]

theorem log2_mul_two_pow (hm : 0 < m) (k : Nat) : (m * 2 ^ k).log2 = m.log2 + k := by
  induction k with
  | zero => simp
  | succ k ih =>
    have hdouble : m * 2 ^ (k + 1) = 2 * (m * 2 ^ k) := by ring
    rw [hdouble, Nat.log2_two_mul (by positivity), ih, Nat.add_assoc]

theorem shiftToTarget_exact (h : Fits m e) (hm : 0 < m) (k : Nat) :
    UnpackedFloat.shiftToTargetExponent .binary64 (m * 2 ^ k) (e - k) .exact =
      (⟨m, false, false⟩, e) := by
  have htotal : totalExponent (m * 2 ^ k) (e - k) = totalExponent m e := by
    rw [totalExponent, totalExponent, log2_mul_two_pow hm]
    omega
  rw [UnpackedFloat.shiftToTargetExponent, htotal, h.target, UnpackedFloat.shiftToExponent]
  have hshift : (e - (e - k)).toNat = k := by omega
  simp only [hshift, ExtendedMantissa.ofMantissaAndAccuracy, shiftRight_exact, Prod.mk.injEq,
    true_and]
  omega

/-- An exact result that is a float is rounded to itself, whatever zeros its mantissa ends with. -/
theorem round_exact (h : Fits m e) (k : Nat) :
    UnpackedFloat.roundWithAccuracy .binary64 sign (m * 2 ^ k) (e - k) .exact =
      .finite sign m e hm := by
  have hagain := shiftToTarget_exact h hm 0
  simp only [pow_zero, Nat.mul_one, Nat.cast_zero, Int.sub_zero] at hagain
  simp only [UnpackedFloat.roundWithAccuracy, shiftToTarget_exact h hm k,
    ExtendedMantissa.roundedMantissa, ExtendedMantissa.accuracy, Accuracy.roundToNearestEven,
    hagain]
  rw [dif_neg hm.ne']

/-- A mantissa with a lower exponent ends with zeros if it stands for the same number. -/
theorem eq_mul_two_pow {low high : Nat} {x y : Int} (h : (low : ℚ) * 2 ^ x = high * 2 ^ y)
    (hle : x ≤ y) : low = high * 2 ^ (y - x).toNat := by
  obtain ⟨k, rfl⟩ := Int.le.dest hle
  rw [zpow_add₀ two_ne_zero, zpow_natCast, mul_comm ((2 : ℚ) ^ x), ← mul_assoc] at h
  have hequal := mul_right_cancel₀ (zpow_ne_zero x two_ne_zero) h
  rw [add_sub_cancel_left, Int.toNat_natCast]
  exact_mod_cast hequal

/-- The total exponent of a float says between which powers of two it lies. -/
theorem lt_two_zpow_total (m : Nat) (e : Int) : (m : ℚ) * 2 ^ e < 2 ^ totalExponent m e := by
  have hlt : (m : ℚ) < 2 ^ (m.log2 + 1) := by exact_mod_cast Nat.lt_log2_self
  rw [totalExponent, zpow_add₀ two_ne_zero]
  exact_mod_cast mul_lt_mul_of_pos_right hlt (zpow_pos two_pos e)

theorem two_zpow_total_le (hm : 0 < m) (e : Int) :
    (2 : ℚ) ^ (totalExponent m e - 1) ≤ m * 2 ^ e := by
  have hle : (2 : ℚ) ^ m.log2 ≤ m := by exact_mod_cast Nat.log2_self_le hm.ne'
  have htotal : totalExponent m e - 1 = m.log2 + e := by
    rw [totalExponent]
    omega
  rw [htotal, zpow_add₀ two_ne_zero, zpow_natCast]
  exact mul_le_mul_of_nonneg_right hle (zpow_nonneg two_pos.le e)

section

variable {sign' : Sign} {m₁ m₂ : Nat} {e₁ e₂ : Int} {h₁ : 0 < m₁} {h₂ : 0 < m₂}

theorem mul_exact (h : Fits m e) (hle : e₁ + e₂ ≤ e)
    (hvalue : (m₁ : ℚ) * 2 ^ e₁ * (m₂ * 2 ^ e₂) = m * 2 ^ e) :
    UnpackedFloat.mul .binary64 (.finite sign m₁ e₁ h₁) (.finite sign' m₂ e₂ h₂) =
      .finite (sign * sign') m e hm := by
  have hproduct : ((m₁ * m₂ : Nat) : ℚ) * 2 ^ (e₁ + e₂) = m * 2 ^ e := by
    rw [← hvalue, zpow_add₀ two_ne_zero, Nat.cast_mul]
    ring
  obtain ⟨k, hk⟩ := Int.le.dest hle
  have hexponent : e₁ + e₂ = e - k := by omega
  have hshift : (e - (e₁ + e₂)).toNat = k := by omega
  rw [UnpackedFloat.mul, eq_mul_two_pow hproduct hle, hshift, hexponent, round_exact h]

/-- The product of two mantissas of 53 bits has more bits than a float. -/
theorem le_of_product (h : Fits m e) (hlog₁ : m₁.log2 = 52) (hlog₂ : m₂.log2 = 52)
    (hm₁ : 0 < m₁) (hm₂ : 0 < m₂) (hvalue : (m₁ : ℚ) * 2 ^ e₁ * (m₂ * 2 ^ e₂) = m * 2 ^ e) :
    e₁ + e₂ ≤ e := by
  have hlt : (2 : ℚ) ^ (totalExponent m₁ e₁ - 1 + (totalExponent m₂ e₂ - 1)) <
      2 ^ totalExponent m e := by
    calc (2 : ℚ) ^ (totalExponent m₁ e₁ - 1 + (totalExponent m₂ e₂ - 1))
        = 2 ^ (totalExponent m₁ e₁ - 1) * 2 ^ (totalExponent m₂ e₂ - 1) :=
          zpow_add₀ two_ne_zero _ _
      _ ≤ m₁ * 2 ^ e₁ * (m₂ * 2 ^ e₂) :=
        mul_le_mul (two_zpow_total_le hm₁ e₁) (two_zpow_total_le hm₂ e₂) (by positivity)
          (by positivity)
      _ = m * 2 ^ e := hvalue
      _ < 2 ^ totalExponent m e := lt_two_zpow_total m e
  have htotal := (zpow_lt_zpow_iff_right₀ one_lt_two).mp hlt
  have hbits := h.bits
  simp only [totalExponent, hlog₁, hlog₂] at htotal
  omega

/-- The exponent that a quotient is computed with is not too large for the exact result. -/
theorem target_le_of_quotient (h : Fits m e) (hm₁ : 0 < m₁)
    (hvalue : (m₁ : ℚ) * 2 ^ e₁ = m * 2 ^ e * (m₂ * 2 ^ e₂)) :
    Format.binary64.targetExponent (totalExponent m₁ e₁ - totalExponent m₂ e₂) ≤ e := by
  -- The dividend is the product of the quotient and the divisor, which bounds its total exponent.
  have hlt : (2 : ℚ) ^ (totalExponent m₁ e₁ - 1) <
      2 ^ (totalExponent m e + totalExponent m₂ e₂) := by
    calc (2 : ℚ) ^ (totalExponent m₁ e₁ - 1) ≤ m₁ * 2 ^ e₁ := two_zpow_total_le hm₁ e₁
      _ = m * 2 ^ e * (m₂ * 2 ^ e₂) := hvalue
      _ < 2 ^ totalExponent m e * 2 ^ totalExponent m₂ e₂ :=
        mul_lt_mul'' (lt_two_zpow_total m e) (lt_two_zpow_total m₂ e₂) (by positivity)
          (by positivity)
      _ = 2 ^ (totalExponent m e + totalExponent m₂ e₂) := (zpow_add₀ two_ne_zero _ _).symm
  have htotal := (zpow_lt_zpow_iff_right₀ one_lt_two).mp hlt
  have htarget := h.target
  simp only [Format.targetExponent] at htarget ⊢
  omega

theorem div_exact (h : Fits m e)
    (hvalue : (m₁ : ℚ) * 2 ^ e₁ = m * 2 ^ e * (m₂ * 2 ^ e₂)) :
    UnpackedFloat.div .binary64 (.finite sign m₁ e₁ h₁) (.finite sign' m₂ e₂ h₂) =
      .finite (sign / sign') m e hm := by
  have htarget := target_le_of_quotient h h₁ hvalue
  generalize hlow : min (e₁ - e₂)
    (Format.binary64.targetExponent (totalExponent m₁ e₁ - totalExponent m₂ e₂)) = low
  obtain ⟨k, hk⟩ : ∃ k : Nat, low + k = e := Int.le.dest (by omega)
  -- The dividend was shifted so far that nothing remains.
  have hdividend : m₁ <<< (e₁ - e₂ - low).toNat = m * 2 ^ k * m₂ := by
    have hscaled : ((m * 2 ^ k * m₂ : Nat) : ℚ) * 2 ^ (e₂ + low) = m₁ * 2 ^ e₁ := by
      rw [hvalue, ← hk]
      push_cast
      rw [zpow_add₀ two_ne_zero, zpow_add₀ two_ne_zero, zpow_natCast]
      ring
    have hle : e₂ + low ≤ e₁ := by omega
    rw [Nat.shiftLeft_eq, eq_mul_two_pow hscaled hle]
    congr 2
    omega
  have hpos : 0 < m₂ := h₂
  simp only [UnpackedFloat.div, UnpackedFloat.divCore, hlow, hdividend,
    Nat.mul_div_cancel _ hpos, Nat.mul_mod_left, UnpackedFloat.accuracyOfFraction, if_true]
  rw [← round_exact h k]
  congr 1
  omega

end

end LineScript
