import LineScript.Decimal.Basic
import LineScript.Proofs.Number.Exact

/-!
# Decimals that are floats

A decimal is read as the float nearest to it. If it is exactly a float, it is read as that one, both
where reading multiplies or divides two floats and where it works with large integers.
-/

namespace LineScript

open Float.Model
open Float.Model.UnpackedFloat (Sign)

/-- The number that a decimal stands for. -/
def Decimal.value (d : Decimal) : ℚ :=
  d.coefficient * 10 ^ d.exponent

variable {m : Nat} {e : Int} {hm : 0 < m}

/-! ### Reading with integers -/

theorem lt_of_ten_zpow_le {x : Int} (h : Fits m e) (hle : (10 : ℚ) ^ x ≤ m * 2 ^ e) : x < 1024 := by
  by_contra hlarge
  have hlt : (2 : ℚ) ^ x < 2 ^ totalExponent m e := by
    calc (2 : ℚ) ^ x ≤ 10 ^ x := by
          exact zpow_le_zpow_left₀ (by omega) two_pos.le (by norm_num)
      _ ≤ m * 2 ^ e := hle
      _ < 2 ^ totalExponent m e := lt_two_zpow_total m e
  have htotal := (zpow_lt_zpow_iff_right₀ one_lt_two).mp hlt
  have hbits := h.bits
  have hupper := h.upper
  simp only [totalExponent] at htotal
  omega

theorem lt_of_value_eq {c : Nat} {x : Int} (h : Fits m e) (hm : 0 < m) (hx : x ≤ 0)
    (hvalue : (c : ℚ) * 10 ^ x = m * 2 ^ e) : -1075 - (c.log2 : Int) < x := by
  have hone : (1 : ℚ) ≤ m := by exact_mod_cast hm
  have hlt : (2 : ℚ) ^ (-1074 : Int) < 2 ^ (totalExponent c 0 + x) := by
    calc (2 : ℚ) ^ (-1074 : Int) ≤ 2 ^ e := zpow_le_zpow_right₀ one_lt_two.le h.lower
      _ ≤ m * 2 ^ e := le_mul_of_one_le_left (zpow_nonneg two_pos.le e) hone
      _ = c * 10 ^ x := hvalue.symm
      _ ≤ c * 2 ^ x := by
        refine mul_le_mul_of_nonneg_left ?_ (Nat.cast_nonneg c)
        obtain ⟨k, rfl⟩ : ∃ k : Nat, x = -k := ⟨x.natAbs, by omega⟩
        rw [zpow_neg, zpow_neg, zpow_natCast, zpow_natCast]
        gcongr
        norm_num
      _ < 2 ^ totalExponent c 0 * 2 ^ x := by
        have hc := lt_two_zpow_total c 0
        rw [zpow_zero, mul_one] at hc
        exact mul_lt_mul_of_pos_right hc (zpow_pos two_pos x)
      _ = 2 ^ (totalExponent c 0 + x) := (zpow_add₀ two_ne_zero _ _).symm
  have htotal := (zpow_lt_zpow_iff_right₀ one_lt_two).mp hlt
  simp only [totalExponent] at htotal
  omega

/-- What is not zero has a coefficient. -/
theorem pos_of_value_eq {c : Nat} {x : Int} (hm : 0 < m)
    (hvalue : (c : ℚ) * 10 ^ x = m * 2 ^ e) : 0 < c := by
  have hpos : (0 : ℚ) < m * 2 ^ e := mul_pos (by exact_mod_cast hm) (zpow_pos two_pos e)
  refine Nat.pos_of_ne_zero fun hzero => ?_
  rw [hzero, Nat.cast_zero, zero_mul] at hvalue
  exact hpos.ne hvalue

/-- Reading with integers gives a decimal that is a float exactly. -/
theorem ofScientific_exact {c : Nat} {x : Int} (h : Fits m e)
    (hvalue : (c : ℚ) * 10 ^ x = m * 2 ^ e) :
    UnpackedFloat.ofScientific .binary64 c x = .finite .positive m e hm := by
  have hc : c ≠ 0 := (pos_of_value_eq hm hvalue).ne'
  have hone : (1 : ℚ) ≤ c := by exact_mod_cast Nat.one_le_iff_ne_zero.mpr hc
  have hpower : (10 : ℚ) ^ x ≤ m * 2 ^ e :=
    hvalue ▸ le_mul_of_one_le_left (zpow_nonneg (by norm_num) x) hone
  have hupper := lt_of_ten_zpow_le h hpower
  have hlower : x < 0 → -1075 - (c.log2 : Int) < x := fun hx =>
    lt_of_value_eq h hm hx.le hvalue
  have hbits : Format.binary64.mantissaBits = 53 := rfl
  -- The powers of ten that are refused unseen are larger or smaller than any float.
  rw [UnpackedFloat.ofScientific, dif_neg hc, if_neg (by norm_num; omega),
    if_neg (by norm_num; omega)]
  split
  next hx =>
    obtain ⟨k, rfl⟩ := Int.eq_ofNat_of_zero_le hx
    refine mul_exact h ?_ ?_
    · -- A decimal without places is at least one.
      have hlarge : (2 : ℚ) ^ (0 : Int) < 2 ^ totalExponent m e := by
        rw [zpow_zero]
        refine lt_of_le_of_lt ?_ (lt_two_zpow_total m e)
        refine le_trans ?_ hpower
        rw [zpow_natCast]
        exact one_le_pow₀ (by norm_num)
      have htotal := (zpow_lt_zpow_iff_right₀ one_lt_two).mp hlarge
      have hbits := h.bits
      have hfull := h.full
      simp only [totalExponent] at htotal
      omega
    · rw [← hvalue, Nat.shiftLeft_eq, Int.toNat_natCast, zpow_neg, zpow_natCast, zpow_natCast,
        zpow_zero]
      push_cast
      field_simp
  next hx =>
    obtain ⟨k, rfl⟩ : ∃ k : Nat, x = -k := ⟨x.natAbs, by omega⟩
    refine div_exact h ?_
    rw [← hvalue, neg_neg, Int.toNat_natCast, zpow_neg, zpow_natCast, zpow_zero]
    push_cast
    field_simp

/-! ### Reading with floats -/

/-- A natural number as a mantissa of 53 bits. -/
def wide (j : Nat) : Nat :=
  j * 2 ^ (52 - j.log2)

section

variable {j : Nat} (hj : 0 < j) (hlog : j.log2 ≤ 52)
include hj hlog

theorem log2_wide : (wide j).log2 = 52 := by
  rw [wide, log2_mul_two_pow hj]
  omega

theorem wide_value (x : Int) : (wide j : ℚ) * 2 ^ (x + j.log2 - 52) = j * 2 ^ x := by
  have hexponent : x + j.log2 - 52 = x - (52 - j.log2 : Nat) := by omega
  rw [wide, hexponent, zpow_sub₀ two_ne_zero, zpow_natCast]
  push_cast
  field_simp

theorem wide_value_nat : (wide j : ℚ) * 2 ^ ((j.log2 : Int) - 52) = j := by
  simpa using wide_value hj hlog 0

theorem fits_wide {x : Int} (hlower : -1022 ≤ x) (hupper : x ≤ 971) :
    Fits (wide j) (x + j.log2 - 52) :=
  have hwide := log2_wide hj hlog
  ⟨hwide.le, by omega, by omega, .inl hwide⟩

end

theorem wide_pos {j : Nat} (hj : 0 < j) : 0 < wide j := by
  unfold wide
  positivity

/-- A natural number with at most 53 bits is a float. -/
theorem unpack_toFloat {c : Nat} (hc : 0 < c) (hlt : c < 2 ^ 53) :
    c.toUInt64.toFloat.toModel.unpack =
      .finite .positive (wide c) (c.log2 - 52) (wide_pos hc) := by
  have hlog : c.log2 < 53 := (Nat.log2_lt hc.ne').mpr hlt
  have hfits : Fits (wide c) (c.log2 - 52) := by
    simpa using fits_wide hc (by omega) (by decide : (-1022 : Int) ≤ 0) (by decide)
  have hbits : Format.binary64.mantissaBits = 53 := rfl
  have hcast : c.toUInt64.toNat = c := by
    rw [Nat.toUInt64, UInt64.toNat_ofNat']
    exact Nat.mod_eq_of_lt (hlt.trans (by decide))
  have htarget : Format.binary64.targetExponent (totalExponent c 0) = c.log2 - 52 := by
    change max ((c.log2 + 1 + 0 : Int) - (53 : Nat)) (-1074) = _
    omega
  have hround : UnpackedFloat.ofUInt64 .binary64 c.toUInt64 =
      .finite .positive (wide c) (c.log2 - 52) (wide_pos hc) := by
    have hsign : compare (c : Int) 0 = .gt := by
      rw [compare_gt_iff_gt]
      omega
    have hshift : (0 - ((c.log2 : Int) - 52)).toNat = 52 - c.log2 := by omega
    have hexponent : (0 : Int) - (52 - c.log2 : Nat) = c.log2 - 52 := by omega
    have hexact := @round_exact .positive _ _ (wide_pos hc) hfits 0
    simp only [pow_zero, mul_one, Nat.cast_zero, sub_zero] at hexact
    rw [UnpackedFloat.ofUInt64, UnpackedFloat.ofNat, UnpackedFloat.ofInt, UnpackedFloat.normalize,
      hcast, hsign]
    simp only [UnpackedFloat.round, UnpackedFloat.decreaseExponent, Int.toNat_natCast, htarget,
      hshift, hexponent, Nat.shiftLeft_eq]
    exact hexact
  change (Float.Model.pack (UnpackedFloat.ofUInt64 .binary64 c.toUInt64)).unpack = _
  rw [hround]
  exact unpack_pack hfits

/-- The powers of ten that are kept as floats are exact. -/
theorem powersOfTen_eq : ∀ k : Fin 23, Float.exactlyRepresentablePowersOfTen[k.val]? =
    some (Float.ofModel (.pack (.finite .positive (wide (5 ^ k.val))
      (k.val + (5 ^ k.val).log2 - 52) (wide_pos (by positivity))))) := by
  decide +kernel

theorem log2_five_pow_le {k : Nat} (hk : k ≤ 22) : (5 ^ k).log2 ≤ 52 := by
  have hle : 5 ^ k ≤ 5 ^ 22 := Nat.pow_le_pow_right (by decide) hk
  have hlt : (5 ^ k).log2 < 53 := (Nat.log2_lt (by positivity)).mpr (hle.trans_lt (by decide))
  omega

theorem unpack_powerOfTen {k : Nat} (hk : k ≤ 22)
    (hlt : k < Float.exactlyRepresentablePowersOfTen.size) :
    (Float.exactlyRepresentablePowersOfTen[k]).toModel.unpack =
      .finite .positive (wide (5 ^ k)) (k + (5 ^ k).log2 - 52) (wide_pos (by positivity)) := by
  have hpower := powersOfTen_eq ⟨k, by omega⟩
  rw [Array.getElem?_eq_getElem hlt] at hpower
  rw [Option.some.inj hpower]
  exact unpack_pack (fits_wide (by positivity) (log2_five_pow_le hk) (by omega) (by omega))

theorem powerOfTen_value {k : Nat} (hk : k ≤ 22) :
    (wide (5 ^ k) : ℚ) * 2 ^ ((k : Int) + (5 ^ k).log2 - 52) = 10 ^ k := by
  rw [wide_value (by positivity) (log2_five_pow_le hk), zpow_natCast, Nat.cast_pow, ← mul_pow]
  norm_num

section

variable {c k : Nat} {n : Float} (hc : 0 < c) (hlt : c < 2 ^ 53) (hk : k ≤ 22)
  (hsize : k < Float.exactlyRepresentablePowersOfTen.size)
  (h : n.toModel.unpack = .finite .positive m e hm)
include hc hlt hk h

/-- Dividing two floats gives a decimal that is a float exactly. -/
theorem toFloat_div_exact (hvalue : (c : ℚ) = m * 2 ^ e * 10 ^ k) :
    c.toUInt64.toFloat / Float.exactlyRepresentablePowersOfTen[k] = n := by
  have hlog : c.log2 < 53 := (Nat.log2_lt hc.ne').mpr hlt
  have hquotient : (wide c : ℚ) * 2 ^ ((c.log2 : Int) - 52) =
      m * 2 ^ e * ((wide (5 ^ k) : ℚ) * 2 ^ ((k : Int) + (5 ^ k).log2 - 52)) := by
    rw [wide_value_nat hc (by omega), powerOfTen_value hk, hvalue]
  change Float.ofModel (.pack (UnpackedFloat.div .binary64 _ _)) = n
  rw [unpack_toFloat hc hlt, unpack_powerOfTen hk hsize]
  exact ofModel_pack_of_eq (div_exact (fits_of_unpack h) hquotient) h

/-- Multiplying two floats gives a decimal that is a float exactly. -/
theorem toFloat_mul_exact (hvalue : (c : ℚ) * 10 ^ k = m * 2 ^ e) :
    c.toUInt64.toFloat * Float.exactlyRepresentablePowersOfTen[k] = n := by
  have hlog : c.log2 < 53 := (Nat.log2_lt hc.ne').mpr hlt
  have hproduct : (wide c : ℚ) * 2 ^ ((c.log2 : Int) - 52) *
      ((wide (5 ^ k) : ℚ) * 2 ^ ((k : Int) + (5 ^ k).log2 - 52)) = m * 2 ^ e := by
    rw [wide_value_nat hc (by omega), powerOfTen_value hk, hvalue]
  have hle := le_of_product (fits_of_unpack h) (log2_wide hc (by omega))
    (log2_wide (by positivity) (log2_five_pow_le hk)) (wide_pos hc) (wide_pos (by positivity))
    hproduct
  change Float.ofModel (.pack (UnpackedFloat.mul .binary64 _ _)) = n
  rw [unpack_toFloat hc hlt, unpack_powerOfTen hk hsize]
  exact ofModel_pack_of_eq (mul_exact (fits_of_unpack h) hle hproduct) h

end

/-! ### Both ways of reading -/

/-- A decimal that is a float exactly is read as that float. -/
theorem Decimal.toFloat_exact {d : Decimal} {n : Float}
    (h : n.toModel.unpack = .finite .positive m e hm) (hvalue : d.value = m * 2 ^ e) :
    d.toFloat = n := by
  obtain ⟨c, x⟩ := d
  change (c : ℚ) * 10 ^ x = m * 2 ^ e at hvalue
  change Float.ofScientific c (x < 0) x.natAbs = n
  have hc : 0 < c := pos_of_value_eq hm hvalue
  unfold Float.ofScientific
  -- Few digits and a small exponent are read with floats, all else with integers.
  rcases Int.lt_or_le x 0 with hx | hx
  · obtain ⟨k, rfl⟩ : ∃ k : Nat, x = -k := ⟨x.natAbs, by omega⟩
    rw [Int.natAbs_neg, Int.natAbs_natCast, decide_eq_true hx]
    split
    next hfast =>
      refine toFloat_div_exact hc hfast.1 hfast.2 _ h ?_
      rw [← hvalue, zpow_neg, zpow_natCast]
      field_simp
    next => exact ofModel_pack_of_eq (ofScientific_exact (fits_of_unpack h) hvalue) h
  · obtain ⟨k, rfl⟩ := Int.eq_ofNat_of_zero_le hx
    rw [Int.natAbs_natCast, decide_eq_false (Int.not_lt.mpr hx)]
    split
    next hfast => exact toFloat_mul_exact hc hfast.1 hfast.2 _ h (zpow_natCast (10 : ℚ) k ▸ hvalue)
    next => exact ofModel_pack_of_eq (ofScientific_exact (fits_of_unpack h) hvalue) h

end LineScript
