import LineScript.Decimal.Magnitude
import Mathlib

/-!
# Parts of numbers

A finite number is a sign, a mantissa and an exponent. The mantissa has 53 bits, or fewer at the
least exponent. The magnitude of a number is that of its mantissa, shifted by the exponent.
-/

namespace LineScript

open Float.Model
open Float.Model.UnpackedFloat (Sign packComponents unpackExponent unpackMantissa unpackSign)

/-- The mantissa and the exponent of a double-precision float that is finite and not zero. -/
structure Fits (mantissa : Nat) (exponent : Int) : Prop where
  /-- The mantissa has at most 53 bits. -/
  bits : mantissa.log2 ≤ 52
  /-- The exponent is in range. -/
  lower : -1074 ≤ exponent
  upper : exponent ≤ 971
  /-- It has 53 bits unless the exponent is the least. -/
  full : mantissa.log2 = 52 ∨ exponent = -1074

/-- Rounding would leave the exponent as it is. -/
theorem Fits.target {m : Nat} {e : Int} (h : Fits m e) :
    Format.binary64.targetExponent (totalExponent m e) = e := by
  obtain ⟨hbits, hlower, -, hfull⟩ := h
  change max ((m.log2 + 1 + e : Int) - (53 : Nat)) (-1074) = e
  omega

theorem Fits.lt_two_pow {m : Nat} {e : Int} (h : Fits m e) : m < 2 ^ 53 := by
  have hbits := h.bits
  by_contra hlarge
  have hlog : 53 ≤ m.log2 := (Nat.le_log2 (by omega)).mpr (by omega)
  omega

/-- A mantissa with 53 bits is one bit that is not stored, and those that are. -/
theorem toNat_hidden_bit {w : Nat} (stored : BitVec w) :
    (1#1 ++ stored).toNat = 2 ^ w + stored.toNat := by
  rw [BitVec.toNat_append, ← Nat.shiftLeft_add_eq_or_of_lt stored.isLt]
  simp [Nat.shiftLeft_eq]

section

variable {bits : BitVec Format.binary64.numBits} {sign : Sign} {m : Nat} {e : Int} {hm : 0 < m}

/-- The parts of a float that is finite and not zero are those that are stored, with the hidden bit
unless the stored exponent is zero. -/
theorem parts_of_unpack (h : UnpackedFloat.unpack .binary64 bits = .finite sign m e hm) :
    Sign.ofBitVec (unpackSign bits) = sign ∧
      (((unpackExponent bits).toNat = 0 ∧ m = (unpackMantissa bits).toNat ∧ e = -1074) ∨
        (0 < (unpackExponent bits).toNat ∧ (unpackExponent bits).toNat < 2047 ∧
          m = 2 ^ 52 + (unpackMantissa bits).toNat ∧ e = (unpackExponent bits).toNat - 1075)) := by
  have hbias : ((Format.binary64.exponentBias : Int) + (52 : Nat)) = 1075 := rfl
  unfold UnpackedFloat.unpack at h
  dsimp only at h
  split at h
  next => split at h <;> cases h
  next hfinite =>
    rw [hbias] at h
    split at h
    next hzero =>
      split at h
      next => cases h
      next =>
        injection h with hsign hmantissa hexponent
        have hstored : (unpackExponent bits).toNat = 0 := congrArg BitVec.toNat hzero
        refine ⟨hsign, .inl ⟨hstored, hmantissa.symm, ?_⟩⟩
        rw [← hexponent, hstored]
        rfl
    next hnonzero =>
      injection h with hsign hmantissa hexponent
      refine ⟨hsign, .inr ⟨?_, ?_, ?_, hexponent.symm⟩⟩
      · exact Nat.pos_of_ne_zero fun hzero => hnonzero (BitVec.eq_of_toNat_eq hzero)
      · have hlt := (unpackExponent bits).isLt
        have hne : (unpackExponent bits).toNat ≠ 2047 := fun hall =>
          hfinite (BitVec.eq_of_toNat_eq hall)
        omega
      · rw [← hmantissa, toNat_hidden_bit]

/-- The parts of every float that is finite and not zero fit. -/
theorem fits_of_unpack (h : UnpackedFloat.unpack .binary64 bits = .finite sign m e hm) :
    Fits m e := by
  have hstored : (unpackMantissa bits).toNat < 2 ^ 52 := (unpackMantissa bits).isLt
  obtain ⟨-, ⟨-, rfl, rfl⟩ | ⟨hpos, hlt, rfl, rfl⟩⟩ := parts_of_unpack h
  · have hlog := (Nat.log2_lt hm.ne').mpr hstored
    exact ⟨by omega, le_refl _, by decide, .inr rfl⟩
  · have hlog : (2 ^ 52 + (unpackMantissa bits).toNat).log2 = 52 :=
      (Nat.log2_eq_iff hm.ne').mpr ⟨by omega, by omega⟩
    exact ⟨hlog.le, by omega, by omega, .inl hlog⟩

/-- A mantissa of 53 bits is found again, without its first bit and with an exponent that is neither
that of infinities nor that of mantissas with fewer bits. -/
theorem unpack_normal {stored : Nat} (he : (stored : Int) - 1075 = e) (hpos : 0 < stored)
    (hlt : stored < 2047) (hlow : 2 ^ 52 ≤ m) (hhigh : m < 2 ^ 53) :
    UnpackedFloat.unpack .binary64
        (packComponents .binary64 sign (BitVec.ofNat 11 stored) (BitVec.ofNat 52 m)) =
      .finite sign m e hm := by
  subst he
  have hstored : (BitVec.ofNat 11 stored).toNat = stored := by
    rw [BitVec.toNat_ofNat]
    omega
  have hfinite : BitVec.ofNat 11 stored ≠ -1#11 := fun hall => by
    have hall : (BitVec.ofNat 11 stored).toNat = 2047 := congrArg BitVec.toNat hall
    omega
  have hnonzero : BitVec.ofNat 11 stored ≠ 0#11 := fun hzero => by
    have hzero : (BitVec.ofNat 11 stored).toNat = 0 := congrArg BitVec.toNat hzero
    omega
  have hmantissa : (1#1 ++ BitVec.ofNat 52 m).toNat = m := by
    rw [toNat_hidden_bit, BitVec.toNat_ofNat]
    omega
  unfold UnpackedFloat.unpack
  simp only [UnpackedFloat.unpackExponent_packComponents,
    UnpackedFloat.unpackMantissa_packComponents, UnpackedFloat.unpackSign_packComponents,
    Sign.ofBitVec_toBitVec, hmantissa, hstored]
  rw [if_neg hfinite, if_neg hnonzero]
  rfl

/-- A mantissa with fewer bits is found again with the least exponent. -/
theorem unpack_subnormal (hlow : m < 2 ^ 52) :
    UnpackedFloat.unpack .binary64 (packComponents .binary64 sign 0#11 (BitVec.ofNat 52 m)) =
      .finite sign m (-1074) hm := by
  have hmantissa : (BitVec.ofNat 52 m).toNat = m := by
    rw [BitVec.toNat_ofNat]
    omega
  have hnonzero : BitVec.ofNat 52 m ≠ 0#52 := fun hzero => by
    have hzero : (BitVec.ofNat 52 m).toNat = 0 := congrArg BitVec.toNat hzero
    omega
  unfold UnpackedFloat.unpack
  simp only [UnpackedFloat.unpackExponent_packComponents,
    UnpackedFloat.unpackMantissa_packComponents, UnpackedFloat.unpackSign_packComponents,
    Sign.ofBitVec_toBitVec, hmantissa]
  rw [if_neg (by decide), if_pos trivial, dif_neg hnonzero]
  rfl

/-- Parts that fit are found again in the float that they are packed into. -/
theorem unpack_pack (h : Fits m e) :
    UnpackedFloat.unpack .binary64 (UnpackedFloat.pack .binary64 (.finite sign m e hm)) =
      .finite sign m e hm := by
  have hbias : (Format.binary64.exponentBias : Int) = 1023 := rfl
  have hbits : Format.binary64.mantissaBits = 53 := rfl
  have hhigh := h.lt_two_pow
  obtain ⟨hlog, hlower, hupper, hfull⟩ := h
  unfold UnpackedFloat.pack
  simp only [hbias, hbits]
  rw [if_neg (by omega)]
  split
  next hnormal =>
    have hlow : 2 ^ 52 ≤ m := ((Nat.log2_eq_iff hm.ne').mp (by omega)).1
    exact unpack_normal (by omega) (by omega) (by omega) hlow hhigh
  next hsubnormal =>
    obtain rfl : e = -1074 := by omega
    exact unpack_subnormal ((Nat.log2_lt hm.ne').mp (by omega))

end

/-- A float whose parts fit is found again after it was packed. -/
theorem unpack_pack_of_fits {f : UnpackedFloat}
    (h : ∀ sign m e hm, f = .finite sign m e hm → Fits m e) : (Float.Model.pack f).unpack = f := by
  cases f with
  | infinity sign => cases sign <;> rfl
  | notANumber => rfl
  | zero sign => cases sign <;> rfl
  | finite sign m e hm => exact unpack_pack (h sign m e hm rfl)

section

variable {n : Float} {f : UnpackedFloat} {sign : Sign} {m : Nat} {e : Int} {hm : 0 < m}

/-- A number is what it was unpacked to, packed again. -/
theorem ofModel_pack (h : n.toModel.unpack = f) : Float.ofModel (.pack f) = n := by
  rw [← h]
  exact Float.ofBits_toBits n

/-- What is unpacked from a number is the number, packed again. -/
theorem ofModel_pack_of_eq {g : UnpackedFloat} (h : g = f) (hn : n.toModel.unpack = f) :
    Float.ofModel (.pack g) = n := by
  rw [h]
  exact ofModel_pack hn

theorem unpack_neg (n : Float) : (-n).toModel.unpack = n.toModel.unpack.neg := by
  refine unpack_pack_of_fits fun sign m e hm hneg => ?_
  cases hunpack : n.toModel.unpack with
  | finite _ _ _ hm' =>
    rw [hunpack] at hneg
    cases hneg
    exact fits_of_unpack hunpack
  | infinity | notANumber | zero =>
    rw [hunpack] at hneg
    cases hneg

theorem unpack_abs (n : Float) : n.abs.toModel.unpack = n.toModel.unpack.abs := by
  refine unpack_pack_of_fits fun sign m e hm habs => ?_
  cases hunpack : n.toModel.unpack with
  | finite _ _ _ hm' =>
    rw [hunpack] at habs
    cases habs
    exact fits_of_unpack hunpack
  | infinity | notANumber | zero =>
    rw [hunpack] at habs
    cases habs

/-- The bits of a number. -/
def pattern (n : Float) : BitVec Format.binary64.numBits :=
  n.toBits.toBitVec

/-- The sign of a number is its first bit. -/
theorem isNegative_iff (n : Float) :
    isNegative n = true ↔ Sign.ofBitVec (unpackSign (pattern n)) = .negative := by
  have hsign : (unpackSign (pattern n)).toNat = n.toBits.toNat / 2 ^ 63 % 2 := by
    rw [UnpackedFloat.unpackSign_def, BitVec.extractLsb'_toNat, Nat.shiftRight_eq_div_pow]
    rfl
  have hlt : n.toBits.toNat < 2 ^ 64 := n.toBits.toNat_lt
  have hzero : unpackSign (pattern n) = 0#1 ↔ n.toBits.toNat < 2 ^ 63 := by
    rw [← BitVec.toNat_inj, hsign]
    change _ = 0 ↔ _
    omega
  rw [isNegative, decide_eq_true_iff, Sign.ofBitVec]
  split
  next hpositive =>
    have hsmall := hzero.mp hpositive
    simp only [reduceCtorEq, iff_false]
    omega
  next hnegative =>
    have hlarge := mt hzero.mpr hnegative
    simp only [iff_true]
    omega

/-- The magnitude of a number is made of the bits for the exponent and the mantissa. -/
theorem magnitude_eq (n : Float) :
    magnitude n =
      if (unpackExponent (pattern n)).toNat = 0 then (unpackMantissa (pattern n)).toNat
      else (2 ^ 52 + (unpackMantissa (pattern n)).toNat) <<<
        ((unpackExponent (pattern n)).toNat - 1) := by
  rw [UnpackedFloat.unpackMantissa_def, UnpackedFloat.unpackExponent_def,
    BitVec.extractLsb'_toNat, BitVec.extractLsb'_toNat, Nat.shiftRight_eq_div_pow,
    Nat.shiftRight_eq_div_pow, pow_zero, Nat.div_one]
  rfl

theorem magnitude_of_finite (h : n.toModel.unpack = .finite sign m e hm) :
    magnitude n = m * 2 ^ (e + 1074).toNat := by
  have hbits : UnpackedFloat.unpack .binary64 (pattern n) = .finite sign m e hm := h
  rw [magnitude_eq]
  obtain ⟨-, ⟨hzero, rfl, rfl⟩ | ⟨hpos, -, rfl, rfl⟩⟩ := parts_of_unpack hbits
  · rw [if_pos hzero]
    exact (Nat.mul_one _).symm
  · rw [if_neg hpos.ne', Nat.shiftLeft_eq]
    congr 2
    omega

theorem magnitude_of_zero (h : n.toModel.unpack = .zero sign) : magnitude n = 0 := by
  have hbits : n.toBits.toBitVec = UnpackedFloat.packedZero .binary64 sign :=
    (UnpackedFloat.unpack_eq_zero_iff_of_valid n.toModel.valid).mp h
  rw [magnitude, ← UInt64.toNat_toBitVec, hbits]
  cases sign <;> rfl

theorem isNegative_of_finite (h : n.toModel.unpack = .finite sign m e hm) :
    isNegative n = true ↔ sign = .negative := by
  have hbits : UnpackedFloat.unpack .binary64 (pattern n) = .finite sign m e hm := h
  rw [isNegative_iff, (parts_of_unpack hbits).1]

end

end LineScript
