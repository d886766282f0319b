import LineScript.Proofs.Decimal.Literal
import LineScript.Proofs.Number.Order
import LineScript.Proofs.Rendering.Segments
import LineScript.Value

/-!
# The texts of numbers

The text of a finite number is read back as that number. Its digits are those of a decimal that
reads as the number, since the decimals that are tried are kept only if they do, and the exact one
does so in any case.
-/

namespace LineScript

open Float.Model

/-! ### Shortest digits -/

namespace Decimal

variable {n : Float} {m : Nat} {e : Int} {hm : 0 < m}

/-- A decimal without digits is read as zero. -/
theorem unpack_toFloat_zero {d : Decimal} (h : d.coefficient = 0) :
    d.toFloat.toModel.unpack = .zero .positive := by
  have hpacked : (Float.Model.pack (.zero .positive)).unpack = .zero .positive :=
    unpack_pack_of_fits nofun
  rw [toFloat, h, Float.ofScientific]
  split
  next hfast =>
    have hpower :=
      unpack_powerOfTen hfast.2 (by simp [Float.exactlyRepresentablePowersOfTen]; omega)
    have hzero : (0 : Nat).toUInt64.toFloat.toModel.unpack = .zero .positive := rfl
    split
    · change (Float.Model.pack (UnpackedFloat.div .binary64 _ _)).unpack = _
      rw [hpower, hzero]
      exact hpacked
    · change (Float.Model.pack (UnpackedFloat.mul .binary64 _ _)).unpack = _
      rw [hpower, hzero]
      exact hpacked
  next =>
    change (Float.Model.pack (UnpackedFloat.ofScientific .binary64 0 _)).unpack = _
    rw [UnpackedFloat.ofScientific, dif_pos rfl]
    exact hpacked

theorem coefficient_of_reads {c : Nat} {x : Int} (hn : n.toModel.unpack = .finite .positive m e hm)
    (h : (ofScaled c x).toFloat = n) : (ofScaled c x).coefficient % 10 ≠ 0 := by
  refine (coefficient_ofScaled c x).resolve_left fun hzero => ?_
  have hunpack := unpack_toFloat_zero hzero
  rw [h, hn] at hunpack
  cases hunpack

/-- A multiple of the least float has as many decimal places as binary ones. -/
theorem value_ofScaled_units (a k places : Nat) :
    (ofScaled (a * 2 ^ k * Nat.pow 5 places) (-(places : Int))).value =
      a * 2 ^ ((k : Int) - places) := by
  have hten : (10 : ℚ) ^ places = 2 ^ places * 5 ^ places := by
    rw [← mul_pow]
    norm_num
  have hfive : ((Nat.pow 5 places : Nat) : ℚ) = 5 ^ places := Nat.cast_pow 5 places
  rw [value_ofScaled, Nat.cast_mul, hfive, zpow_sub₀ two_ne_zero, zpow_neg, zpow_natCast,
    zpow_natCast, zpow_natCast, hten]
  push_cast
  field_simp

/-- All digits of a positive number are read as the number. -/
theorem toFloat_exact_digits (hn : n.toModel.unpack = .finite .positive m e hm) :
    (exact n).toFloat = n := by
  refine toFloat_exact hn ?_
  have hlower := (fits_of_unpack hn).lower
  obtain ⟨k, hk⟩ : ∃ k : Nat, k = (e + 1074).toNat := ⟨_, rfl⟩
  -- The number of places has a name, so that its powers are not evaluated.
  obtain ⟨places, hplaces⟩ : ∃ places : Nat, places = 1074 := ⟨_, rfl⟩
  have hexponent : e = k - (places : Int) := by omega
  have hnegated : (-1074 : Int) = -(places : Int) := by omega
  rw [exact, magnitude_of_finite hn, ← hk, hnegated, ← hplaces, hexponent]
  exact value_ofScaled_units m k places

theorem exists_of_mem_neighbours {x : Int} {d : Decimal} (h : d ∈ neighbours n x) :
    ∃ c, d = ofScaled c x := by
  obtain ⟨⟨c, distance⟩, -, hd⟩ := List.mem_filterMap.mp h
  dsimp only at hd
  split at hd
  · exact ⟨c, (Option.some.inj hd).symm⟩
  · cases hd

/-- The shortest digits of a positive number are read as the number, and end with no zero. -/
theorem shortest_reads (hn : n.toModel.unpack = .finite .positive m e hm) :
    (shortest n).toFloat = n ∧ (shortest n).coefficient % 10 ≠ 0 := by
  -- What is found by the search reads as the number, and so does what is taken if nothing is found.
  suffices hform : ∃ c x, shortest n = ofScaled c x ∧ (ofScaled c x).toFloat = n by
    obtain ⟨c, x, hshortest, hreads⟩ := hform
    rw [hshortest]
    exact ⟨hreads, coefficient_of_reads hn hreads⟩
  rw [shortest]
  cases hfound : (List.range 17).findSome? fun (extra : Nat) =>
    (neighbours n (leadingPower n - extra)).find? (readsAs n) with
  | none => exact ⟨_, _, rfl, toFloat_exact_digits hn⟩
  | some d =>
    obtain ⟨extra, -, hfind⟩ := List.exists_of_findSome?_eq_some hfound
    have hbits : readsAs n d = true := List.find?_some hfind
    have hreads : d.toFloat = n := Float.toBits_inj.mp (beq_iff_eq.mp hbits)
    obtain ⟨c, hform⟩ := exists_of_mem_neighbours (List.mem_of_find?_eq_some hfind)
    exact ⟨c, _, hform, hform ▸ hreads⟩

end Decimal

/-! ### Texts -/

theorem isFinite_iff (n : Float) :
    n.isFinite = true ↔ (∃ sign, n.toModel.unpack = .zero sign) ∨
      ∃ sign m e hm, n.toModel.unpack = .finite sign m e hm := by
  change n.toModel.unpack.isFinite = true ↔ _
  cases n.toModel.unpack with
  | infinity | notANumber => simp [UnpackedFloat.isFinite]
  | zero sign => exact iff_of_true rfl (.inl ⟨sign, rfl⟩)
  | finite sign m e hm => exact iff_of_true rfl (.inr ⟨sign, m, e, hm, rfl⟩)

theorem eq_of_unpack_eq {n n' : Float} (h : n.toModel.unpack = n'.toModel.unpack) : n = n' :=
  (ofModel_pack h).symm.trans (ofModel_pack rfl)

/-- A text without blanks is its own trimmed text. -/
theorem trim_of_forall {text : List Char} (h : ∀ c ∈ text, Text.isBlank c = false) :
    Text.trim text = text := by
  have hleft : ∀ text : List Char, (∀ c ∈ text, Text.isBlank c = false) →
      text.dropWhile Text.isBlank = text := fun text h => by
    cases text with
    | nil => rfl
    | cons c rest => simp [h c List.mem_cons_self]
  rw [Text.trim, Text.trimLeft, Text.trimRight, hleft text h,
    hleft text.reverse fun c hc => h c (List.mem_reverse.mp hc), List.reverse_reverse]

/-- What spells a number is a literal. -/
theorem isLiteral_of_readNumber? {digits : List Char} {n : Float}
    (h : readNumber? digits = some n) : Decimal.isLiteral digits = true := by
  by_contra hliteral
  rw [readNumber?, Decimal.ofLiteral?, if_neg hliteral] at h
  cases h

/-- A literal, with or without a sign, counts as the number that it spells. -/
theorem numberOfText_of_literal {digits : List Char} {n : Float}
    (h : readNumber? digits = some n) (text : String) :
    (text.toList = digits → numberOfText text = n) ∧
      (text.toList = '-' :: digits → numberOfText text = -n) := by
  have hliteral := isLiteral_of_readNumber? h
  simp only [Decimal.isLiteral, Bool.and_eq_true, List.any_eq_true, List.all_eq_true] at hliteral
  obtain ⟨⟨⟨digit, hdigit, -⟩, hall⟩, -⟩ := hliteral
  have hchars : ∀ c ∈ digits, Text.isBlank c = false ∧ c ≠ '-' := fun c hc => by
    rcases Bool.or_eq_true_iff.mp (hall c hc) with hdigit | hpoint
    · refine ⟨Text.isBlank_of_isWordChar (Text.isWordChar_of_isDigit hdigit), ?_⟩
      rintro rfl
      cases hdigit
    · rw [beq_iff_eq.mp hpoint]
      decide
  have hblank : ∀ c ∈ digits, Text.isBlank c = false := fun c hc => (hchars c hc).1
  refine ⟨fun htext => ?_, fun htext => ?_⟩
  · rw [numberOfText, htext, trim_of_forall hblank]
    split
    next => cases hdigit
    next => exact absurd rfl (hchars _ List.mem_cons_self).2
    next => rw [h, Option.getD_some]
  · have hsigned : ∀ c ∈ '-' :: digits, Text.isBlank c = false :=
      List.forall_mem_cons.mpr ⟨by decide, hblank⟩
    rw [numberOfText, htext, trim_of_forall hsigned]
    simp only [h]

/-- The digits of a positive number spell it. -/
theorem readNumber?_shortest {n : Float} {m : Nat} {e : Int} {hm : 0 < m}
    (hn : n.toModel.unpack = .finite .positive m e hm) :
    readNumber? (Decimal.shortest n).positional = some n := by
  obtain ⟨hreads, hlast⟩ := Decimal.shortest_reads hn
  have hfinite : n.isFinite = true := (isFinite_iff n).mpr (.inr ⟨_, _, _, _, hn⟩)
  rw [readNumber?, Decimal.ofLiteral?_positional hlast, Option.map_some, hreads,
    Option.filter_some_pos hfinite]

namespace Value

variable {n : Float} {sign : UnpackedFloat.Sign} {m : Nat} {e : Int} {hm : 0 < m}

theorem isNaN_of_unpack {f : UnpackedFloat} (hn : n.toModel.unpack = f) : n.isNaN = f.isNaN :=
  congrArg UnpackedFloat.isNaN hn

theorem isInf_of_unpack {f : UnpackedFloat} (hn : n.toModel.unpack = f) : n.isInf = f.isInf :=
  congrArg UnpackedFloat.isInf hn

/-- Zero is written without a sign. -/
theorem write_zero (hn : n.toModel.unpack = .zero sign) : numberFormat.write n = "0" := by
  rw [NumberFormat.write, NumberFormat.unsigned, isNaN_of_unpack hn, isInf_of_unpack hn,
    magnitude_of_zero hn]
  simp [numberFormat, UnpackedFloat.isNaN, UnpackedFloat.isInf]

/-- A number is written as the digits of its absolute value, with a sign if it is negative. -/
theorem write_finite (hn : n.toModel.unpack = .finite sign m e hm) :
    (numberFormat.write n).toList =
      if isNegative n then '-' :: (Decimal.shortest n.abs).positional
      else (Decimal.shortest n.abs).positional := by
  have hmagnitude : magnitude n ≠ 0 := by
    rw [magnitude_of_finite hn]
    positivity
  rw [NumberFormat.write, NumberFormat.unsigned, isNaN_of_unpack hn, isInf_of_unpack hn]
  simp only [UnpackedFloat.isNaN, UnpackedFloat.isInf, hmagnitude, if_false, Bool.false_eq_true,
    bne_iff_ne.mpr hmagnitude, Bool.or_true, Bool.and_true]
  split
  · rw [String.toList_append, String.toList_ofList, String.toList_ofList, List.singleton_append]
  · rw [String.toList_ofList]

/-- What is no number is written as a word, and so is infinity. -/
theorem write_of_not_finite (h : n.isFinite = false) :
    numberFormat.write n ∈ ["NaN", "Infinity", "-Infinity"] := by
  have hcases : n.isNaN = true ∨ n.isInf = true := by
    change n.toModel.unpack.isNaN = true ∨ n.toModel.unpack.isInf = true
    change n.toModel.unpack.isFinite = false at h
    cases hn : n.toModel.unpack with
    | notANumber => exact .inl rfl
    | infinity => exact .inr rfl
    | zero | finite =>
      rw [hn] at h
      cases h
  rw [NumberFormat.write]
  rcases hcases with hnan | hinf
  · rw [if_pos hnan]
    decide
  · rw [NumberFormat.unsigned, if_pos hinf]
    split
    · decide
    · split
      all_goals decide

/-- The text of a finite number counts as the number. -/
theorem numberOfText_write (h : n.isFinite = true) :
    (numberOfText (numberFormat.write n) == n) = true := by
  rcases (isFinite_iff n).mp h with ⟨sign, hn⟩ | ⟨sign, m, e, hm, hn⟩
  · have hzero : numberOfText "0" = 0 := by decide +kernel
    have hunpack : (0 : Float).toModel.unpack = .zero .positive := by rfl
    rw [write_zero hn, beq_iff_compare, hzero, hunpack, hn]
    rfl
  · have habs : n.abs.toModel.unpack = .finite .positive m e hm := by
      rw [unpack_abs, hn]
      rfl
    have hsign := isNegative_of_finite hn
    have hwrite := write_finite hn
    obtain ⟨hplain, hsigned⟩ :=
      numberOfText_of_literal (readNumber?_shortest habs) (numberFormat.write n)
    suffices hread : numberOfText (numberFormat.write n) = n by
      rw [hread, Float.beq_self_iff]
      rintro rfl
      cases h
    split at hwrite
    next hnegative =>
      rw [hsigned hwrite]
      refine eq_of_unpack_eq ?_
      rw [unpack_neg, habs, hn, hsign.mp hnegative]
      rfl
    next hpositive =>
      rw [hplain hwrite]
      refine eq_of_unpack_eq ?_
      rw [habs, hn]
      cases sign with
      | positive => rfl
      | negative => exact absurd (hsign.mpr rfl) hpositive

/-- The text of what is no finite number counts as no number. -/
theorem isNaN_numberOfText_write (h : n.isFinite = false) :
    (numberOfText (numberFormat.write n)).isNaN = true := by
  have hwords : ∀ text ∈ ["NaN", "Infinity", "-Infinity"], (numberOfText text).isNaN = true := by
    decide +kernel
  exact hwords _ (write_of_not_finite h)

end Value

end LineScript
