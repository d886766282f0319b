import LineScript.Proofs.Decimal.RoundTrip
import LineScript.Proofs.Line.Origins
import LineScript.Proofs.Number.Parts

/-!
# What the items of a list literal stand for

An item stands for a text exactly if it begins and ends with the same quote
(`ofItem_eq_string_iff`). That alone does not make it one quotation: the quote may also come up
between its ends. The numbers of a list literal are finite, as all numbers that are read are, and a
list literal has no other defect than that of an item.
-/

namespace LineScript

open Text

/-- Two characters that are the same quote, with any text between them. -/
theorem isQuotation_iff {text : List Char} :
    isQuotation text = true ↔
      ∃ quote value, isQuote quote = true ∧ text = quote :: (value ++ [quote]) := by
  match text with
  | [] => simp [isQuotation]
  | [c] => simp [isQuotation]
  | first :: c :: rest =>
    simp only [isQuotation, Bool.and_eq_true, beq_iff_eq, List.cons.injEq]
    constructor
    · rintro ⟨hquote, hlast⟩
      obtain ⟨value, hvalue⟩ := List.getLast?_eq_some_iff.mp hlast
      exact ⟨first, value, hquote, rfl, hvalue⟩
    · rintro ⟨quote, value, hquote, rfl, hvalue⟩
      exact ⟨hquote, by rw [hvalue, List.getLast?_concat]⟩

/-! ### Numbers -/

/-- Every number that is read is finite. -/
theorem isFinite_of_readNumber? {text : List Char} {value : Float}
    (h : readNumber? text = some value) : value.isFinite = true := by
  rw [readNumber?, Option.filter_eq_some_iff] at h
  exact h.2

/-- The opposite of a finite number is finite. -/
theorem isFinite_neg {value : Float} (h : value.isFinite = true) : (-value).isFinite = true := by
  change (-value).toModel.unpack.isFinite = true
  change value.toModel.unpack.isFinite = true at h
  rw [unpack_neg]
  generalize value.toModel.unpack = parts at h ⊢
  cases parts with
  | finite | zero => rfl
  | infinity | notANumber => cases h

/-- There are no quotes in a number. -/
theorem isQuote_of_readNumber? {text : List Char} {value : Float}
    (h : readNumber? text = some value) : ∀ c ∈ text, isQuote c = false := by
  have hliteral := isLiteral_of_readNumber? h
  simp only [Decimal.isLiteral, Bool.and_eq_true, List.all_eq_true] at hliteral
  intro c hc
  rcases Bool.or_eq_true_iff.mp (hliteral.1.2 c hc) with hdigit | hpoint
  · exact isQuote_of_isWordChar (isWordChar_of_isDigit hdigit)
  · obtain rfl : c = '.' := by simpa using hpoint
    decide

/-! ### Items -/

theorem isQuote_of_isIdentifier {text : List Char} (h : isIdentifier text = true) :
    ∀ c ∈ text, isQuote c = false := by
  cases text with
  | nil => cases h
  | cons first rest =>
    simp only [isIdentifier, Bool.and_eq_true, List.all_eq_true] at h
    have hfirst : isWordChar first = true := by
      rw [isWordChar]
      rcases Bool.or_eq_true_iff.mp h.1 with hletter | hunderscore
      · simp [hletter]
      · simp [hunderscore]
    intro c hc
    rcases List.mem_cons.mp hc with rfl | hc
    · exact isQuote_of_isWordChar hfirst
    · exact isQuote_of_isWordChar (h.2 c hc)

namespace Literal

/-- What an item says about what it stands for, or that it stands for nothing. -/
def Fits (item : List Char) : Except Defect Literal → Prop
  | .ok (.string value) => isQuotation item = true ∧ value = String.ofList (inner item)
  | .ok (.number value) => (∀ c ∈ item, isQuote c = false) ∧ value.isFinite = true
  | .ok _ => ∀ c ∈ item, isQuote c = false
  | .error defect => isQuotation item = false ∧ defect = .invalidArrayItem (String.ofList item)

theorem fits_ofItem (item : List Char) : Fits item (ofItem item) := by
  unfold ofItem
  split
  next hquotation => exact ⟨hquotation, rfl⟩
  next hquotation =>
    have hquotation : isQuotation item = false := by simpa using hquotation
    split
    next htrue => simp [Fits, htrue, isQuote]
    split
    next hfalse => simp [Fits, hfalse, isQuote]
    split
    next value hvalue => exact ⟨isQuote_of_readNumber? hvalue, isFinite_of_readNumber? hvalue⟩
    next digits _ =>
      split
      next value hvalue =>
        exact ⟨List.forall_mem_cons.mpr ⟨rfl, isQuote_of_readNumber? hvalue⟩,
          isFinite_neg (isFinite_of_readNumber? hvalue)⟩
      next => exact ⟨hquotation, rfl⟩
    next =>
      split
      next hidentifier => exact isQuote_of_isIdentifier hidentifier
      · exact ⟨hquotation, rfl⟩

/-- An item with a quote in it stands for a text or for nothing. -/
theorem isQuotation_of_ofItem {item : List Char} {literal : Literal}
    (h : ofItem item = .ok literal) {c : Char} (hc : c ∈ item) (hquote : isQuote c = true) :
    isQuotation item = true := by
  have hfits := fits_ofItem item
  rw [h] at hfits
  -- All other literals have no quotes in them.
  have hnone (hplain : ∀ c ∈ item, isQuote c = false) : isQuotation item = true := by
    rw [hplain c hc] at hquote
    cases hquote
  cases literal with
  | string => exact hfits.1
  | number => exact hnone hfits.1
  | boolean => exact hnone hfits
  | identifier => exact hnone hfits

/-- An item stands for a text if that stands between two quotes of a kind. -/
theorem ofItem_eq_string_iff {item : List Char} {value : String} :
    ofItem item = .ok (.string value) ↔
      ∃ quote, isQuote quote = true ∧ item = quote :: (value.toList ++ [quote]) := by
  constructor
  · intro h
    have hfits := fits_ofItem item
    rw [h] at hfits
    obtain ⟨hquotation, rfl⟩ := hfits
    obtain ⟨quote, value, hquote, rfl⟩ := isQuotation_iff.mp hquotation
    refine ⟨quote, hquote, ?_⟩
    rw [inner_quoted, String.toList_ofList]
  · rintro ⟨quote, hquote, rfl⟩
    have hquotation : isQuotation (quote :: (value.toList ++ [quote])) = true :=
      isQuotation_iff.mpr ⟨quote, value.toList, hquote, rfl⟩
    unfold ofItem
    rw [if_pos hquotation, inner_quoted, String.ofList_toList]

theorem eq_of_ofItem_error {item : List Char} {defect : Defect} (h : ofItem item = .error defect) :
    defect = .invalidArrayItem (String.ofList item) := by
  have hfits := fits_ofItem item
  rw [h] at hfits
  exact hfits.2

theorem isFinite_of_ofItem {item : List Char} {value : Float}
    (h : ofItem item = .ok (.number value)) : value.isFinite = true := by
  have hfits := fits_ofItem item
  rw [h] at hfits
  exact hfits.2

/-! ### List literals -/

/-- What a list literal with these items says about what it stands for: its literals are those of
items, and its defect is that of an item. If an item stands for nothing, so does the literal. -/
def FitsAll (items : List (List Char)) : Except Defect (List Literal) → Prop
  | .ok literals => (∀ item ∈ items, ∃ literal, ofItem (trim item) = .ok literal) ∧
      ∀ literal ∈ literals, ∃ item ∈ items, ofItem (trim item) = .ok literal
  | .error defect => ∃ item ∈ items, ofItem (trim item) = .error defect

theorem fitsAll_mapM (items : List (List Char)) :
    FitsAll items (items.mapM fun item => ofItem (trim item)) := by
  induction items with
  | nil => exact ⟨nofun, nofun⟩
  | cons item items ih =>
    rw [List.mapM_cons]
    cases hitem : ofItem (trim item) with
    | error defect => exact ⟨item, List.mem_cons_self, hitem⟩
    | ok literal =>
      generalize (items.mapM fun item => ofItem (trim item)) = result at ih ⊢
      match result, ih with
      | .error defect, ⟨other, hmem, hother⟩ =>
        exact ⟨other, List.mem_cons_of_mem item hmem, hother⟩
      | .ok literals, ⟨hitems, hliterals⟩ =>
        refine ⟨List.forall_mem_cons.mpr ⟨⟨literal, hitem⟩, hitems⟩,
          List.forall_mem_cons.mpr ⟨⟨item, List.mem_cons_self, hitem⟩, fun other hmem => ?_⟩⟩
        obtain ⟨origin, horigin, hother⟩ := hliterals other hmem
        exact ⟨origin, List.mem_cons_of_mem item horigin, hother⟩

/-- A list literal stands for what its items stand for. One with nothing but blanks in it has no
literals. -/
theorem listOf_cases (text : List Char) :
    isBlankText (inner text) = true ∧ listOf text = .ok [] ∨
      FitsAll (itemsOf (inner text)) (listOf text) := by
  unfold listOf
  dsimp only
  split
  next hblank => exact .inl ⟨hblank, rfl⟩
  next => exact .inr (fitsAll_mapM _)

/-- The literals of a list literal are those of its items. -/
theorem exists_item_of_listOf {text : List Char} {literals : List Literal}
    (h : listOf text = .ok literals) {literal : Literal} (hmem : literal ∈ literals) :
    ∃ item ∈ itemsOf (inner text), ofItem (trim item) = .ok literal := by
  rcases listOf_cases text with ⟨-, hnone⟩ | hfits
  · obtain rfl : literals = [] := by simpa [h] using hnone
    cases hmem
  · rw [h] at hfits
    exact hfits.2 literal hmem

theorem exists_item_of_listOf_error {text : List Char} {defect : Defect}
    (h : listOf text = .error defect) :
    ∃ item ∈ itemsOf (inner text), defect = .invalidArrayItem (String.ofList (trim item)) := by
  rcases listOf_cases text with ⟨-, hnone⟩ | hfits
  · cases h.symm.trans hnone
  · rw [h] at hfits
    obtain ⟨item, hmem, hitem⟩ := hfits
    exact ⟨item, hmem, eq_of_ofItem_error hitem⟩

end Literal

/-- A segment has the defect of a word, of a sign or of an item. -/
theorem Segment.ne_of_classify_error {segment : Segment} {defect : Defect}
    (h : segment.classify = .error defect) : defect ≠ .unterminatedString := by
  unfold classify at h
  dsimp only at h
  split at h
  · cases h
  · obtain ⟨item, -, rfl⟩ := Literal.exists_item_of_listOf_error (map_eq_error_iff.mp h)
    nofun
  · split at h
    · cases h
    · cases h
      nofun
  · unfold classifyWord at h
    dsimp only at h
    repeat' split at h
    all_goals cases h
    nofun

end LineScript
