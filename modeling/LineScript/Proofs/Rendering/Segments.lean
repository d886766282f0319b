import LineScript.Proofs.Rendering
import LineScript.Proofs.Rendering.Quotations

/-!
# Rendered lines are cut into their lexemes

`Segment.Cut previous text segments` says that a text is cut into segments of the given shapes and
characters, wherever on its line it stands. The rules of this module cut off blanks, words,
quotations, list literals and signs. A line of an admissible layout is cut into the segments of its
lexemes (`cut_pieces`): what follows a lexeme there never continues it.
-/

namespace LineScript

open Text

/-! ### Characters -/

namespace Text

/-- The code points of the blanks. -/
def blankCodes : List Nat :=
  blankRanges.flatMap fun (low, high) => List.range' low (high + 1 - low)

/-- Blanks are no word characters. There are only finitely many of them. -/
theorem isWordChar_of_isBlank {c : Char} (hc : isBlank c = true) : isWordChar c = false := by
  obtain ⟨⟨low, high⟩, hrange, hlow, hhigh⟩ := (Ranges.has_iff blankRanges c).mp hc
  have hcode : c.toNat ∈ blankCodes := by
    refine List.mem_flatMap.mpr ⟨(low, high), hrange, ?_⟩
    rw [List.mem_range'_1]
    dsimp only at hlow hhigh ⊢
    omega
  have hall : ∀ code ∈ blankCodes, isWordChar (Char.ofNat code) = false := by decide +kernel
  rw [← Char.ofNat_toNat c]
  exact hall c.toNat hcode

/-- A blank is none of the characters that are known not to be. -/
theorem ne_of_isBlank {c d : Char} (hc : isBlank c = true) (hd : isBlank d = false) : c ≠ d := by
  rintro rfl
  simp [hc] at hd

/-- A word character is none of the characters that are known not to be. -/
theorem ne_of_isWordChar {c d : Char} (hc : isWordChar c = true) (hd : isWordChar d = false) :
    c ≠ d := by
  rintro rfl
  simp [hc] at hd

theorem isBlank_of_isWordChar {c : Char} (hc : isWordChar c = true) : isBlank c = false := by
  by_contra hblank
  have hword := isWordChar_of_isBlank (by simpa using hblank)
  simp [hc] at hword

theorem isQuote_of_isWordChar {c : Char} (hc : isWordChar c = true) : isQuote c = false := by
  have hdouble : c ≠ '"' := ne_of_isWordChar hc (by decide)
  have hsingle : c ≠ '\'' := ne_of_isWordChar hc (by decide)
  simp [isQuote, hdouble, hsingle]

theorem isAlphabetic_of_isDigit {c : Char} (hc : c.isDigit = true) : isAlphabetic c = false := by
  have hbounds : 48 ≤ c.toNat ∧ c.toNat ≤ 57 := by
    simp only [Char.isDigit, Bool.and_eq_true, decide_eq_true_eq, UInt32.le_iff_toNat_le] at hc
    exact hc
  have hcode : c.toNat ∈ List.range' 48 10 := by
    rw [List.mem_range'_1]
    omega
  have hall : ∀ code ∈ List.range' 48 10, isAlphabetic (Char.ofNat code) = false := by decide
  rw [← Char.ofNat_toNat c]
  exact hall c.toNat hcode

end Text

namespace Segment

/-! ### Cutting -/

section

variable {previous : Option Char} {c : Char} {rest : List Char}

/-- A segment is cut off, and then what remains after it is cut. -/
theorem cutAll_of_ok {shape : Shape} {tail remaining : List Char} (hblank : isBlank c = false)
    (h : munch previous c rest = .ok (shape, tail, remaining)) (offset : Nat) :
    cutAll previous offset (c :: rest) =
      (cutAll (c :: tail).getLast? (offset + byteSize (c :: tail)) remaining).map
        (⟨shape, c :: tail, offset⟩ :: ·) := by
  rw [cutAll, if_neg (by simp [hblank])]
  split
  next herror =>
    rw [h] at herror
    cases herror
  next hok =>
    rw [h] at hok
    cases hok
    rfl

/-- A segment that cannot be cut off is a defect of the whole. -/
theorem cutAll_of_error {defect : Defect} (hblank : isBlank c = false)
    (h : munch previous c rest = .error defect) (offset : Nat) :
    cutAll previous offset (c :: rest) = .error defect := by
  rw [cutAll, if_neg (by simp [hblank])]
  split
  next herror =>
    rw [h] at herror
    cases herror
    rfl
  next hok =>
    rw [h] at hok
    cases hok

end

/-- There are no segments in blanks. -/
theorem cutAll_of_isBlankText {previous : Option Char} {offset : Nat} {gap : List Char}
    (h : isBlankText gap = true) : cutAll previous offset gap = .ok [] := by
  induction gap generalizing previous offset with
  | nil => rw [cutAll]
  | cons c gap ih =>
    simp only [isBlankText, List.all_cons, Bool.and_eq_true] at h
    rw [cutAll, if_pos h.1]
    exact ih h.2

/-- What is kept of a segment that does not depend on where it stands. -/
def content (segment : Segment) : Shape × List Char :=
  (segment.shape, segment.text)

/-- A text directly after the character `previous` is cut into the given segments. -/
def Cut (previous : Option Char) (text : List Char) (contents : List (Shape × List Char)) : Prop :=
  ∀ offset, ∃ segments, cutAll previous offset text = .ok segments ∧
    segments.map content = contents

theorem cut_nil (previous : Option Char) : Cut previous [] [] := by
  intro offset
  exact ⟨[], by rw [cutAll], rfl⟩

/-- Blanks are left out. What follows them does not directly follow what stood before. -/
theorem Cut.gap {gap rest : List Char} {previous : Option Char}
    {contents : List (Shape × List Char)} (hgap : IsGap gap)
    (h : Cut (gap.getLast?.or previous) rest contents) :
    Cut previous (gap ++ rest) contents := by
  induction gap generalizing previous with
  | nil => exact h
  | cons c gap ih =>
    have hrest : Cut (some c) (gap ++ rest) contents := by
      refine ih (fun d hd => hgap d (List.mem_cons_of_mem c hd)) ?_
      rw [List.getLast?_cons] at h
      cases hlast : gap.getLast? with
      | none => simpa [hlast] using h
      | some last => simpa [hlast] using h
    intro offset
    obtain ⟨segments, hcut, hcontents⟩ := hrest (offset + c.utf8Size)
    refine ⟨segments, ?_, hcontents⟩
    rw [List.cons_append, cutAll, if_pos (hgap c List.mem_cons_self).1]
    exact hcut

/-- A segment is cut off. -/
theorem Cut.segment {previous : Option Char} {shape : Shape} {c : Char} {tail rest : List Char}
    {contents : List (Shape × List Char)} (hblank : isBlank c = false)
    (hmunch : munch previous c (tail ++ rest) = .ok (shape, tail, rest))
    (h : Cut (c :: tail).getLast? rest contents) :
    Cut previous (c :: tail ++ rest) ((shape, c :: tail) :: contents) := by
  intro offset
  obtain ⟨segments, hcut, hcontents⟩ := h (offset + byteSize (c :: tail))
  refine ⟨⟨shape, c :: tail, offset⟩ :: segments, ?_, by rw [List.map_cons, hcontents]; rfl⟩
  rw [List.cons_append, cutAll_of_ok hblank hmunch, hcut]
  rfl

/-! ### Words -/

/-- The first character of a text, if there is one, has a property. -/
def Begins (p : Char → Bool) (text : List Char) : Prop :=
  ∀ c ∈ text.head?, p c = true

theorem takeWhile_append_of_begins {p : Char → Bool} {left right : List Char}
    (hleft : ∀ c ∈ left, p c = true) (hright : Begins (fun c => !p c) right) :
    (left ++ right).takeWhile p = left ∧ (left ++ right).dropWhile p = right := by
  rw [List.takeWhile_append_of_pos hleft, List.dropWhile_append_of_pos hleft]
  cases right with
  | nil => simp
  | cons c right =>
    have hc : p c = false := by simpa using hright c (by simp)
    simp [hc]

/-- Words go on with word characters and points. -/
theorem cases_of_continues {c d : Char} (h : continues c d = true) :
    isWordChar d = true ∨ d = '.' := by
  simp only [continues, Bool.or_eq_true, Bool.and_eq_true, beq_iff_eq] at h
  exact h.imp_right And.right

/-- A word ends where no character continues it. -/
theorem munch_word {previous : Option Char} {c : Char} {tail rest : List Char}
    (hc : isWordChar c = true) (htail : ∀ d ∈ tail, continues c d = true)
    (hrest : Begins (fun d => !continues c d) rest) :
    munch previous c (tail ++ rest) = .ok (.word, tail, rest) := by
  obtain ⟨htake, hdrop⟩ := takeWhile_append_of_begins htail hrest
  have hbracket : c ≠ '[' := ne_of_isWordChar hc (by decide)
  rw [munch, if_neg (by simp [isQuote_of_isWordChar hc]), if_neg (by simp [hbracket]), if_pos hc,
    htake, hdrop]

/-- A quotation ends at the next quote of its kind, whatever follows. -/
theorem munch_quoted {previous : Option Char} {quote : Char} {value rest : List Char}
    (hquote : isQuote quote = true) (hvalue : quote ∉ value) :
    munch previous quote (value ++ [quote] ++ rest) = .ok (.quoted, value ++ [quote], rest) := by
  have hinside : ∀ c ∈ value, (c != quote) = true := by
    intro c hmem
    simpa using fun heq : c = quote => hvalue (heq ▸ hmem)
  have hclose : Begins (fun c => !(c != quote)) ([quote] ++ rest) := by simp [Begins]
  obtain ⟨htake, hdrop⟩ := takeWhile_append_of_begins hinside hclose
  rw [munch, if_pos hquote, List.append_assoc, htake, hdrop]
  rfl

/-- What holds of all the characters that are signs of their own holds of each. -/
theorem forall_isMark {p : Char → Bool}
    (hall : ['=', '{', '}', '(', ')', '[', ']', ',', '+', '-', '*', '/', '>', '<', ':', '.'].all p =
      true) {c : Char} (hmark : isMark c = true) : p c = true :=
  List.all_eq_true.mp hall c (List.contains_iff_mem.mp hmark)

/-- A sign of one character is one unless an equality sign makes it another. -/
theorem munch_mark {previous : Option Char} {c : Char} {rest : List Char} (hmark : isMark c = true)
    (hbracket : c = '[' → previous.any isWordChar = true)
    (hequal : c = '=' → Begins (· != '=') rest) :
    munch previous c ([] ++ rest) = .ok (.mark, [], rest) := by
  have hkind : isQuote c = false ∧ isWordChar c = false ∧ c ≠ '!' := by
    have hall : (!isQuote c && !isWordChar c && c != '!') = true :=
      forall_isMark (p := fun c => !isQuote c && !isWordChar c && c != '!') (by decide +kernel)
        hmark
    simpa [and_assoc] using hall
  have hnotArray : ¬ (c == '[' && !previous.any isWordChar) = true := by
    simp only [Bool.and_eq_true, beq_iff_eq, Bool.not_eq_true', not_and, Bool.not_eq_false]
    exact hbracket
  have hnotDouble : ¬ ((c == '=' || c == '!') && rest.head? == some '=') = true := by
    simp only [Bool.and_eq_true, Bool.or_eq_true, beq_iff_eq, not_and]
    rintro (hc | hc) hhead
    · simpa using hequal hc '=' hhead
    · exact hkind.2.2 hc
  rw [List.nil_append, munch, if_neg (by simp [hkind.1]), if_neg hnotArray,
    if_neg (by simp [hkind.2.1]), if_neg hnotDouble, if_pos hmark]

/-- An equality sign and its negation are signs of two characters. -/
theorem munch_double {previous : Option Char} {c : Char} {rest : List Char}
    (hc : c = '=' ∨ c = '!') : munch previous c (['='] ++ rest) = .ok (.mark, ['='], rest) := by
  have hkind : isQuote c = false ∧ isWordChar c = false ∧ c ≠ '[' := by
    rcases hc with rfl | rfl <;> decide
  rw [munch, if_neg (by simp [hkind.1]), if_neg (by simp [hkind.2.2]),
    if_neg (by simp [hkind.2.1]), if_pos (by rcases hc with rfl | rfl <;> simp)]
  simp

end Segment

/-! ### Lexemes -/

namespace Lexeme

open Segment

/-- The lexeme can be written and is read in the vocabulary. -/
def Valid (vocabulary : Vocabulary) : Lexeme → Prop
  | keyword kind => ∃ phrase ∈ vocabulary.keywords.phrases, phrase.kind = kind
  | sign kind => kind.signText ≠ []
  | name text => IsName text
  | number text value => IsNumeral text value
  | boolean _ => True
  | string quote value => IsQuotable quote value
  | array items => ∀ item ∈ items, IsItem item.1 item.2

/-- The segments that a lexeme is cut into. -/
def contents (keywords : Keywords) : Lexeme → List (Shape × List Char)
  | keyword kind => (words (keywords.spelling kind).toList).map fun word => (.word, word)
  | sign kind => [(if (sign kind).isWord then .word else .mark, kind.signText)]
  | name text => [(.word, text.toList)]
  | number text _ => [(.word, text)]
  | boolean value => [(.word, (toString value).toList)]
  | string quote value => [(.quoted, quote :: (value.toList ++ [quote]))]
  | array items => [(.array, arrayText (items.map Prod.fst))]

end Lexeme

/-- A text that is cut off as one word, provided that what follows does not continue it. -/
def IsWordText (text : List Char) : Prop :=
  ∃ c tail, text = c :: tail ∧ isWordChar c = true ∧ ∀ d ∈ tail, Segment.continues c d = true

/-- The characters of a word are word characters and points. -/
theorem IsWordText.cases_of_mem {text : List Char} (h : IsWordText text) :
    ∀ c ∈ text, isWordChar c = true ∨ c = '.' := by
  obtain ⟨c, tail, rfl, hc, htail⟩ := h
  exact List.forall_mem_cons.mpr ⟨.inl hc, fun d hd => Segment.cases_of_continues (htail d hd)⟩

theorem isWordText_of_forall {text : List Char} (hne : text ≠ [])
    (h : ∀ c ∈ text, isWordChar c = true) : IsWordText text := by
  cases text with
  | nil => exact absurd rfl hne
  | cons c tail =>
    refine ⟨c, tail, rfl, h c List.mem_cons_self, fun d hd => ?_⟩
    simp [Segment.continues, h d (List.mem_cons_of_mem c hd)]

theorem IsName.isWordChar {text : String} (h : IsName text) :
    text.toList ≠ [] ∧ ∀ c ∈ text.toList, isWordChar c = true := by
  have hidentifier := h.identifier
  cases hchars : text.toList with
  | nil => simp [hchars, isIdentifier] at hidentifier
  | cons c rest =>
    simp only [hchars, isIdentifier, Bool.and_eq_true, Bool.or_eq_true, List.all_eq_true]
      at hidentifier
    refine ⟨by simp, fun d hd => ?_⟩
    rcases List.mem_cons.mp hd with rfl | hrest
    · rcases hidentifier.1 with hfirst | hfirst <;> simp [Text.isWordChar, hfirst]
    · exact hidentifier.2 d hrest

/-- A name does not begin with a digit. -/
theorem IsName.not_digit {text : String} (h : IsName text) :
    text.toList.head?.any Char.isDigit = false := by
  have hidentifier := h.identifier
  cases hchars : text.toList with
  | nil => rfl
  | cons c rest =>
    simp only [hchars, isIdentifier, Bool.and_eq_true, Bool.or_eq_true, beq_iff_eq] at hidentifier
    by_contra hnot
    have hdigit : c.isDigit = true := by simpa using hnot
    rcases hidentifier.1 with hletter | rfl
    · simp [isAlphabetic_of_isDigit hdigit] at hletter
    · exact absurd hdigit (by decide)

/-- A numeral is a digit followed by digits and points. -/
theorem IsNumeral.exists_digit {text : List Char} {value : Float} (h : IsNumeral text value) :
    ∃ c tail, text = c :: tail ∧ c.isDigit = true ∧
      ∀ d ∈ tail, d.isDigit = true ∨ d = '.' := by
  have hliteral : Decimal.isLiteral text = true := by
    have hspells := h.spells
    by_contra hnot
    simp [readNumber?, Decimal.ofLiteral?, hnot] at hspells
  simp only [Decimal.isLiteral, Bool.and_eq_true, List.all_eq_true, Bool.or_eq_true,
    beq_iff_eq] at hliteral
  have hdigit := h.digit
  cases text with
  | nil => simp at hdigit
  | cons c tail =>
    refine ⟨c, tail, rfl, by simpa using hdigit, fun d hd => ?_⟩
    exact hliteral.1.2 d (List.mem_cons_of_mem c hd)

theorem IsNumeral.isWordText {text : List Char} {value : Float} (h : IsNumeral text value) :
    IsWordText text := by
  obtain ⟨c, tail, rfl, hc, htail⟩ := h.exists_digit
  refine ⟨c, tail, rfl, isWordChar_of_isDigit hc, fun d hd => ?_⟩
  rcases htail d hd with hdigit | rfl
  · simp [Segment.continues, isWordChar_of_isDigit hdigit]
  · simp [Segment.continues, hc]

/-- Keywords are spelled by their words, which are made of letters, with one blank between them. -/
theorem spelling_of_mem_phrases (vocabulary : Vocabulary) :
    ∀ phrase ∈ vocabulary.keywords.phrases,
      words (vocabulary.keywords.spelling phrase.kind).toList = phrase.words ∧
      (vocabulary.keywords.spelling phrase.kind).toList = [' '].intercalate phrase.words ∧
      ∀ word ∈ phrase.words, word ≠ [] ∧ ∀ c ∈ word, isWordChar c = true ∧ c.isDigit = false := by
  have hall : ∀ phrase ∈ vocabulary.keywords.phrases,
      words (vocabulary.keywords.spelling phrase.kind).toList = phrase.words ∧
      (vocabulary.keywords.spelling phrase.kind).toList = [' '].intercalate phrase.words ∧
      ∀ word ∈ phrase.words, word ≠ [] ∧ word.all (fun c => isWordChar c && !c.isDigit) = true := by
    cases vocabulary <;> decide +kernel
  intro phrase hmem
  obtain ⟨hwords, hspelling, hchars⟩ := hall phrase hmem
  refine ⟨hwords, hspelling, fun word hword => ⟨(hchars word hword).1, fun c hc => ?_⟩⟩
  simpa using List.all_eq_true.mp (hchars word hword).2 c hc

theorem IsQuotable.quote_cases {quote : Char} {value : String} (h : IsQuotable quote value) :
    quote = '"' ∨ quote = '\'' := by
  simpa [LineScript.isQuote] using h.isQuote

theorem IsQuotable.isBlank {quote : Char} {value : String} (h : IsQuotable quote value) :
    isBlank quote = false := by
  rcases h.quote_cases with rfl | rfl <;> decide

/-- The names of the truth values are made of letters. -/
theorem wordChars_boolean (value : Bool) :
    (toString value).toList ≠ [] ∧ ∀ c ∈ (toString value).toList, isWordChar c = true := by
  have hall : (toString value).toList ≠ [] ∧ (toString value).toList.all isWordChar = true := by
    cases value <;> decide
  exact ⟨hall.1, List.all_eq_true.mp hall.2⟩

namespace Segment

variable {previous : Option Char} {rest : List Char} {contents : List (Shape × List Char)}

/-- A word is cut off, provided that what follows does not continue it. -/
theorem Cut.word {text : List Char} (htext : IsWordText text)
    (hrest : Begins (fun c => !isWordChar c) rest)
    (hpoint : text.head?.any Char.isDigit = true → Begins (· != '.') rest)
    (h : Cut text.getLast? rest contents) :
    Cut previous (text ++ rest) ((.word, text) :: contents) := by
  obtain ⟨c, tail, rfl, hc, htail⟩ := htext
  refine Cut.segment (isBlank_of_isWordChar hc) (munch_word hc htail fun d hd => ?_) h
  have hword : isWordChar d = false := by simpa using hrest d hd
  cases hdigit : c.isDigit with
  | false => simp [continues, hword, hdigit]
  | true =>
    have hne : (d != '.') = true := hpoint (by simpa using hdigit) d hd
    simpa [continues, hword, hdigit] using hne

/-- A word that is no number is cut off, provided that no word character follows. -/
theorem Cut.letters {text : List Char} (hne : text ≠ []) (hchars : ∀ c ∈ text, isWordChar c = true)
    (hdigit : text.head?.any Char.isDigit = false) (hrest : Begins (fun c => !isWordChar c) rest)
    (h : Cut text.getLast? rest contents) :
    Cut previous (text ++ rest) ((.word, text) :: contents) := by
  refine Cut.word (isWordText_of_forall hne hchars) hrest (fun hany => ?_) h
  rw [hdigit] at hany
  cases hany

/-- The words of a keyword are cut off one by one. -/
theorem Cut.words {first : List Char} {others : List (List Char)}
    (hwords : ∀ word ∈ first :: others,
      word ≠ [] ∧ ∀ c ∈ word, isWordChar c = true ∧ c.isDigit = false)
    (hrest : Begins (fun c => !isWordChar c) rest)
    (h : Cut ([' '].intercalate (first :: others)).getLast? rest contents) :
    Cut previous ([' '].intercalate (first :: others) ++ rest)
      ((first :: others).map (fun word => (.word, word)) ++ contents) := by
  have hdigit {word : List Char} (hword : ∀ c ∈ word, isWordChar c = true ∧ c.isDigit = false) :
      word.head?.any Char.isDigit = false := by
    cases word with
    | nil => rfl
    | cons c word => simp [(hword c (by simp)).2]
  induction others generalizing previous first with
  | nil =>
    obtain ⟨hne, hchars⟩ := hwords first (by simp)
    have hone : [' '].intercalate [first] = first := by simp [List.intercalate]
    rw [hone] at h ⊢
    exact Cut.letters hne (fun c hc => (hchars c hc).1) (hdigit hchars) hrest h
  | cons next others ih =>
    obtain ⟨hne, hchars⟩ := hwords first (by simp)
    have hnext := hwords next (by simp)
    have heq : [' '].intercalate (first :: next :: others) =
        first ++ ([' '] ++ [' '].intercalate (next :: others)) := by
      simp [List.intercalate]
    have hinner : [' '].intercalate (next :: others) ≠ [] := by
      cases others <;> simp [List.intercalate, hnext.1]
    -- What follows the keyword sees its last word, also when more words are before it.
    have hlast : ([' '].intercalate (first :: next :: others)).getLast? =
        ([' '].intercalate (next :: others)).getLast? := by
      rw [heq, ← List.append_assoc, List.getLast?_append]
      cases hend : ([' '].intercalate (next :: others)).getLast? with
      | none => exact absurd (List.getLast?_eq_none_iff.mp hend) hinner
      | some c => rfl
    rw [hlast] at h
    rw [heq, List.append_assoc, List.append_assoc]
    have hblank : Begins (fun c => !isWordChar c) ([' '] ++ ([' '].intercalate (next :: others) ++
        rest)) := by
      intro c hc
      obtain rfl : ' ' = c := by simpa using hc
      decide
    refine Cut.letters hne (fun c hc => (hchars c hc).1) (hdigit hchars) hblank
      (Cut.gap (by simp [IsGap]; decide) ?_)
    exact ih (fun word hmem => hwords word (List.mem_cons_of_mem first hmem)) h

end Segment

namespace Lexeme

open Segment

variable {vocabulary : Vocabulary} {lexeme : Lexeme} {rest : List Char}

/-- What follows a lexeme does not continue it. -/
structure Ends (lexeme : Lexeme) (rest : List Char) : Prop where
  /-- A word ends. -/
  word : lexeme.isWord = true → Begins (fun c => !isWordChar c) rest
  /-- A number ends. -/
  point : ∀ text value, lexeme = .number text value → Begins (· != '.') rest
  /-- A single equality sign is not made a double one. -/
  equal : lexeme = .sign .assign → Begins (· != '=') rest

/-- What stands before a lexeme does not make it something else. -/
structure Starts (previous : Option Char) (lexeme : Lexeme) : Prop where
  /-- A list literal does not index a word. -/
  array : ∀ items, lexeme = .array items → previous.any isWordChar = false
  /-- The bracket of an index does. -/
  bracket : lexeme = .sign .leftBracket → previous.any isWordChar = true

/-- The signs that are no words are of one character, or are the two equality signs. -/
theorem signText_cases (kind : Token.Kind) (htext : kind.signText ≠ [])
    (hword : (sign kind).isWord = false) :
    (∃ c, kind.signText = [c] ∧ isMark c = true ∧ (c = '[' → kind = .leftBracket) ∧
      (c = '=' → kind = .assign)) ∨
    (∃ c, kind.signText = [c, '='] ∧ (c = '=' ∨ c = '!')) := by
  cases kind <;> first
    | exact absurd rfl htext
    | exact absurd hword (by decide)
    | exact .inl ⟨_, rfl, by decide, by decide, by decide⟩
    | exact .inr ⟨_, rfl, by decide⟩

theorem isBlank_of_isMark {c : Char} (hmark : isMark c = true) : isBlank c = false := by
  have hall : (!isBlank c) = true := forall_isMark (p := fun c => !isBlank c) (by decide) hmark
  simpa using hall

/-- Whether a character is one at which comments, list literals or their items are cut. -/
def isStop (c : Char) : Bool :=
  c == ',' || c == '[' || c == ']' || c == '#'

section Clear

variable {stop : Char → Bool} (hstop : ∀ c, stop c = true → isStop c = true)

include hstop

theorem stop_eq_false {c : Char} (hc : isStop c = false) : stop c = false := by
  by_contra hnot
  have htrue := hstop c (by simpa using hnot)
  simp [hc] at htrue

/-- Word characters, points and minus signs are not cut at. -/
theorem clear_of_wordChars {text : List Char}
    (h : ∀ c ∈ text, isWordChar c = true ∨ c = '.' ∨ c = '-') : clear stop none text = true := by
  refine clear_of_forall fun c hc => ?_
  rcases h c hc with hword | rfl | rfl
  · refine ⟨isQuote_of_isWordChar hword, stop_eq_false hstop ?_⟩
    have hcomma : c ≠ ',' := ne_of_isWordChar hword (by decide)
    have hleft : c ≠ '[' := ne_of_isWordChar hword (by decide)
    have hright : c ≠ ']' := ne_of_isWordChar hword (by decide)
    have hcomment : c ≠ '#' := ne_of_isWordChar hword (by decide)
    simp [isStop, hcomma, hleft, hright, hcomment]
  · exact ⟨by decide, stop_eq_false hstop (by decide)⟩
  · exact ⟨by decide, stop_eq_false hstop (by decide)⟩

theorem clear_quoted {quote : Char} {value : String} (h : IsQuotable quote value) :
    clear stop none (quote :: (value.toList ++ [quote])) = true := by
  refine clear_quotation h.isQuote (stop_eq_false hstop ?_) h.unclosed
  rcases h.quote_cases with rfl | rfl <;> decide

theorem clear_numeral {text : List Char} {value : Float} (h : IsNumeral text value) :
    clear stop none text = true := by
  obtain ⟨c, tail, rfl, hc, htail⟩ := h.exists_digit
  refine clear_of_wordChars hstop fun d hd => ?_
  rcases List.mem_cons.mp hd with rfl | htailMem
  · exact .inl (isWordChar_of_isDigit hc)
  · rcases htail d htailMem with hdigit | hpoint
    · exact .inl (isWordChar_of_isDigit hdigit)
    · exact .inr (.inl hpoint)

/-- An item of a list literal has no commas, brackets or comment signs outside quotations. -/
theorem clear_item {text : List Char} {literal : Literal} (h : IsItem text literal) :
    clear stop none text = true := by
  match literal, h with
  | .number value, .inl hnumeral => exact clear_numeral hstop hnumeral
  | .number value, .inr ⟨digits, opposite, htext, hnumeral, _⟩ =>
    have hsign : clear stop none ['-'] = true := clear_of_wordChars hstop (by simp)
    rw [htext]
    exact clear_append hsign (clear_numeral hstop hnumeral)
  | .string value, ⟨quote, hquotable, htext⟩ =>
    rw [htext]
    exact clear_quoted hstop hquotable
  | .boolean value, htext =>
    rw [show text = (toString value).toList from htext]
    exact clear_of_wordChars hstop fun c hc => .inl ((wordChars_boolean value).2 c hc)
  | .identifier _, ⟨hname, htext⟩ =>
    rw [htext]
    exact clear_of_wordChars hstop fun c hc => .inl (hname.isWordChar.2 c hc)

end Clear

/-- A list literal ends at its bracket, whatever follows. -/
theorem munch_array {previous : Option Char} {items : List (List Char × Literal)}
    (hprevious : previous.any isWordChar = false) (hitems : ∀ item ∈ items, IsItem item.1 item.2) :
    munch previous '[' ([',', ' '].intercalate (items.map Prod.fst) ++ [']'] ++ rest) =
      .ok (.array, [',', ' '].intercalate (items.map Prod.fst) ++ [']'], rest) := by
  have hclear : clear (fun c => c == '[' || c == ']') none
      ([',', ' '].intercalate (items.map Prod.fst)) = true := by
    refine clear_intercalate (by decide) fun text htext => ?_
    obtain ⟨item, hitem, rfl⟩ := List.mem_map.mp htext
    refine clear_item (fun c hc => ?_) (hitems item hitem)
    simp only [Bool.or_eq_true, beq_iff_eq] at hc
    rcases hc with rfl | rfl <;> decide
  have hnotQuote : ¬ isQuote '[' = true := by decide
  rw [munch, if_neg hnotQuote, if_pos (by simp [hprevious]), List.append_assoc,
    List.singleton_append, arrayTail?_of_clear hclear]

/-- A lexeme is cut into its segments. -/
theorem cut_lexeme {previous : Option Char} {contents : List (Shape × List Char)}
    (hvalid : lexeme.Valid vocabulary) (hstarts : Starts previous lexeme) (hends : lexeme.Ends rest)
    (h : Cut (lexeme.text vocabulary.keywords).getLast? rest contents) :
    Cut previous (lexeme.text vocabulary.keywords ++ rest)
      (lexeme.contents vocabulary.keywords ++ contents) := by
  cases lexeme with
  | keyword kind =>
    obtain ⟨phrase, hmem, rfl⟩ := hvalid
    obtain ⟨hwords, hspelling, hchars⟩ := spelling_of_mem_phrases vocabulary phrase hmem
    rw [text, hspelling] at h
    rw [text, Lexeme.contents, hwords, hspelling]
    exact Cut.words hchars (hends.word rfl) h
  | sign kind =>
    cases hword : (sign kind).isWord with
    | true =>
      have hchars : kind.signText.all isWordChar = true ∧
          kind.signText.head?.any Char.isDigit = false := by
        cases kind <;> first | exact absurd hword (by decide) | decide
      rw [Lexeme.contents, hword]
      exact Cut.letters hvalid (List.all_eq_true.mp hchars.1) hchars.2 (hends.word hword) h
    | false =>
      rw [Lexeme.contents, hword]
      rcases signText_cases kind hvalid hword with ⟨c, htext, hmark, hbracket, hequal⟩ |
        ⟨c, htext, hc⟩
      · rw [text, htext] at h ⊢
        have hstart : c = '[' → previous.any isWordChar = true := fun hc =>
          hstarts.bracket (congrArg sign (hbracket hc))
        have hend : c = '=' → Begins (· != '=') rest := fun hc =>
          hends.equal (congrArg sign (hequal hc))
        exact Cut.segment (isBlank_of_isMark hmark) (munch_mark hmark hstart hend) h
      · rw [text, htext] at h ⊢
        have hblank : isBlank c = false := by rcases hc with rfl | rfl <;> decide
        exact Cut.segment hblank (munch_double hc) h
  | name word =>
    have hname : IsName word := hvalid
    exact Cut.letters hname.isWordChar.1 hname.isWordChar.2 hname.not_digit (hends.word rfl) h
  | number digits value =>
    exact Cut.word (IsNumeral.isWordText hvalid) (hends.word rfl)
      (fun _ => hends.point digits value rfl) h
  | boolean value =>
    have hdigit : (toString value).toList.head?.any Char.isDigit = false := by
      cases value <;> decide
    exact Cut.letters (wordChars_boolean value).1 (wordChars_boolean value).2 hdigit
      (hends.word rfl) h
  | string quote value =>
    have hquotable : IsQuotable quote value := hvalid
    exact Cut.segment hquotable.isBlank (munch_quoted hquotable.isQuote hquotable.unclosed) h
  | array items =>
    exact Cut.segment (by decide) (munch_array (hstarts.array items rfl) hvalid) h

/-! ### Lines -/

/-- What the first character of a lexeme tells about it. -/
structure Heads (lexeme : Lexeme) (c : Char) : Prop where
  /-- Words, and only they, begin with a word character. -/
  word : isWordChar c = lexeme.isWord
  /-- Only the sign for properties begins with a point. -/
  point : c = '.' → lexeme = .sign .dot
  /-- Only two signs begin with an equality sign. -/
  equal : c = '=' → lexeme = .sign .assign ∨ lexeme = .sign .equal

theorem heads_of_isWordChar {c : Char} (hc : isWordChar c = true) (hword : lexeme.isWord = true) :
    lexeme.Heads c :=
  ⟨by rw [hc, hword], fun h => absurd h (ne_of_isWordChar hc (by decide)),
    fun h => absurd h (ne_of_isWordChar hc (by decide))⟩

theorem exists_heads (hvalid : lexeme.Valid vocabulary) :
    ∃ c, (lexeme.text vocabulary.keywords).head? = some c ∧ lexeme.Heads c := by
  cases lexeme with
  | keyword kind =>
    obtain ⟨phrase, hmem, rfl⟩ := hvalid
    have hall : ∀ phrase ∈ vocabulary.keywords.phrases,
        (vocabulary.keywords.spelling phrase.kind).toList.head?.any isWordChar = true := by
      cases vocabulary <;> decide +kernel
    have hhead := hall phrase hmem
    rw [text]
    cases hchars : (vocabulary.keywords.spelling phrase.kind).toList with
    | nil => simp [hchars] at hhead
    | cons c rest => exact ⟨c, rfl, heads_of_isWordChar (by simpa [hchars] using hhead) rfl⟩
  | sign kind =>
    have hsign : ∃ c, kind.signText.head? = some c ∧ isWordChar c = (sign kind).isWord ∧
        (c = '.' → kind = .dot) ∧ (c = '=' → kind = .assign ∨ kind = .equal) := by
      cases kind <;> first
        | exact absurd rfl hvalid
        | exact ⟨_, rfl, by decide, by decide, by decide⟩
    obtain ⟨c, hc, hword, hpoint, hequal⟩ := hsign
    refine ⟨c, hc, hword, fun h => congrArg sign (hpoint h), fun h => ?_⟩
    exact (hequal h).imp (congrArg sign) (congrArg sign)
  | name word =>
    have hname : IsName word := hvalid
    obtain ⟨hne, hchars⟩ := hname.isWordChar
    cases hword : word.toList with
    | nil => exact absurd hword hne
    | cons c rest =>
      exact ⟨c, by rw [text, hword]; rfl, heads_of_isWordChar (hchars c (by simp [hword])) rfl⟩
  | number digits value =>
    obtain ⟨c, tail, rfl, hc, -⟩ := IsNumeral.exists_digit hvalid
    exact ⟨c, rfl, heads_of_isWordChar (isWordChar_of_isDigit hc) rfl⟩
  | boolean value => cases value <;> exact ⟨_, rfl, heads_of_isWordChar (by decide) rfl⟩
  | string quote value =>
    refine ⟨quote, rfl, ?_⟩
    have hword : isWordChar quote = false ∧ quote ≠ '.' ∧ quote ≠ '=' := by
      rcases IsQuotable.quote_cases hvalid with rfl | rfl <;> decide
    exact ⟨hword.1, fun h => absurd h hword.2.1, fun h => absurd h hword.2.2⟩
  | array items =>
    have hword : isWordChar '[' = false := by decide
    exact ⟨'[', rfl, hword, fun h => absurd h (by decide), fun h => absurd h (by decide)⟩

/-- A lexeme that is no word does not end with a word character, and a name does. -/
theorem getLast?_text (hvalid : lexeme.Valid vocabulary) :
    (lexeme.isWord = false →
      (lexeme.text vocabulary.keywords).getLast?.any isWordChar = false) ∧
    (∀ word, lexeme = .name word →
      (lexeme.text vocabulary.keywords).getLast?.any isWordChar = true) := by
  cases lexeme with
  | keyword _ | number _ _ | boolean _ => exact ⟨fun h => (by cases h), fun _ h => (by cases h)⟩
  | sign kind =>
    refine ⟨fun h => ?_, fun _ h => (by cases h)⟩
    rw [text]
    cases kind <;> first | exact absurd h (by decide) | decide
  | name word =>
    refine ⟨fun h => (by cases h), fun _ _ => ?_⟩
    have hname : IsName word := hvalid
    obtain ⟨hne, hchars⟩ := hname.isWordChar
    rw [text, List.getLast?_eq_some_getLast hne]
    exact hchars _ (List.getLast_mem hne)
  | string quote value =>
    refine ⟨fun _ => ?_, fun _ h => (by cases h)⟩
    rw [text, ← List.cons_append, List.getLast?_concat]
    rcases IsQuotable.quote_cases hvalid with rfl | rfl <;> decide
  | array items =>
    refine ⟨fun _ => ?_, fun _ h => (by cases h)⟩
    rw [text, arrayText, ← List.cons_append, List.getLast?_concat]
    decide

/-- Two words clash. -/
theorem isWord_of_clashes {left right : Lexeme} (hleft : left.isWord = true)
    (h : left.clashes right = false) : right.isWord = false := by
  unfold clashes at h
  split at h <;> simp_all [isWord]

end Lexeme

namespace Piece

open Segment

variable {vocabulary : Vocabulary}

/-- What stands first after a lexeme on its line: nothing, a blank, or a lexeme that does not clash
with it. -/
theorem head_text_cases {lexeme : Lexeme} {pieces : List Piece} {trailing : List Char}
    (h : Admissible (some lexeme) pieces) (hvalid : ∀ piece ∈ pieces, piece.lexeme.Valid vocabulary)
    (htrailing : IsGap trailing) {c : Char}
    (hc : c ∈ (text vocabulary.keywords pieces ++ trailing).head?) :
    isBlank c = true ∨
      ∃ next : Lexeme, next.Heads c ∧ (lexeme.clashes next = false ∨
        next = .sign .leftBracket ∧ ∃ word, lexeme = .name word) := by
  cases pieces with
  | nil =>
    have hmem : c ∈ trailing := List.mem_of_mem_head? (by simpa [text] using hc)
    exact .inl (htrailing c hmem).1
  | cons piece pieces =>
    obtain ⟨hgap, hfits, -⟩ := h
    cases hblanks : piece.gap with
    | cons blank gap =>
      obtain rfl : blank = c := by simpa [text, hblanks] using hc
      exact .inl (hgap blank (by simp [hblanks])).1
    | nil =>
      obtain ⟨first, hfirst, hheads⟩ := Lexeme.exists_heads (hvalid piece (by simp))
      have hchar : first = c := by
        simpa [text, hblanks, List.head?_append, hfirst] using hc
      subst hchar
      refine .inr ⟨piece.lexeme, hheads, ?_⟩
      -- Without blanks between them, the two lexemes touch.
      unfold FitsAfter at hfits
      split at hfits
      next hbracket =>
        obtain ⟨-, word, hword⟩ := hfits
        exact .inr ⟨hbracket, word, Option.some.inj hword⟩
      next => exact .inl (by simpa using hfits hblanks)

/-- On its line, a lexeme ends. -/
theorem ends_of_admissible {lexeme : Lexeme} {pieces : List Piece} {trailing : List Char}
    (h : Admissible (some lexeme) pieces) (hvalid : ∀ piece ∈ pieces, piece.lexeme.Valid vocabulary)
    (htrailing : IsGap trailing) : lexeme.Ends (text vocabulary.keywords pieces ++ trailing) where
  word hword c hc := by
    rcases head_text_cases h hvalid htrailing hc with hblank | ⟨next, hheads, hclash | ⟨rfl, -⟩⟩
    · simp [isWordChar_of_isBlank hblank]
    · simp [hheads.word, Lexeme.isWord_of_clashes hword hclash]
    · have hnot : isWordChar c = false := hheads.word
      simp [hnot]
  point digits value hnumber c hc := by
    subst hnumber
    rcases head_text_cases h hvalid htrailing hc with
      hblank | ⟨next, hheads, hclash | ⟨-, word, hname⟩⟩
    · simpa using ne_of_isBlank hblank (by decide)
    · by_contra hpoint
      rw [hheads.point (by simpa using hpoint)] at hclash
      cases hclash
    · cases hname
  equal hassign c hc := by
    subst hassign
    rcases head_text_cases h hvalid htrailing hc with
      hblank | ⟨next, hheads, hclash | ⟨-, word, hname⟩⟩
    · simpa using ne_of_isBlank hblank (by decide)
    · by_contra hequal
      rcases hheads.equal (by simpa using hequal) with hnext | hnext
      · rw [hnext] at hclash
        cases hclash
      · rw [hnext] at hclash
        cases hclash
    · cases hname

/-- On its line, a lexeme starts as it should. -/
theorem starts_of_fitsAfter {previous : Option Lexeme} {piece : Piece} (hgap : IsGap piece.gap)
    (hfits : piece.FitsAfter previous)
    (hvalid : ∀ lexeme ∈ previous, lexeme.Valid vocabulary) :
    Lexeme.Starts (piece.gap.getLast?.or
      (previous.bind fun lexeme => (lexeme.text vocabulary.keywords).getLast?)) piece.lexeme where
  array items harray := by
    unfold FitsAfter at hfits
    rw [harray] at hfits
    cases hlast : piece.gap.getLast? with
    | some c =>
      have hblank : isBlank c = true := (hgap c (List.mem_of_getLast? hlast)).1
      simp [isWordChar_of_isBlank hblank]
    | none =>
      rw [Option.none_or]
      cases previous with
      | none => rfl
      | some left =>
        -- A list literal touches no word, or its bracket would be that of an index.
        have hclash : left.clashes (.array items) = false := by
          simpa using hfits (List.getLast?_eq_none_iff.mp hlast)
        have hword : left.isWord = false := by
          unfold Lexeme.clashes at hclash
          split at hclash <;> simp_all
        exact (Lexeme.getLast?_text (hvalid left (by simp))).1 hword
  bracket hbracket := by
    unfold FitsAfter at hfits
    rw [hbracket] at hfits
    obtain ⟨hnone, word, rfl⟩ := hfits
    rw [hnone]
    exact (Lexeme.getLast?_text (hvalid _ rfl)).2 word rfl

/-- A line of an admissible layout is cut into the segments of its lexemes. -/
theorem cut_pieces {previous : Option Lexeme} {pieces : List Piece} {trailing : List Char}
    (h : Admissible previous pieces) (hprevious : ∀ lexeme ∈ previous, lexeme.Valid vocabulary)
    (hvalid : ∀ piece ∈ pieces, piece.lexeme.Valid vocabulary) (htrailing : IsGap trailing) :
    Cut (previous.bind fun lexeme => (lexeme.text vocabulary.keywords).getLast?)
      (text vocabulary.keywords pieces ++ trailing)
      (pieces.flatMap fun piece => piece.lexeme.contents vocabulary.keywords) := by
  induction pieces generalizing previous with
  | nil =>
    have hgap := Cut.gap htrailing (cut_nil (trailing.getLast?.or
      (previous.bind fun lexeme => (lexeme.text vocabulary.keywords).getLast?)))
    simpa [text] using hgap
  | cons piece pieces ih =>
    obtain ⟨hgap, hfits, hrest⟩ := h
    have hpiece : piece.lexeme.Valid vocabulary := hvalid piece (by simp)
    have hpieces : ∀ piece ∈ pieces, piece.lexeme.Valid vocabulary := fun other hmem =>
      hvalid other (List.mem_cons_of_mem piece hmem)
    have hcut := ih hrest (by simpa using hpiece) hpieces
    have hline : text vocabulary.keywords (piece :: pieces) ++ trailing =
        piece.gap ++ (piece.lexeme.text vocabulary.keywords ++
          (text vocabulary.keywords pieces ++ trailing)) := by
      simp [text]
    rw [hline, List.flatMap_cons]
    refine Cut.gap hgap
      (Lexeme.cut_lexeme hpiece (starts_of_fitsAfter hgap hfits hprevious) ?_ hcut)
    exact ends_of_admissible hrest hpieces htrailing

end Piece

end LineScript
