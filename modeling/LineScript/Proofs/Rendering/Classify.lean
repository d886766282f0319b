import LineScript.Proofs.Rendering.Derives
import LineScript.Proofs.Rendering.Segments

/-!
# What the segments of a lexeme stand for

The segments of a line are put together to the tokens of its lexemes (`tokens_of_lexemes`). At a
keyword the longest phrase that fits is its own: no lexeme begins with a word that would continue it
to another one. At any other lexeme no phrase fits, and its one segment stands for its value.
-/

namespace LineScript

open Text Segment

variable {vocabulary : Vocabulary}

/-! ### Phrases -/

namespace Phrase

variable {phrases : List Phrase} {segments rest : List Segment} {phrase : Phrase}

/-- Once the longest phrase is found, it stays. -/
theorem foldl_longest_of_best {best : Option Phrase → Phrase → Option Phrase}
    (hbest : best = fun best phrase =>
      if phrase.fits segments && best.all (·.words.length < phrase.words.length) then some phrase
      else best)
    (h : ∀ other ∈ phrases, other.fits segments = true →
      other = phrase ∨ other.words.length < phrase.words.length) :
    phrases.foldl best (some phrase) = some phrase := by
  induction phrases with
  | nil => rfl
  | cons other phrases ih =>
    have hstep : best (some phrase) other = some phrase := by
      rw [hbest]
      dsimp only
      rw [if_neg]
      simp only [Option.all_some, Bool.and_eq_true, decide_eq_true_eq, not_and, Nat.not_lt]
      intro hfits
      rcases h other (by simp) hfits with rfl | hshorter
      · exact Nat.le_refl _
      · exact Nat.le_of_lt hshorter
    rw [List.foldl_cons, hstep]
    exact ih fun other hmem => h other (List.mem_cons_of_mem _ hmem)

/-- The longest phrase that fits is the one that is longer than all others that fit. -/
theorem longest?_eq_some (hmem : phrase ∈ phrases) (hfits : phrase.fits segments = true)
    (h : ∀ other ∈ phrases, other.fits segments = true →
      other = phrase ∨ other.words.length < phrase.words.length) :
    longest? phrases segments = some phrase := by
  -- Before the phrase itself comes, only shorter ones can have been found.
  have hfound : ∀ best : Option Phrase, (∀ found ∈ best, found.words.length < phrase.words.length) →
      phrases.foldl (fun best phrase =>
        if phrase.fits segments && best.all (·.words.length < phrase.words.length) then some phrase
        else best) best = some phrase := by
    induction phrases with
    | nil => cases hmem
    | cons other phrases ih =>
      intro best hbest
      rw [List.foldl_cons]
      have hrest : ∀ other ∈ phrases, other.fits segments = true →
          other = phrase ∨ other.words.length < phrase.words.length :=
        fun other hmem => h other (List.mem_cons_of_mem _ hmem)
      by_cases hother : other = phrase
      · subst hother
        rw [if_pos]
        · exact foldl_longest_of_best rfl hrest
        · rw [hfits, Bool.true_and]
          cases best with
          | none => rfl
          | some found => simpa using hbest found rfl
      · have hlater : phrase ∈ phrases := (List.mem_cons.mp hmem).resolve_left (Ne.symm hother)
        refine ih hlater hrest _ fun found hfound => ?_
        split at hfound
        next hcondition =>
          obtain rfl : other = found := by simpa using hfound
          simp only [Bool.and_eq_true] at hcondition
          exact (h other (by simp) hcondition.1).resolve_left hother
        next => exact hbest found hfound
  exact hfound none (by simp)

theorem longest?_eq_none (h : ∀ phrase ∈ phrases, phrase.fits segments = false) :
    longest? phrases segments = none := by
  unfold longest?
  induction phrases with
  | nil => rfl
  | cons phrase phrases ih =>
    rw [List.foldl_cons, h phrase (by simp), Bool.false_and, if_neg Bool.false_ne_true]
    exact ih fun other hmem => h other (List.mem_cons_of_mem _ hmem)

/-- Words that fit at the segments of other words are the first of them, or go on with what
follows. -/
theorem wordsFit_cases {words others : List (List Char)}
    (hsegments : segments.map content = words.map fun word => (.word, word))
    (h : wordsFit others (segments ++ rest) = true) :
    others <+: words ∨ ∃ word more, others = words ++ word :: more ∧
      rest.head?.map content = some (.word, word) := by
  induction words generalizing segments others with
  | nil =>
    obtain rfl : segments = [] := by simpa using hsegments
    cases others with
    | nil => exact .inl (List.prefix_refl [])
    | cons word more =>
      refine .inr ⟨word, more, rfl, ?_⟩
      cases rest with
      | nil => simp [wordsFit] at h
      | cons segment rest =>
        -- All the words are used up, so the next one is matched by what follows them.
        simp only [List.nil_append, wordsFit, isWord, Bool.and_eq_true, decide_eq_true_eq] at h
        simp [content, h.1.1, h.1.2]
  | cons first words ih =>
    cases segments with
    | nil => simp at hsegments
    | cons segment segments =>
      simp only [List.map_cons, List.cons.injEq] at hsegments
      cases others with
      | nil => exact .inl List.nil_prefix
      | cons other others =>
        simp only [List.cons_append, wordsFit, isWord, Bool.and_eq_true, decide_eq_true_eq] at h
        have hword : other = first := by
          rw [← h.1.2]
          exact congrArg Prod.snd hsegments.1
        subst hword
        rcases ih hsegments.2 h.2 with hbegins | ⟨word, more, rfl, hrest⟩
        · exact .inl (List.cons_prefix_cons.mpr ⟨rfl, hbegins⟩)
        · exact .inr ⟨word, more, rfl, hrest⟩

theorem wordsFit_append {words : List (List Char)}
    (hsegments : segments.map content = words.map fun word => (.word, word)) :
    wordsFit words (segments ++ rest) = true := by
  induction words generalizing segments with
  | nil => rfl
  | cons first words ih =>
    cases segments with
    | nil => simp at hsegments
    | cons segment segments =>
      simp only [List.map_cons, List.cons.injEq] at hsegments
      have hshape : segment.shape = .word := congrArg Prod.fst hsegments.1
      have htext : segment.text = first := congrArg Prod.snd hsegments.1
      simp [wordsFit, isWord, hshape, htext, ih hsegments.2]

end Phrase

/-- The words that make one phrase the beginning of another. -/
def Keywords.extensions (keywords : Keywords) : List (List Char) :=
  keywords.phrases.flatMap fun phrase => keywords.phrases.filterMap fun longer =>
    if phrase.words <+: longer.words then longer.words[phrase.words.length]? else none

/-- A keyword is the longest phrase at its words, unless what follows makes it another one. -/
theorem longest?_of_keyword {phrase : Phrase} (hmem : phrase ∈ vocabulary.keywords.phrases)
    {segments rest : List Segment}
    (hsegments : segments.map content = phrase.words.map fun word => (.word, word))
    (hrest : ∀ word, rest.head?.map content = some (.word, word) →
      word ∉ vocabulary.keywords.extensions) :
    Phrase.longest? vocabulary.keywords.phrases (segments ++ rest) = some phrase := by
  have hshorter : ∀ phrase ∈ vocabulary.keywords.phrases, ∀ other ∈ vocabulary.keywords.phrases,
      other.words <+: phrase.words →
        other = phrase ∨ other.words.length < phrase.words.length := by
    cases vocabulary <;> decide +kernel
  refine Phrase.longest?_eq_some hmem (Phrase.wordsFit_append hsegments)
    fun other hother hfits => ?_
  rcases Phrase.wordsFit_cases hsegments hfits with hbegins | ⟨word, more, hwords, hhead⟩
  · exact hshorter phrase hmem other hother hbegins
  · refine absurd ?_ (hrest word hhead)
    refine List.mem_flatMap.mpr ⟨phrase, hmem, List.mem_filterMap.mpr ⟨other, hother, ?_⟩⟩
    rw [if_pos (hwords ▸ List.prefix_append _ _), hwords]
    simp

/-- A word that no phrase begins with, or what is no word, is part of no phrase. -/
theorem longest?_of_single {segment : Segment} {rest : List Segment}
    (h : segment.shape = .word →
      ∀ phrase ∈ vocabulary.keywords.phrases, phrase.first ≠ segment.text) :
    Phrase.longest? vocabulary.keywords.phrases (segment :: rest) = none := by
  refine Phrase.longest?_eq_none fun phrase hmem => ?_
  by_contra hfits
  simp only [Phrase.fits, Phrase.words, Phrase.wordsFit, isWord, Bool.not_eq_false,
    Bool.and_eq_true, decide_eq_true_eq] at hfits
  exact h hfits.1.1 phrase hmem hfits.1.2.symm

/-! ### What lexemes stand for -/

/-- What does not begin with a digit or a point is no number. -/
theorem readNumber?_eq_none {c : Char} {rest : List Char} (hdigit : c.isDigit = false)
    (hpoint : c ≠ '.') : readNumber? (c :: rest) = none := by
  have hliteral : Decimal.isLiteral (c :: rest) = false := by
    by_contra hnot
    simp [Decimal.isLiteral, hdigit, hpoint] at hnot
  simp [readNumber?, Decimal.ofLiteral?, hliteral]

theorem readNumber?_of_isName {text : String} (h : IsName text) :
    readNumber? text.toList = none := by
  have hdigit := h.not_digit
  obtain ⟨hne, hchars⟩ := h.isWordChar
  cases hword : text.toList with
  | nil => exact absurd hword hne
  | cons c rest =>
    have hc : isWordChar c = true := hchars c (by simp [hword])
    rw [hword] at hdigit
    exact readNumber?_eq_none (by simpa using hdigit) (ne_of_isWordChar hc (by decide))

/-- A numeral is no word that begins with anything else than a digit. -/
theorem IsNumeral.ne {text word : List Char} {value : Float} (h : IsNumeral text value)
    (hword : word.head?.any Char.isDigit = false) : text ≠ word := by
  rintro rfl
  simp [h.digit] at hword

theorem classifyWord_of_isName {text : String} (h : IsName text) :
    classifyWord text.toList = .ok (.identifier, .text text) := by
  have hreserved {word : List Char} (hword : word ∈ reservedWords) : text.toList ≠ word :=
    fun heq => h.unreserved (heq ▸ hword)
  rw [classifyWord, if_neg (hreserved (by decide +kernel)), if_neg (hreserved (by decide +kernel)),
    if_neg (hreserved (by decide +kernel)), if_neg (hreserved (by decide +kernel)),
    if_neg (hreserved (by decide +kernel)), readNumber?_of_isName h]
  dsimp only
  rw [if_pos h.identifier, String.ofList_toList]

theorem classifyWord_of_isNumeral {text : List Char} {value : Float} (h : IsNumeral text value) :
    classifyWord text = .ok (.number, .number value) := by
  rw [classifyWord, if_neg (h.ne (by decide)), if_neg (h.ne (by decide)), if_neg (h.ne (by decide)),
    if_neg (h.ne (by decide)), if_neg (h.ne (by decide)), h.spells]

/-! ### List literals -/

theorem inner_quoted (first last : Char) (text : List Char) :
    inner (first :: (text ++ [last])) = text := by
  simp [inner]

theorem isQuotation_of_head {c : Char} {rest : List Char} (hc : isQuote c = false) :
    isQuotation (c :: rest) = false := by
  cases rest with
  | nil => rfl
  | cons d rest => simp [isQuotation, hc]

theorem ofItem_of_isNumeral {text : List Char} {value : Float} (h : IsNumeral text value) :
    Literal.ofItem text = .ok (.number value) := by
  obtain ⟨c, tail, rfl, hc, -⟩ := h.exists_digit
  have hquotation : isQuotation (c :: tail) = false :=
    isQuotation_of_head (isQuote_of_isWordChar (isWordChar_of_isDigit hc))
  unfold Literal.ofItem
  rw [hquotation, if_neg Bool.false_ne_true, if_neg (h.ne (by decide)), if_neg (h.ne (by decide)),
    h.spells]

/-- Items are read as what they stand for. -/
theorem ofItem_of_isItem {text : List Char} {literal : Literal} (h : IsItem text literal) :
    Literal.ofItem text = .ok literal := by
  match literal, h with
  | .number value, .inl hnumeral => exact ofItem_of_isNumeral hnumeral
  | .number value, .inr ⟨digits, opposite, htext, hnumeral, hvalue⟩ =>
    subst htext hvalue
    -- With its sign the text spells no number, so the digits after the sign are looked at.
    have hquotation : isQuotation ('-' :: digits) = false := isQuotation_of_head (by decide)
    have hnone : readNumber? ('-' :: digits) = none := readNumber?_eq_none (by decide) (by decide)
    unfold Literal.ofItem
    rw [hquotation, if_neg Bool.false_ne_true, if_neg (by simp), if_neg (by simp), hnone]
    simp only [hnumeral.spells]
  | .string value, ⟨quote, hquotable, htext⟩ =>
    subst htext
    have hquotation : isQuotation (quote :: (value.toList ++ [quote])) = true := by
      have hlast : (value.toList ++ [quote]).getLast? = some quote := List.getLast?_concat
      cases hvalue : value.toList ++ [quote] with
      | nil => simp at hvalue
      | cons c rest =>
        rw [hvalue] at hlast
        simp [isQuotation, hquotable.isQuote, hlast]
    unfold Literal.ofItem
    rw [if_pos hquotation, inner_quoted, String.ofList_toList]
  | .boolean value, htext =>
    rw [show text = (toString value).toList from htext]
    cases value <;> rfl
  | .identifier word, ⟨hname, htext⟩ =>
    subst htext
    have hreserved {word' : List Char} (hword : word' ∈ reservedWords) : word.toList ≠ word' :=
      fun heq => hname.unreserved (heq ▸ hword)
    obtain ⟨hne, hchars⟩ := hname.isWordChar
    obtain ⟨c, rest, hword⟩ := List.exists_cons_of_ne_nil hne
    have hc : isWordChar c = true := hchars c (by simp [hword])
    have hquotation : isQuotation word.toList = false := by
      rw [hword]
      exact isQuotation_of_head (isQuote_of_isWordChar hc)
    have hminus : c ≠ '-' := ne_of_isWordChar hc (by decide)
    unfold Literal.ofItem
    rw [hquotation, if_neg Bool.false_ne_true, if_neg (hreserved (by decide +kernel)),
      if_neg (hreserved (by decide +kernel)), readNumber?_of_isName hname]
    have hidentifier := hname.identifier
    rw [hword] at hidentifier ⊢
    split
    · next heq => cases heq
    · next digits _ heq => exact absurd (List.cons.inj heq).1 hminus
    · next =>
      rw [if_pos hidentifier, ← hword, String.ofList_toList]

/-- The outer characters of an item are no blanks. -/
theorem ends_of_isItem {text : List Char} {literal : Literal} (h : IsItem text literal) :
    (∃ first, text.head? = some first ∧ isBlank first = false) ∧
      ∃ last, text.getLast? = some last ∧ isBlank last = false := by
  -- All items but texts in quotes have no blanks at all.
  have hnone (hne : text ≠ []) (hblank : ∀ c ∈ text, isBlank c = false) :
      (∃ first, text.head? = some first ∧ isBlank first = false) ∧
        ∃ last, text.getLast? = some last ∧ isBlank last = false :=
    ⟨⟨text.head hne, List.head?_eq_some_head hne, hblank _ (List.head_mem hne)⟩,
      ⟨text.getLast hne, List.getLast?_eq_some_getLast hne, hblank _ (List.getLast_mem hne)⟩⟩
  have hnumeral {digits : List Char} {value : Float} (hdigits : IsNumeral digits value) :
      digits ≠ [] ∧ ∀ c ∈ digits, isBlank c = false := by
    obtain ⟨c, tail, rfl, hc, htail⟩ := hdigits.exists_digit
    refine ⟨by simp, fun d hd => ?_⟩
    rcases List.mem_cons.mp hd with rfl | hmem
    · exact isBlank_of_isWordChar (isWordChar_of_isDigit hc)
    · rcases htail d hmem with hdigit | rfl
      · exact isBlank_of_isWordChar (isWordChar_of_isDigit hdigit)
      · decide
  match literal, h with
  | .number value, .inl hdigits => exact hnone (hnumeral hdigits).1 (hnumeral hdigits).2
  | .number value, .inr ⟨digits, opposite, htext, hdigits, _⟩ =>
    subst htext
    refine hnone (by simp) fun c hc => ?_
    rcases List.mem_cons.mp hc with rfl | hmem
    · decide
    · exact (hnumeral hdigits).2 c hmem
  | .string value, ⟨quote, hquotable, htext⟩ =>
    subst htext
    refine ⟨⟨quote, rfl, hquotable.isBlank⟩, quote, ?_, hquotable.isBlank⟩
    rw [← List.cons_append, List.getLast?_concat]
  | .boolean value, htext =>
    rw [show text = (toString value).toList from htext] at hnone ⊢
    exact hnone (wordChars_boolean value).1 fun c hc =>
      isBlank_of_isWordChar ((wordChars_boolean value).2 c hc)
  | .identifier word, ⟨hname, htext⟩ =>
    subst htext
    exact hnone hname.isWordChar.1 fun c hc => isBlank_of_isWordChar (hname.isWordChar.2 c hc)

/-- An item is what remains of it, or of it after a blank, without outer blanks. -/
theorem trim_of_isItem {text : List Char} {literal : Literal} (h : IsItem text literal) :
    trim text = text ∧ trim (' ' :: text) = text := by
  obtain ⟨⟨first, hfirst, hfirstBlank⟩, last, hlast, hlastBlank⟩ := ends_of_isItem h
  have hleft : trimLeft text = text := by
    obtain ⟨tail, rfl⟩ := List.head?_eq_some_iff.mp hfirst
    simp [trimLeft, hfirstBlank]
  have hblank : trimLeft (' ' :: text) = trimLeft text := by
    have hspace : isBlank ' ' = true := by decide
    simp [trimLeft, hspace]
  have hright : trimRight text = text := by
    have hreverse : text.reverse.head? = some last := by rw [List.head?_reverse, hlast]
    obtain ⟨tail, htail⟩ := List.head?_eq_some_iff.mp hreverse
    rw [trimRight, htail, List.dropWhile_cons_of_neg (by simp [hlastBlank]), ← htail,
      List.reverse_reverse]
  rw [trim, trim, hblank, hleft, hright]
  exact ⟨rfl, rfl⟩

theorem mapM_of_forall₂ {α β : Type} {f : α → Except Defect β} {xs : List α} {ys : List β}
    (h : List.Forall₂ (fun x y => f x = .ok y) xs ys) : xs.mapM f = .ok ys := by
  induction h with
  | nil => rfl
  | cons hhead _ ih =>
    rw [List.mapM_cons, hhead, ih]
    rfl

/-- A list literal is read as its items. -/
theorem listOf_arrayText {items : List (List Char × Literal)}
    (h : ∀ item ∈ items, IsItem item.1 item.2) :
    Literal.listOf (Lexeme.arrayText (items.map Prod.fst)) = .ok (items.map Prod.snd) := by
  rw [Literal.listOf, Lexeme.arrayText, inner_quoted]
  cases items with
  | nil => rfl
  | cons item items =>
    obtain ⟨⟨first, hfirst, hblank⟩, -⟩ := ends_of_isItem (h item (by simp))
    have hnotBlank :
        isBlankText ([',', ' '].intercalate ((item :: items).map Prod.fst)) = false := by
      obtain ⟨tail, htail⟩ := List.head?_eq_some_iff.mp hfirst
      have hmem : first ∈ [',', ' '].intercalate ((item :: items).map Prod.fst) := by
        cases items <;> simp [List.intercalate, htail]
      rw [isBlankText, List.all_eq_false]
      exact ⟨first, hmem, by simp [hblank]⟩
    have hclear : ∀ piece ∈ (item :: items).map Prod.fst, clear (· == ',') none piece = true := by
      intro piece hpiece
      obtain ⟨other, hother, rfl⟩ := List.mem_map.mp hpiece
      refine Lexeme.clear_item (fun c hc => ?_) (h other hother)
      obtain rfl : c = ',' := by simpa using hc
      decide
    have hcut := cutItems_intercalate (List.map_cons ▸ hclear)
    rw [hnotBlank, if_neg Bool.false_ne_true, itemsOf, List.map_cons, hcut]
    refine mapM_of_forall₂ (.cons ?_ ?_)
    · rw [(trim_of_isItem (h item (by simp))).1]
      exact ofItem_of_isItem (h item (by simp))
    · rw [List.map_map, List.forall₂_map_left_iff, List.forall₂_map_right_iff, List.forall₂_same]
      intro other hother
      have hitem := h other (List.mem_cons_of_mem _ hother)
      rw [Function.comp_apply, (trim_of_isItem hitem).2]
      exact ofItem_of_isItem hitem

/-! ### Tokens of lexemes -/

/-- The words of the phrases. -/
def Keywords.phraseWords (keywords : Keywords) : List (List Char) :=
  keywords.phrases.flatMap Phrase.words

theorem mem_phraseWords_of_mem_extensions {word : List Char}
    (h : word ∈ vocabulary.keywords.extensions) : word ∈ vocabulary.keywords.phraseWords := by
  have hall : ∀ word ∈ vocabulary.keywords.extensions, word ∈ vocabulary.keywords.phraseWords := by
    cases vocabulary <;> decide +kernel
  exact hall word h

theorem mem_reservedWords_of_mem_phraseWords {word : List Char}
    (h : word ∈ vocabulary.keywords.phraseWords) : word ∈ reservedWords := by
  refine List.mem_append_left _ (List.mem_flatMap.mpr ⟨vocabulary, ?_, h⟩)
  cases vocabulary <;> decide

/-- The operators and truth values that are words are part of no phrase. -/
theorem not_mem_phraseWords {word : List Char}
    (h : word ∈ ["and", "or", "not", "true", "false"].map String.toList) :
    word ∉ vocabulary.keywords.phraseWords := by
  have hall : ∀ word ∈ ["and", "or", "not", "true", "false"].map String.toList,
      word ∉ vocabulary.keywords.phraseWords := by
    cases vocabulary <;> decide +kernel
  exact hall word h

namespace Lexeme

/-- A segment that is read as the lexeme wherever it stands. -/
structure StandsFor (vocabulary : Vocabulary) (segment : Segment) (lexeme : Lexeme) : Prop where
  /-- It is no part of a phrase. -/
  unphrased : segment.shape = .word → segment.text ∉ vocabulary.keywords.phraseWords
  /-- It stands for the value of the lexeme. -/
  classified : ∃ kind payload, segment.classify = .ok (kind, payload) ∧
    ∀ line span, lexeme.ReadAs ⟨kind, payload, line, span⟩

theorem standsFor_sign {kind : Token.Kind} (htext : kind.signText ≠ []) (start : Nat) :
    StandsFor vocabulary ⟨if (sign kind).isWord then .word else .mark, kind.signText, start⟩
      (sign kind) := by
  have hclassify : classify ⟨if (sign kind).isWord then .word else .mark, kind.signText, start⟩ =
      .ok (kind, .text (String.ofList kind.signText)) := by
    cases kind <;> first | rfl | exact absurd rfl htext
  refine ⟨fun hshape => not_mem_phraseWords ?_, kind, _, hclassify, fun line span => ⟨rfl, ?_⟩⟩
  · show kind.signText ∈ _
    cases kind <;> first | decide | cases hshape
  · cases kind <;> first | rfl | exact absurd rfl htext

/-- A lexeme that is no keyword is one segment, and what it stands for is known from it. -/
theorem standsFor_of_valid {lexeme : Lexeme} (hvalid : lexeme.Valid vocabulary)
    (hkeyword : ∀ kind, lexeme ≠ .keyword kind) {segments : List Segment}
    (h : segments.map content = lexeme.contents vocabulary.keywords) :
    ∃ segment, segments = [segment] ∧ StandsFor vocabulary segment lexeme := by
  have hsingle {shape : Shape} {text : List Char} (h : segments.map content = [(shape, text)]) :
      ∃ start, segments = [⟨shape, text, start⟩] := by
    obtain ⟨segment, rfl, hsegment⟩ := List.map_eq_singleton_iff.mp h
    obtain ⟨rfl, rfl⟩ := Prod.mk.inj hsegment
    exact ⟨segment.start, rfl⟩
  cases lexeme with
  | keyword kind => exact absurd rfl (hkeyword kind)
  | sign kind =>
    obtain ⟨start, rfl⟩ := hsingle h
    exact ⟨_, rfl, standsFor_sign hvalid start⟩
  | name text =>
    obtain ⟨start, rfl⟩ := hsingle h
    refine ⟨_, rfl, fun _ hmem => ?_, .identifier, .text text, classifyWord_of_isName hvalid,
      fun _ _ => ⟨rfl, rfl⟩⟩
    exact hvalid.unreserved (mem_reservedWords_of_mem_phraseWords hmem)
  | number text value =>
    obtain ⟨start, rfl⟩ := hsingle h
    refine ⟨_, rfl, fun _ hmem => ?_, .number, .number value, classifyWord_of_isNumeral hvalid,
      fun _ _ => ⟨rfl, rfl⟩⟩
    -- No word of a phrase begins with a digit.
    have hall : ∀ word ∈ vocabulary.keywords.phraseWords, word.head?.any Char.isDigit = false := by
      cases vocabulary <;> decide +kernel
    exact hvalid.ne (hall text hmem) rfl
  | boolean value =>
    obtain ⟨start, rfl⟩ := hsingle h
    refine ⟨_, rfl, fun _ => not_mem_phraseWords ?_, .boolean, .boolean value, ?_,
      fun _ _ => ⟨rfl, rfl⟩⟩
    · show (toString value).toList ∈ _
      cases value <;> decide
    · cases value <;> rfl
  | string quote value =>
    obtain ⟨start, rfl⟩ := hsingle h
    refine ⟨_, rfl, nofun, .string, .string value, ?_, fun _ _ => ⟨rfl, rfl⟩⟩
    rw [classify, inner_quoted, String.ofList_toList]
  | array items =>
    obtain ⟨start, rfl⟩ := hsingle h
    refine ⟨_, rfl, nofun, .array, .array (items.map Prod.snd), ?_,
      fun _ _ => ⟨rfl, rfl⟩⟩
    rw [classify, listOf_arrayText hvalid]
    rfl

/-- The first word of a lexeme does not make the phrase before it another one. -/
theorem head_not_mem_extensions {lexeme : Lexeme} (hvalid : lexeme.Valid vocabulary)
    {word : List Char} (h : (lexeme.contents vocabulary.keywords).head? = some (.word, word)) :
    word ∉ vocabulary.keywords.extensions := by
  by_cases hkeyword : ∃ kind, lexeme = .keyword kind
  · obtain ⟨kind, rfl⟩ := hkeyword
    obtain ⟨phrase, hmem, rfl⟩ := hvalid
    have hfirst : ∀ phrase ∈ vocabulary.keywords.phrases,
        phrase.first ∉ vocabulary.keywords.extensions := by
      cases vocabulary <;> decide +kernel
    rw [contents, (spelling_of_mem_phrases vocabulary phrase hmem).1] at h
    obtain rfl : phrase.first = word := by simpa [Phrase.words] using h
    exact hfirst phrase hmem
  -- Any other lexeme is one segment, and as a word it is no word of a phrase at all.
  · have hcontents : [(⟨.word, word, 0⟩ : Segment)].map content =
        lexeme.contents vocabulary.keywords := by
      cases lexeme with
      | keyword kind => exact absurd ⟨kind, rfl⟩ hkeyword
      | _ => exact congrArg (· :: []) (Option.some.inj h).symm
    obtain ⟨segment, hsegment, hstands⟩ :=
      standsFor_of_valid hvalid (fun kind heq => hkeyword ⟨kind, heq⟩) hcontents
    obtain rfl := List.singleton_inj.mp hsegment
    exact fun hmem => hstands.unphrased rfl (mem_phraseWords_of_mem_extensions hmem)

/-- The segments of a lexeme are put together to its token, unless what follows makes it another
one. -/
theorem tokens_append {lexeme : Lexeme} (hvalid : lexeme.Valid vocabulary)
    {segments rest : List Segment}
    (hsegments : segments.map content = lexeme.contents vocabulary.keywords)
    (hrest : ∀ word, rest.head?.map content = some (.word, word) →
      word ∉ vocabulary.keywords.extensions) :
    ∃ token, lexeme.ReadAs token ∧
      tokens vocabulary.keywords.phrases (segments ++ rest) =
        (tokens vocabulary.keywords.phrases rest).map (token :: ·) := by
  by_cases hkeyword : ∃ kind, lexeme = .keyword kind
  · obtain ⟨kind, rfl⟩ := hkeyword
    obtain ⟨phrase, hmem, rfl⟩ := hvalid
    rw [contents, (spelling_of_mem_phrases vocabulary phrase hmem).1] at hsegments
    have hlongest := longest?_of_keyword hmem hsegments hrest
    have hfits : ∀ phrase ∈ vocabulary.keywords.phrases, phrase.kind.fits (.text "") = true := by
      cases vocabulary <;> decide +kernel
    have hagrees : phrase.kind.fits (.text phrase.text) = true := by
      rw [← hfits phrase hmem]
      cases phrase.kind <;> rfl
    cases segments with
    | nil => simp [Phrase.words] at hsegments
    | cons segment segments =>
      have hlength : segments.length = phrase.others.length := by
        simpa [Phrase.words] using congrArg List.length hsegments
      let last := ((segment :: (segments ++ rest))[phrase.others.length]?).getD segment
      refine ⟨⟨phrase.kind, .text phrase.text, 1, ⟨segment.start, last.stop⟩⟩, ⟨rfl, hagrees⟩, ?_⟩
      rw [List.cons_append] at hlongest ⊢
      rw [tokens, hlongest]
      dsimp only
      rw [List.drop_left' hlength]
  · obtain ⟨segment, rfl, hunphrased, kind, payload, hclassify, hread⟩ :=
      standsFor_of_valid hvalid (fun kind heq => hkeyword ⟨kind, heq⟩) hsegments
    have hlongest : Phrase.longest? vocabulary.keywords.phrases (segment :: rest) = none := by
      refine longest?_of_single fun hword phrase hmem hfirst => hunphrased hword ?_
      exact List.mem_flatMap.mpr ⟨phrase, hmem, hfirst ▸ List.mem_cons_self⟩
    refine ⟨⟨kind, payload, 1, segment.span⟩, hread _ _, ?_⟩
    rw [List.singleton_append, tokens, hlongest]
    dsimp only
    rw [hclassify]

end Lexeme

/-- The segments of lexemes are put together to their tokens. -/
theorem tokens_of_lexemes {lexemes : List Lexeme}
    (hvalid : ∀ lexeme ∈ lexemes, lexeme.Valid vocabulary) {segments : List Segment}
    (h : segments.map content = lexemes.flatMap (·.contents vocabulary.keywords)) :
    ∃ tokens, Segment.tokens vocabulary.keywords.phrases segments = .ok tokens ∧
      Lexeme.ReadAll lexemes tokens := by
  induction lexemes generalizing segments with
  | nil =>
    obtain rfl : segments = [] := by simpa using h
    exact ⟨[], by rw [Segment.tokens], .nil⟩
  | cons lexeme lexemes ih =>
    rw [List.flatMap_cons] at h
    obtain ⟨own, rest, rfl, hown, hrest⟩ := List.map_eq_append_iff.mp h
    have hvalids : ∀ other ∈ lexemes, other.Valid vocabulary :=
      fun other hmem => hvalid other (List.mem_cons_of_mem lexeme hmem)
    obtain ⟨tokens, htokens, hread⟩ := ih hvalids hrest
    -- The first segment of the rest is that of some later lexeme.
    have hnext : ∀ word, rest.head?.map content = some (.word, word) →
        word ∉ vocabulary.keywords.extensions := by
      intro word hword
      rw [← List.head?_map, hrest, List.head?_flatMap] at hword
      obtain ⟨next, hmem, hhead⟩ := List.exists_of_findSome?_eq_some hword
      exact Lexeme.head_not_mem_extensions (hvalids next hmem) hhead
    obtain ⟨token, htoken, heq⟩ := Lexeme.tokens_append (hvalid lexeme (by simp)) hown hnext
    exact ⟨token :: tokens, by rw [heq, htokens]; rfl, .cons htoken hread⟩

end LineScript
