import LineScript.Proofs.Grammar.Parallel
import LineScript.Proofs.Rendering.Segments

/-!
# The slices that the tokens of a line cover

The code of a line is a sequence of slices, one for each token, with nothing but blanks before,
between and after them. `Segment.Laid` says this of the segments that a line is cut into, and
`Token.Spread` of the tokens that the segments are joined to; each follows the recursion that finds
them. What a slice stands for does not depend on the rest of the line (`Token.Reads.face_eq`).
-/

namespace LineScript

open Text

/-- A mapped result comes from a result. -/
theorem exists_of_map_eq_ok {ε α β : Type} {result : Except ε α} {f : α → β} {b : β}
    (h : result.map f = .ok b) : ∃ a, result = .ok a ∧ f a = b := by
  cases result with
  | error e => cases h
  | ok a => exact ⟨a, rfl, Except.ok.inj h⟩

/-- A character of two texts that stand one after the other is in one of them. -/
theorem cases_of_append_eq {left right before after : List Char} {c : Char}
    (h : left ++ right = before ++ c :: after) :
    (∃ more, left = before ++ c :: more ∧ after = more ++ right) ∨
      ∃ more, before = left ++ more ∧ right = more ++ c :: after := by
  rcases List.append_eq_append_iff.mp h with ⟨more, hbefore, hright⟩ | ⟨more, hleft, hafter⟩
  · exact .inr ⟨more, hbefore, hright⟩
  · rcases List.cons_eq_append_iff.mp hafter with ⟨rfl, hright⟩ | ⟨tail, rfl, htail⟩
    · exact .inr ⟨[], by simpa using hleft.symm, hright⟩
    · exact .inl ⟨tail, hleft, htail⟩

/-! ### Runs of blanks -/

namespace Text

/-- A text with every run of blanks reduced to one space. Blanks at its beginning are left out if
they go on with a run. -/
def squeezeAfter (running : Bool) : List Char → List Char
  | [] => []
  | c :: rest =>
    if isBlank c then
      if running then squeezeAfter true rest else ' ' :: squeezeAfter true rest
    else
      c :: squeezeAfter false rest

/-- A text with every run of blanks reduced to one space. -/
def squeeze (text : List Char) : List Char :=
  squeezeAfter false text

example : squeeze "a b \t c".toList = "a b c".toList := by decide

/-- Characters that are not blank are kept, and end a run of blanks. -/
theorem squeezeAfter_append (running : Bool) {text : List Char} (hne : text ≠ [])
    (h : ∀ c ∈ text, isBlank c = false) (rest : List Char) :
    squeezeAfter running (text ++ rest) = text ++ squeeze rest := by
  induction text generalizing running with
  | nil => exact absurd rfl hne
  | cons c text ih =>
    rw [List.cons_append, squeezeAfter, if_neg (by simp [h c List.mem_cons_self])]
    by_cases htext : text = []
    · subst htext
      rfl
    · rw [ih false htext fun d hd => h d (List.mem_cons_of_mem c hd), List.cons_append]

/-- A text without blanks is kept as it is. -/
theorem squeeze_of_forall {text : List Char} (h : ∀ c ∈ text, isBlank c = false) :
    squeeze text = text := by
  by_cases htext : text = []
  · subst htext
    rfl
  · have hwhole := squeezeAfter_append false htext h []
    simpa [squeeze, squeezeAfter] using hwhole

/-- A run of blanks is one space. -/
theorem squeeze_gap {gap : List Char} (hne : gap ≠ []) (h : isBlankText gap = true)
    (rest : List Char) : squeeze (gap ++ rest) = ' ' :: squeezeAfter true rest := by
  have hrun (gap : List Char) (hgap : isBlankText gap = true) :
      squeezeAfter true (gap ++ rest) = squeezeAfter true rest := by
    induction gap with
    | nil => rfl
    | cons c gap ih =>
      simp only [isBlankText, List.all_cons, Bool.and_eq_true] at hgap
      rw [List.cons_append, squeezeAfter, if_pos hgap.1, if_pos rfl]
      exact ih hgap.2
  cases gap with
  | nil => exact absurd rfl hne
  | cons c gap =>
    simp only [isBlankText, List.all_cons, Bool.and_eq_true] at h
    rw [List.cons_append, squeeze, squeezeAfter, if_pos h.1, if_neg Bool.false_ne_true,
      hrun gap h.2]

end Text

theorem IsWordText.isBlank {text : List Char} (h : IsWordText text) :
    ∀ c ∈ text, isBlank c = false := by
  intro c hc
  rcases h.cases_of_mem c hc with hword | rfl
  · exact isBlank_of_isWordChar hword
  · decide

/-! ### Segments -/

namespace Segment

/-- The characters that a segment of each shape can have. -/
inductive Formed : Shape → List Char → Prop
  | word {text : List Char} : IsWordText text → Formed .word text
  /-- The quote that opens a quotation is not in it. -/
  | quoted {quote : Char} {value : List Char} : isQuote quote = true → quote ∉ value →
      Formed .quoted (quote :: (value ++ [quote]))
  | array {c : Char} {tail : List Char} : Formed .array ('[' :: c :: tail)
  | mark {c : Char} : isMark c = true → Formed .mark [c]
  | double {c : Char} : c = '=' ∨ c = '!' → Formed .mark [c, '=']

/-- The shape of a segment, told from its characters. -/
def shapeOf : List Char → Shape
  | [] => .mark
  | c :: tail =>
    if isQuote c then .quoted
    else if isWordChar c then .word
    else if c == '[' && !tail.isEmpty then .array
    else .mark

theorem Formed.ne_nil {shape : Shape} {text : List Char} (h : Formed shape text) : text ≠ [] := by
  cases h with
  | word hword =>
    obtain ⟨c, tail, rfl, -⟩ := hword
    exact List.cons_ne_nil c tail
  | _ => exact List.cons_ne_nil _ _

/-- The characters of a segment tell its shape. -/
theorem Formed.shape_eq {shape : Shape} {text : List Char} (h : Formed shape text) :
    shape = shapeOf text := by
  cases h with
  | word hword =>
    obtain ⟨c, tail, rfl, hc, -⟩ := hword
    rw [shapeOf, if_neg (by simp [isQuote_of_isWordChar hc]), if_pos hc]
  | quoted hquote _ => rw [shapeOf, if_pos hquote]
  | array => rfl
  | @mark c hmark =>
    have hkind : (!isQuote c && !isWordChar c) = true :=
      forall_isMark (p := fun c => !isQuote c && !isWordChar c) (by decide +kernel) hmark
    simp only [Bool.and_eq_true, Bool.not_eq_true'] at hkind
    simp [shapeOf, hkind.1, hkind.2]
  | double hc => rcases hc with rfl | rfl <;> rfl

/-- Signs have no blanks in them. -/
theorem Formed.isBlank_of_mark {text : List Char} (h : Formed .mark text) :
    ∀ c ∈ text, isBlank c = false := by
  cases h with
  | mark hmark =>
    intro d hd
    rw [List.mem_singleton.mp hd]
    exact Lexeme.isBlank_of_isMark hmark
  | double hc =>
    have hsigns : isBlank '=' = false ∧ isBlank '!' = false := by decide
    rcases hc with rfl | rfl <;> simp [hsigns]

theorem ne_nil_of_arrayTail? {quote : Quote} {depth : Nat} {text tail remaining : List Char}
    (h : arrayTail? quote depth text = some (tail, remaining)) : tail ≠ [] := by
  cases text with
  | nil => cases h
  | cons c rest =>
    rw [arrayTail?] at h
    split at h
    · obtain ⟨rfl, -⟩ := Prod.mk.inj (Option.some.inj h)
      exact List.cons_ne_nil c []
    · obtain ⟨⟨inner, after⟩, -, hpair⟩ := Option.map_eq_some_iff.mp h
      obtain ⟨rfl, -⟩ := Prod.mk.inj hpair
      exact List.cons_ne_nil c inner

/-- What is cut off has the characters of its shape, and a word goes on as long as it can. -/
theorem formed_of_munch {previous : Option Char} {c : Char} {rest : List Char} {shape : Shape}
    {tail remaining : List Char} (h : munch previous c rest = .ok (shape, tail, remaining)) :
    Formed shape (c :: tail) ∧ (shape = .word → Begins (!isWordChar ·) remaining) := by
  unfold munch at h
  split at h
  next hquote =>
    split at h
    · cases h
    next close after hdrop =>
      obtain ⟨rfl, rfl, rfl⟩ : _ ∧ _ ∧ _ := by simpa using h
      -- The character that ends the quotation is the one that was looked for.
      have hclose : close = c := by
        have hhead := List.head?_dropWhile_not (· != c) rest
        simpa [hdrop] using hhead
      subst hclose
      refine ⟨.quoted hquote fun hmem => ?_, by simp⟩
      simpa using List.mem_takeWhile_imp hmem
  next hquote =>
    split at h
    next hopen =>
      split at h
      · cases h
      next tail' remaining' htail =>
        obtain ⟨rfl, rfl, rfl⟩ : _ ∧ _ ∧ _ := by simpa using h
        obtain ⟨rfl, -⟩ : c = '[' ∧ _ := by simpa using hopen
        obtain ⟨d, others, rfl⟩ := List.exists_cons_of_ne_nil (ne_nil_of_arrayTail? htail)
        exact ⟨.array, by simp⟩
    next =>
      split at h
      next hword =>
        obtain ⟨rfl, rfl, rfl⟩ : _ ∧ _ ∧ _ := by simpa using h
        -- A word character continues every word, so none comes next.
        refine ⟨.word ⟨c, _, rfl, hword, fun d hd => List.mem_takeWhile_imp hd⟩, fun _ d hd => ?_⟩
        have hstops := List.head?_dropWhile_not (continues c) rest
        rw [Option.mem_def] at hd
        simp only [hd, continues, Bool.or_eq_false_iff] at hstops
        simp [hstops.1]
      next =>
        split at h
        next hdouble =>
          obtain ⟨rfl, rfl, rfl⟩ : _ ∧ _ ∧ _ := by simpa using h
          simp only [Bool.and_eq_true, Bool.or_eq_true, beq_iff_eq] at hdouble
          obtain ⟨after, rfl⟩ := List.head?_eq_some_iff.mp hdouble.2
          exact ⟨.double hdouble.1, by simp⟩
        next =>
          split at h
          next hmark =>
            obtain ⟨rfl, rfl, rfl⟩ : _ ∧ _ ∧ _ := by simpa using h
            exact ⟨.mark hmark, by simp⟩
          · cases h

/-- The segments of a text that starts at byte `offset` of its line: they stand where they say, one
after the other, with blanks around them. No word is directly followed by another. -/
inductive Laid : Nat → List Char → List Segment → Prop
  | done {offset : Nat} {gap : List Char} : isBlankText gap = true → Laid offset gap []
  | segment {offset : Nat} {gap rest : List Char} {segment : Segment} {segments : List Segment} :
      isBlankText gap = true → segment.start = offset + byteSize gap →
      Formed segment.shape segment.text →
      (segment.shape = .word → Begins (!isWordChar ·) rest) →
      Laid segment.stop rest segments →
      Laid offset (gap ++ (segment.text ++ rest)) (segment :: segments)

/-- A blank joins the gap before the first segment. -/
theorem Laid.blank {offset : Nat} {c : Char} {text : List Char} {segments : List Segment}
    (hc : isBlank c = true) (h : Laid (offset + c.utf8Size) text segments) :
    Laid offset (c :: text) segments := by
  have hgap {gap : List Char} (h : isBlankText gap = true) : isBlankText (c :: gap) = true := by
    simp only [isBlankText, List.all_cons, Bool.and_eq_true]
    exact ⟨hc, h⟩
  cases h with
  | done h => exact .done (hgap h)
  | segment h hstart hformed hends hrest =>
    rw [Nat.add_assoc, ← byteSize_cons] at hstart
    have hlaid := Laid.segment (hgap h) hstart hformed hends hrest
    exact hlaid

/-- Cutting a text lays out its segments. -/
theorem laid_of_cutAll {previous : Option Char} {offset : Nat} {text : List Char}
    {segments : List Segment} (h : cutAll previous offset text = .ok segments) :
    Laid offset text segments := by
  -- Either a blank or a segment comes first, and what follows it is laid out.
  induction previous, offset, text using cutAll.induct generalizing segments with
  | case1 previous offset =>
    rw [cutAll] at h
    cases h
    exact .done rfl
  | case2 previous offset c rest hblank ih =>
    rw [cutAll, if_pos hblank] at h
    exact .blank hblank (ih h)
  | case3 previous offset c rest hblank defect hmunch =>
    rw [cutAll_of_error (by simpa using hblank) hmunch] at h
    cases h
  | case4 previous offset c rest hblank shape tail remaining hmunch _ ih =>
    rw [cutAll_of_ok (by simpa using hblank) hmunch] at h
    obtain ⟨others, hothers, rfl⟩ := exists_of_map_eq_ok h
    obtain ⟨hformed, hends⟩ := formed_of_munch hmunch
    have hrest : Laid (Segment.mk shape (c :: tail) offset).stop remaining others := ih hothers
    have hlaid : Laid offset ([] ++ (c :: tail ++ remaining))
        (⟨shape, c :: tail, offset⟩ :: others) := .segment rfl rfl hformed hends hrest
    rwa [List.nil_append, List.cons_append, tail_append_of_munch hmunch] at hlaid

end Segment

/-! ### Phrases -/

namespace Phrase

variable {phrases : List Phrase} {segments : List Segment}

/-- The phrase that is found, or the one that was found before, if any. -/
theorem foldl_longest_cases {best : Option Phrase → Phrase → Option Phrase}
    (hbest : best = fun best phrase =>
      if phrase.fits segments && best.all (·.words.length < phrase.words.length) then some phrase
      else best) (found : Option Phrase) :
    (∃ phrase ∈ phrases, phrases.foldl best found = some phrase ∧ phrase.fits segments = true) ∨
      phrases.foldl best found = found ∧
        (found = none → ∀ phrase ∈ phrases, phrase.fits segments = false) := by
  induction phrases generalizing found with
  | nil => exact .inr ⟨rfl, fun _ _ hmem => absurd hmem List.not_mem_nil⟩
  | cons phrase phrases ih =>
    rw [List.foldl_cons]
    rcases ih (best found phrase) with ⟨other, hmem, hother⟩ | ⟨hfound, hnone⟩
    · exact .inl ⟨other, List.mem_cons_of_mem _ hmem, hother⟩
    · rw [hfound]
      by_cases hfits : (phrase.fits segments &&
          found.all (·.words.length < phrase.words.length)) = true
      · have hstep : best found phrase = some phrase := by rw [hbest]; exact if_pos hfits
        exact .inl ⟨phrase, List.mem_cons_self, hstep, (Bool.and_eq_true_iff.mp hfits).1⟩
      · have hstep : best found phrase = found := by rw [hbest]; exact if_neg hfits
        refine .inr ⟨hstep, ?_⟩
        rintro rfl other hother
        rcases List.mem_cons.mp hother with rfl | hmem
        · simpa using hfits
        · exact hnone hstep other hmem

/-- The phrase that is found fits. -/
theorem mem_of_longest? {phrase : Phrase} (h : longest? phrases segments = some phrase) :
    phrase ∈ phrases ∧ phrase.fits segments = true := by
  rcases foldl_longest_cases rfl none with ⟨found, hmem, hfound, hfits⟩ | ⟨hnone, -⟩
  · obtain rfl := Option.some.inj (hfound.symm.trans h)
    exact ⟨hmem, hfits⟩
  · cases hnone.symm.trans h

/-- If no phrase is found, none fits. -/
theorem fits_of_longest?_eq_none (h : longest? phrases segments = none) :
    ∀ phrase ∈ phrases, phrase.fits segments = false := by
  rcases foldl_longest_cases rfl none with ⟨found, -, hfound, -⟩ | ⟨-, hfits⟩
  · cases hfound.symm.trans h
  · exact hfits rfl

/-- Words with blanks between them. -/
inductive Spaced : List (List Char) → List Char → Prop
  | last {word : List Char} : Spaced [word] word
  | more {word gap slice : List Char} {words : List (List Char)} : gap ≠ [] →
      isBlankText gap = true → Spaced words slice → Spaced (word :: words) (word ++ (gap ++ slice))

theorem Spaced.exists_append {word slice : List Char} {words : List (List Char)}
    (h : Spaced (word :: words) slice) : ∃ rest, slice = word ++ rest := by
  cases h with
  | last => exact ⟨[], (List.append_nil word).symm⟩
  | more _ _ _ => exact ⟨_, rfl⟩

/-- Reducing the blanks gives the words with one space between them. -/
theorem Spaced.squeeze {words : List (List Char)} {slice : List Char} (h : Spaced words slice)
    (hwords : ∀ word ∈ words, word ≠ [] ∧ ∀ c ∈ word, isBlank c = false) :
    squeeze slice = [' '].intercalate words := by
  induction h with
  | @last word =>
    rw [squeeze_of_forall (hwords word List.mem_cons_self).2]
    simp [List.intercalate]
  | @more word gap slice words hne hgap hspaced ih =>
    obtain ⟨hword, hothers⟩ := List.forall_mem_cons.mp hwords
    have hslice := ih hothers
    obtain ⟨next, others, rfl⟩ : ∃ next others, words = next :: others := by
      cases hspaced <;> exact ⟨_, _, rfl⟩
    obtain ⟨rest, rfl⟩ := hspaced.exists_append
    obtain ⟨hnext, -⟩ := List.forall_mem_cons.mp hothers
    -- The slice after the gap starts with a word, so the run of blanks ends with the gap.
    calc Text.squeeze (word ++ (gap ++ (next ++ rest)))
        = word ++ (' ' :: squeezeAfter true (next ++ rest)) := by
          rw [Text.squeeze, squeezeAfter_append false hword.1 hword.2, squeeze_gap hne hgap]
      _ = word ++ (' ' :: Text.squeeze (next ++ rest)) := by
          rw [Text.squeeze, squeezeAfter_append true hnext.1 hnext.2,
            squeezeAfter_append false hnext.1 hnext.2]
      _ = [' '].intercalate (word :: next :: others) := by
          rw [hslice]
          simp [List.intercalate]

/-- The first word of a phrase that fits is one. -/
theorem isWordText_of_wordsFit {first : List Char} {others : List (List Char)} {offset : Nat}
    {text : List Char} {segments : List Segment} (hlaid : Segment.Laid offset text segments)
    (h : wordsFit (first :: others) segments = true) : IsWordText first := by
  cases hlaid with
  | done _ => cases h
  | segment _ _ hformed _ _ =>
    simp only [wordsFit, Segment.isWord, Bool.and_eq_true, decide_eq_true_eq] at h
    rw [h.1.1, h.1.2] at hformed
    cases hformed with
    | word hword => exact hword

open Segment in
/-- A phrase that fits covers a slice of the text, from the beginning of its first segment to the
end of its last one. -/
theorem laid_of_wordsFit {first : List Char} {others : List (List Char)} {offset : Nat}
    {text : List Char} {segment : Segment} {segments : List Segment}
    (h : wordsFit (first :: others) (segment :: segments) = true)
    (hlaid : Laid offset text (segment :: segments)) :
    ∃ gap slice rest last, text = gap ++ (slice ++ rest) ∧ isBlankText gap = true ∧
      Spaced (first :: others) slice ∧ segment.start = offset + byteSize gap ∧
      (segment :: segments)[others.length]? = some last ∧
      last.stop = segment.start + byteSize slice ∧
      Laid last.stop rest (segments.drop others.length) := by
  -- The induction is on the words: the slice of the others follows the first word and a gap.
  induction others generalizing first offset text segment segments with
  | nil =>
    simp only [wordsFit, isWord, Bool.and_eq_true, decide_eq_true_eq, Bool.and_true] at h
    cases hlaid with
    | segment hgap hstart hformed hends hrest =>
      refine ⟨_, _, _, segment, rfl, hgap, ?_, hstart, rfl, rfl, hrest⟩
      rw [h.2]
      exact .last
  | cons next others ih =>
    cases segments with
    | nil => simp [wordsFit] at h
    | cons segment' segments =>
      rw [wordsFit, Bool.and_eq_true] at h
      obtain ⟨hfirst, hothers⟩ := h
      simp only [isWord, Bool.and_eq_true, decide_eq_true_eq] at hfirst
      cases hlaid with
      | segment hgap hstart hformed hends hrest =>
        obtain ⟨gap', slice', rest', last, rfl, hgap', hspaced, hstart', hlast, hstop, hlaid⟩ :=
          ih hothers hrest
        refine ⟨_, segment.text ++ (gap' ++ slice'), rest', last, by simp, hgap, ?_, hstart,
          by simpa using hlast, ?_, by simpa using hlaid⟩
        · rw [hfirst.2]
          refine .more ?_ hgap' hspaced
          -- The next word would continue this one if there were no gap.
          rintro rfl
          obtain ⟨tail, rfl⟩ := hspaced.exists_append
          obtain ⟨c, others, rfl, hc, -⟩ := isWordText_of_wordsFit hrest hothers
          have hends := hends hfirst.1 c rfl
          simp [hc] at hends
        · rw [hstop, hstart']
          simp only [Segment.stop, byteSize_append]
          omega

end Phrase

/-! ### Tokens -/

namespace Token

/-- What a slice of a line stands for: a phrase, or a segment that no phrase is. -/
inductive Reads (phrases : List Phrase) : List Char → Kind × Payload → Prop
  | phrase {phrase : Phrase} {slice : List Char} : phrase ∈ phrases →
      Phrase.Spaced phrase.words slice → Reads phrases slice (phrase.kind, .text phrase.text)
  | segment {shape : Segment.Shape} {slice : List Char} {face : Kind × Payload} :
      Segment.Formed shape slice → (shape = .word → ∀ phrase ∈ phrases, phrase.words ≠ [slice]) →
      Segment.classify ⟨shape, slice, 0⟩ = .ok face → Reads phrases slice face

/-- The tokens of a text that starts at byte `offset` of a source and is on one line of it: their
spans are those of slices that they are read from, one after the other, with blanks around them. -/
inductive Spread (phrases : List Phrase) (line : Nat) : Nat → List Char → List Token → Prop
  | done {offset : Nat} {gap : List Char} : isBlankText gap = true →
      Spread phrases line offset gap []
  | token {offset : Nat} {gap slice rest : List Char} {token : Token} {tokens : List Token} :
      isBlankText gap = true → slice ≠ [] → Reads phrases slice token.face → token.line = line →
      token.span = ⟨offset + byteSize gap, offset + byteSize gap + byteSize slice⟩ →
      Spread phrases line token.span.stop rest tokens →
      Spread phrases line offset (gap ++ (slice ++ rest)) (token :: tokens)

/-- What a payload has to do with the slice it is read from. -/
def Payload.Matches (slice : List Char) : Payload → Prop
  | .text lexeme => lexeme.toList = squeeze slice
  | .number value => readNumber? slice = some value
  | .string value => ∃ quote, isQuote quote = true ∧ quote ∉ value.toList ∧
      slice = quote :: (value.toList ++ [quote])
  | .boolean value => slice = (toString value).toList
  | .array items => Literal.listOf slice = .ok items

/-- What is known of the kind and the payload that a slice stands for. -/
structure Proper (slice : List Char) (kind : Kind) (payload : Payload) : Prop where
  /-- The payload is that of the slice. -/
  of_slice : payload.Matches slice
  /-- The kind and the payload agree. -/
  fits : kind.fits payload = true
  /-- The token is not one for the end of the source. -/
  ne_eof : kind ≠ .eof

/-- A slice without blanks is its own text. -/
theorem matches_text {slice : List Char} (h : ∀ c ∈ slice, isBlank c = false) :
    (Payload.text (String.ofList slice)).Matches slice := by
  rw [Payload.Matches, String.toList_ofList, squeeze_of_forall h]

theorem proper_of_classifyWord {slice : List Char} {kind : Kind} {payload : Payload}
    (hslice : ∀ c ∈ slice, isBlank c = false)
    (h : Segment.classifyWord slice = .ok (kind, payload)) : Proper slice kind payload := by
  simp only [Segment.classifyWord] at h
  -- The operators that are words come first, then the truth values, numbers and names.
  split at h
  · cases h
    exact ⟨matches_text hslice, rfl, nofun⟩
  split at h
  · cases h
    exact ⟨matches_text hslice, rfl, nofun⟩
  split at h
  · cases h
    exact ⟨matches_text hslice, rfl, nofun⟩
  split at h
  next htrue =>
    cases h
    exact ⟨htrue, rfl, nofun⟩
  split at h
  next hfalse =>
    cases h
    exact ⟨hfalse, rfl, nofun⟩
  split at h
  next value hvalue =>
    cases h
    exact ⟨hvalue, rfl, nofun⟩
  split at h
  · cases h
    exact ⟨matches_text hslice, rfl, nofun⟩
  · cases h

theorem proper_of_mark {slice : List Char} {kind : Kind} (hslice : ∀ c ∈ slice, isBlank c = false)
    (h : Segment.markKind? slice = some kind) :
    Proper slice kind (.text (String.ofList slice)) := by
  refine ⟨matches_text hslice, ?_, ?_⟩ <;>
    · unfold Segment.markKind? at h
      split at h <;> cases h <;> decide +revert

theorem proper_of_classify {shape : Segment.Shape} {slice : List Char} {kind : Kind}
    {payload : Payload} (hformed : Segment.Formed shape slice)
    (h : Segment.classify ⟨shape, slice, 0⟩ = .ok (kind, payload)) : Proper slice kind payload := by
  cases shape with
  | word =>
    cases hformed with
    | word hword => exact proper_of_classifyWord hword.isBlank h
  | quoted =>
    cases hformed with
    | @quoted quote value hquote hvalue =>
      cases h
      refine ⟨⟨quote, hquote, ?_⟩, rfl, nofun⟩
      simp [inner, hvalue]
  | array =>
    obtain ⟨items, hitems, hface⟩ := exists_of_map_eq_ok h
    cases hface
    exact ⟨hitems, rfl, nofun⟩
  | mark =>
    simp only [Segment.classify] at h
    split at h
    next hmark =>
      cases h
      exact proper_of_mark hformed.isBlank_of_mark hmark
    · cases h

section

variable {vocabulary : Vocabulary} {slice : List Char} {face face' : Kind × Payload}

theorem Reads.proper (h : Reads vocabulary.keywords.phrases slice face) :
    Proper slice face.1 face.2 := by
  cases h with
  | @phrase phrase slice hmem hspaced =>
    have hkinds : ∀ phrase ∈ vocabulary.keywords.phrases,
        phrase.kind.fits (.text phrase.text) = true ∧ phrase.kind ≠ .eof := by
      cases vocabulary <;> decide +kernel
    obtain ⟨-, -, hwords⟩ := spelling_of_mem_phrases vocabulary phrase hmem
    obtain ⟨hfits, hne⟩ := hkinds phrase hmem
    refine ⟨?_, hfits, hne⟩
    rw [Payload.Matches, Phrase.text, String.toList_ofList, hspaced.squeeze fun word hword =>
      ⟨(hwords word hword).1, fun c hc => isBlank_of_isWordChar ((hwords word hword).2 c hc).1⟩]
  | segment hformed _ hclassify => exact proper_of_classify hformed hclassify

/-- A segment that looks like a phrase is a word, and is the phrase. -/
theorem eq_of_spaced {phrase : Phrase} (hmem : phrase ∈ vocabulary.keywords.phrases)
    (hspaced : Phrase.Spaced phrase.words slice) {shape : Segment.Shape}
    (hformed : Segment.Formed shape slice) : shape = .word ∧ phrase.words = [slice] := by
  obtain ⟨-, -, hwords⟩ := spelling_of_mem_phrases vocabulary phrase hmem
  obtain ⟨hfirst, hchars⟩ := hwords phrase.first List.mem_cons_self
  obtain ⟨c, tail, hcons⟩ := List.exists_cons_of_ne_nil hfirst
  have hc : isWordChar c = true := (hchars c (by simp [hcons])).1
  obtain ⟨rest, hslice⟩ : ∃ rest, slice = phrase.first ++ rest := hspaced.exists_append
  have hword : shape = .word := by
    rw [hformed.shape_eq, hslice, hcons, List.cons_append, Segment.shapeOf,
      if_neg (by simp [isQuote_of_isWordChar hc]), if_pos hc]
  refine ⟨hword, ?_⟩
  subst hword
  cases hformed with
  | word hword =>
    generalize phrase.words = words at hspaced
    cases hspaced with
    | last => rfl
    | @more word gap slice words hne hgap _ =>
      -- A word has no blanks in it, so it is not made of several.
      obtain ⟨d, gap, rfl⟩ := List.exists_cons_of_ne_nil hne
      have hblank := hword.isBlank d (by simp)
      simp [isBlankText, hblank] at hgap

/-- Slices with the same characters stand for the same. -/
theorem Reads.face_eq (h : Reads vocabulary.keywords.phrases slice face)
    (h' : Reads vocabulary.keywords.phrases slice face') : face = face' := by
  -- The text of a phrase tells its kind; there are only finitely many phrases.
  have htexts : ∀ phrase ∈ vocabulary.keywords.phrases, ∀ other ∈ vocabulary.keywords.phrases,
      phrase.text = other.text → phrase.kind = other.kind := by
    cases vocabulary <;> decide +kernel
  cases h with
  | @phrase phrase _ hmem hspaced =>
    cases h' with
    | @phrase phrase' _ hmem' hspaced' =>
      have htext : phrase.text = phrase'.text := by
        have hslice : phrase.text.toList = squeeze slice :=
          (Reads.phrase hmem hspaced).proper.of_slice
        have hslice' : phrase'.text.toList = squeeze slice :=
          (Reads.phrase hmem' hspaced').proper.of_slice
        exact String.toList_inj.mp (hslice.trans hslice'.symm)
      rw [htext, htexts phrase hmem phrase' hmem' htext]
    | segment hformed hnone _ =>
      obtain ⟨hword, hwords⟩ := eq_of_spaced hmem hspaced hformed
      exact absurd hwords (hnone hword phrase hmem)
  | segment hformed hnone hclassify =>
    cases h' with
    | @phrase phrase' _ hmem' hspaced' =>
      obtain ⟨hword, hwords⟩ := eq_of_spaced hmem' hspaced' hformed
      exact absurd hwords (hnone hword phrase' hmem')
    | segment hformed' _ hclassify' =>
      rw [hformed.shape_eq] at hclassify
      rw [hformed'.shape_eq] at hclassify'
      exact Except.ok.inj (hclassify.symm.trans hclassify')

end

open Segment in
/-- The tokens of segments cover what the segments do. -/
theorem spread_of_tokens {phrases : List Phrase} {offset : Nat} {text : List Char}
    {segments : List Segment} {tokens : List Token} (hlaid : Laid offset text segments)
    (h : Segment.tokens phrases segments = .ok tokens) : Spread phrases 1 offset text tokens := by
  -- Along the recursion of `Segment.tokens`: a phrase takes several segments at once, and any other
  -- token takes one.
  induction segments using Segment.tokens.induct phrases generalizing offset text tokens with
  | case1 =>
    rw [Segment.tokens] at h
    cases h
    cases hlaid with
    | done hgap => exact .done hgap
  | case2 segment rest phrase hphrase ih =>
    rw [Segment.tokens, hphrase] at h
    obtain ⟨others, hothers, rfl⟩ := exists_of_map_eq_ok h
    obtain ⟨hmem, hfits⟩ := Phrase.mem_of_longest? hphrase
    obtain ⟨gap, slice, after, last, rfl, hgap, hspaced, hstart, hlast, hstop, hafter⟩ :=
      Phrase.laid_of_wordsFit hfits hlaid
    refine .token hgap ?_ (.phrase hmem hspaced) rfl ?_ ?_
    · obtain ⟨c, tail, hfirst, -⟩ := Phrase.isWordText_of_wordsFit hlaid hfits
      obtain ⟨more, rfl⟩ := hspaced.exists_append
      simp [hfirst]
    · rw [hlast, Option.getD_some, hstop, hstart]
    · rw [hlast]
      exact ih hafter hothers
  | case3 segment rest hnone defect hdefect =>
    rw [Segment.tokens, hnone] at h
    simp only [hdefect] at h
    cases h
  | case4 segment rest hnone kind payload hclassify ih =>
    rw [Segment.tokens, hnone] at h
    simp only [hclassify] at h
    obtain ⟨others, hothers, rfl⟩ := exists_of_map_eq_ok h
    cases hlaid with
    | segment hgap hstart hformed _ hrest =>
      refine .token hgap hformed.ne_nil (.segment hformed ?_ hclassify) rfl ?_ (ih hrest hothers)
      · intro hword phrase hmem hwords
        have hfits := Phrase.fits_of_longest?_eq_none hnone phrase hmem
        simp [Phrase.fits, hwords, Phrase.wordsFit, isWord, hword] at hfits
      · show segment.span = _
        rw [Segment.span, Segment.stop, hstart]

/-- The tokens of a line cover its code. -/
theorem spread_of_tokensOfLine {phrases : List Phrase} {line : List Char} {tokens : List Token}
    (h : tokensOfLine phrases line = .ok tokens) : Spread phrases 1 0 (codeOf line) tokens := by
  simp only [tokensOfLine] at h
  split at h
  next hblank =>
    cases h
    exact .done hblank
  next =>
    split at h
    · cases h
    next segments hsegments => exact spread_of_tokens (Segment.laid_of_cutAll hsegments) h

section

variable {phrases : List Phrase} {line offset : Nat} {text : List Char} {tokens : List Token}

/-- A text covered by tokens is so wherever it stands. -/
theorem Spread.shift (lines bytes : Nat) (h : Spread phrases line offset text tokens) :
    Spread phrases (lines + line) (bytes + offset) text (tokens.map (·.shift lines bytes)) := by
  induction h with
  | done hgap => exact .done hgap
  | token hgap hne hreads hline hspan _ ih =>
    refine .token hgap hne hreads ?_ ?_ ih
    · exact congrArg (lines + ·) hline
    · show Span.shift _ bytes = _
      rw [hspan, Span.shift]
      simp only [Nat.add_assoc]

/-- A token of a text covers a slice of it, which it is read from. -/
theorem Spread.exists_slice (h : Spread phrases line offset text tokens) :
    ∀ token ∈ tokens, token.line = line ∧ ∃ before slice after,
      text = before ++ (slice ++ after) ∧ slice ≠ [] ∧ Reads phrases slice token.face ∧
      token.span = ⟨offset + byteSize before, offset + byteSize before + byteSize slice⟩ := by
  induction h with
  | done _ => exact fun _ hmem => absurd hmem List.not_mem_nil
  | @token offset gap slice rest token tokens hgap hne hreads hline hspan _ ih =>
    intro other hmem
    rcases List.mem_cons.mp hmem with rfl | hmem
    · exact ⟨hline, gap, slice, rest, rfl, hne, hreads, hspan⟩
    · obtain ⟨hline', before, slice', after, rfl, hne', hreads', hspan'⟩ := ih other hmem
      refine ⟨hline', gap ++ (slice ++ before), slice', after, by simp, hne', hreads', ?_⟩
      rw [hspan', hspan]
      simp [Nat.add_assoc]

/-- The tokens of a text stand one after the other. -/
theorem Spread.pairwise (h : Spread phrases line offset text tokens) :
    tokens.Pairwise fun left right => left.span.stop ≤ right.span.start := by
  induction h with
  | done _ => exact .nil
  | @token offset gap slice rest token tokens hgap hne hreads hline hspan hrest ih =>
    refine .cons (fun other hmem => ?_) ih
    obtain ⟨-, before, slice', after, -, -, -, hspan'⟩ := hrest.exists_slice other hmem
    rw [hspan']
    exact Nat.le_add_right _ _

/-- Every character of a text that is not blank is covered by a token. -/
theorem Spread.exists_token (h : Spread phrases line offset text tokens) {before after : List Char}
    {c : Char} (htext : text = before ++ c :: after) (hc : isBlank c = false) :
    ∃ token ∈ tokens, token.span.start ≤ offset + byteSize before ∧
      offset + byteSize before + c.utf8Size ≤ token.span.stop := by
  induction h generalizing before with
  | @done offset gap hgap =>
    have hblank := List.all_eq_true.mp hgap c (by simp [htext])
    simp [hc] at hblank
  | @token offset gap slice rest token tokens hgap _ _ _ hspan _ ih =>
    -- The character is in the gap, in the slice of the first token, or in the rest.
    rcases cases_of_append_eq htext with ⟨more, rfl, -⟩ | ⟨between, rfl, hslice⟩
    · have hblank := List.all_eq_true.mp hgap c (by simp)
      simp [hc] at hblank
    rcases cases_of_append_eq hslice with ⟨more, rfl, -⟩ | ⟨between, rfl, hrest⟩
    · refine ⟨token, List.mem_cons_self, ?_, ?_⟩ <;>
        · rw [hspan]
          simp only [byteSize_append, byteSize_cons]
          omega
    · obtain ⟨other, hmem, hstart, hstop⟩ := ih hrest
      rw [hspan] at hstart hstop
      refine ⟨other, List.mem_cons_of_mem _ hmem, ?_, ?_⟩ <;>
        · simp only [byteSize_append] at hstart hstop ⊢
          omega

end

end Token

end LineScript
