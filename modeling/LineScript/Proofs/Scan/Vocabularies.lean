import LineScript.Proofs.Scan.Origins

/-!
# What does not depend on the vocabulary

A source may be read in another vocabulary than it was written in. Which words are keywords changes,
and so does how many segments go into one token, but all of them would be names otherwise. Hence the
same lines are left out for the same defects (`skipped_scan_eq`), the tokens of all other lines
cover the same characters (`Line.covers_iff`), and a token with no word of a keyword in it stays
what it is (`Line.mem_contribution_of_unphrased`).
-/

namespace LineScript

open Text

/-! ### Words of a slice -/

/-- The first piece of a text that begins with characters that are not cut at. -/
theorem Text.cut_append_of_forall {isCut : Char → Bool} {word : List Char}
    (h : ∀ c ∈ word, isCut c = false) (rest : List Char) :
    cut isCut (word ++ rest) = (word ++ (cut isCut rest).1, (cut isCut rest).2) := by
  induction word with
  | nil => rfl
  | cons c word ih =>
    obtain ⟨hc, hword⟩ := List.forall_mem_cons.mp h
    have hrest := ih hword
    unfold cut at hrest ⊢
    rw [List.cons_append, List.foldr_cons, hrest, hc]
    rfl

/-- A word at the beginning of a text is one of its words, if it ends there or a blank follows. -/
theorem Text.mem_words_append {word rest : List Char} (hne : word ≠ [])
    (hword : ∀ c ∈ word, isBlank c = false) (hrest : ∀ c ∈ rest.head?, isBlank c = true) :
    word ∈ words (word ++ rest) := by
  have hnil : (cut isBlank rest).1 = [] := by
    cases rest with
    | nil => rfl
    | cons c rest => simp [cut, hrest c rfl]
  rw [words, split, cut_append_of_forall hword, hnil, List.append_nil]
  simp [hne]

theorem Text.mem_words_self {word : List Char} (hne : word ≠ [])
    (hword : ∀ c ∈ word, isBlank c = false) : word ∈ words word := by
  have hmem : word ∈ words (word ++ []) := mem_words_append hne hword fun _ hc => by cases hc
  rwa [List.append_nil] at hmem

/-- The first word of a phrase is a word of what spells it. -/
theorem Phrase.first_mem_words {vocabulary : Vocabulary} {phrase : Phrase} {slice : List Char}
    (hmem : phrase ∈ vocabulary.keywords.phrases) (hspaced : Spaced phrase.words slice) :
    phrase.first ∈ Text.words slice := by
  obtain ⟨-, -, hwords⟩ := spelling_of_mem_phrases vocabulary phrase hmem
  obtain ⟨hne, hchars⟩ := hwords phrase.first List.mem_cons_self
  have hblank : ∀ c ∈ phrase.first, isBlank c = false :=
    fun c hc => isBlank_of_isWordChar (hchars c hc).1
  rw [Phrase.words] at hspaced
  generalize phrase.others = others at hspaced
  cases hspaced with
  | last => exact mem_words_self hne hblank
  | @more _ gap slice _ hgap hgapBlank _ =>
    refine mem_words_append hne hblank fun c hc => ?_
    rw [List.head?_append_of_ne_nil _ hgap] at hc
    exact List.all_eq_true.mp hgapBlank c (List.mem_of_mem_head? hc)

/-! ### Lines -/

section

variable {vocabulary : Vocabulary} {line : Line}

theorem Line.skipped?_eq (line : Line) (vocabulary other : Vocabulary) :
    line.skipped? vocabulary.keywords.phrases = line.skipped? other.keywords.phrases := by
  refine Option.ext fun note => ?_
  rw [skipped?_eq_some_iff, skipped?_eq_some_iff, tokensOfLine_eq_error_iff,
    tokensOfLine_eq_error_iff]

/-- The same lines are left out for the same defects. -/
theorem skipped_scan_eq (source : String) (vocabulary other : Vocabulary) :
    (scan source vocabulary).skipped = (scan source other).skipped :=
  List.filterMap_congr fun line _ => line.skipped?_eq vocabulary other

/-- Some of the tokens covers the character at a byte. -/
def Covers (tokens : List Token) (byte : Nat) (c : Char) : Prop :=
  ∃ token ∈ tokens, token.span.start ≤ byte ∧ byte + c.utf8Size ≤ token.span.stop

/-- Of two beginnings of a text, the one with fewer bytes is a beginning of the other. -/
theorem begins_of_byteSize_le {text shorter longer : List Char} (hshorter : shorter <+: text)
    (hlonger : longer <+: text) (h : byteSize shorter ≤ byteSize longer) : shorter <+: longer := by
  rcases List.prefix_or_prefix_of_prefix hshorter hlonger with hbegins | hbegins
  · exact hbegins
  · have hsize := byteSize_le_of_begins hbegins
    rw [eq_of_byteSize hshorter hlonger (Nat.le_antisymm h hsize)]

/-- The tokens of a line that is not left out cover the characters of its code, blanks apart. -/
theorem Line.covers_iff (hread : line.skipped? vocabulary.keywords.phrases = none)
    {before after : List Char} {c : Char} (htext : line.text = before ++ c :: after)
    (hc : isBlank c = false) :
    Covers (line.contribution vocabulary.keywords.phrases) (line.offset + byteSize before) c ↔
      before ++ [c] <+: codeOf line.text := by
  have hspread := spread_of_skipped? hread
  constructor
  · rintro ⟨token, htoken, -, hstop⟩
    obtain ⟨-, place, slice, rest, hcode, -, -, hspan⟩ := hspread.exists_slice token htoken
    obtain ⟨comment, hcomment⟩ := beforeComment_append none line.text
    refine begins_of_byteSize_le ⟨after, ?_⟩ ⟨comment, hcomment.symm⟩ ?_
    · rw [htext, List.append_assoc, List.singleton_append]
    · rw [hspan] at hstop
      show _ ≤ byteSize (codeOf line.text)
      rw [hcode]
      simp only [byteSize_append, byteSize_cons, byteSize_nil] at hstop ⊢
      omega
  · rintro ⟨rest, hcode⟩
    rw [List.append_assoc, List.singleton_append] at hcode
    obtain ⟨token, htoken, hstart, hstop⟩ := hspread.exists_token hcode.symm hc
    exact ⟨token, htoken, hstart, hstop⟩

/-- The segments of a line that is read make tokens in any vocabulary. -/
theorem Line.exists_tokens_of_segmentsOf (other : Vocabulary) {token : Token}
    (h : token ∈ line.contribution vocabulary.keywords.phrases) {segments : List Segment}
    (hsegments : segmentsOf (codeOf line.text) = .ok segments) :
    ∃ tokens, Segment.tokens other.keywords.phrases segments = .ok tokens := by
  obtain ⟨segments', own, -, hsegments', hown, -⟩ := mem_contribution_iff.mp h
  obtain rfl := Except.ok.inj (hsegments.symm.trans hsegments')
  cases htokens : Segment.tokens other.keywords.phrases segments with
  | ok tokens => exact ⟨tokens, rfl⟩
  | error defect =>
    -- The defect would be one in the first vocabulary, too.
    have hdefect := Segment.tokens_eq_error_iff.mp htokens
    cases hown.symm.trans (Segment.tokens_eq_error_iff.mpr hdefect)

/-- A token of a line has a slice of the code, and if there is no word of a keyword in it, another
vocabulary has the same token. -/
theorem Line.mem_contribution_of_unphrased (other : Vocabulary) {token : Token}
    (h : token ∈ line.contribution vocabulary.keywords.phrases) :
    ∃ before slice after, codeOf line.text = before ++ (slice ++ after) ∧
      token.span = ⟨line.offset + byteSize before,
        line.offset + (byteSize before + byteSize slice)⟩ ∧
      ((∀ word ∈ words slice, word ∉ vocabulary.keywords.phraseWords ∧
          word ∉ other.keywords.phraseWords) →
        token ∈ line.contribution other.keywords.phrases) := by
  obtain ⟨segments, before, slice, after, own, hsegments, hcode, horigin, hspan, rfl⟩ :=
    exists_origin h
  refine ⟨before, slice, after, hcode, congrArg (Span.shift · line.offset) hspan, fun hwords => ?_⟩
  cases horigin with
  | @phrase phrase _ _ hmem hspaced _ =>
    refine absurd (List.mem_flatMap.mpr ⟨phrase, hmem, ?_⟩)
      (hwords _ (Phrase.first_mem_words hmem hspaced)).1
    exact List.mem_cons_self
  | @segment segment kind payload hmem hclassify =>
    obtain ⟨tokens, htokens⟩ := exists_tokens_of_segmentsOf other h hsegments
    have hword : segment.shape = .word →
        ∀ phrase ∈ other.keywords.phrases, segment.text ∉ phrase.words := by
      intro hshape phrase hphrase hmemWords
      obtain ⟨passed, remaining, hcut, -⟩ := (Segment.isCut_of_segmentsOf hsegments).2 segment hmem
      rw [hshape] at hcut
      cases hcut.formed with
      | word hword =>
        refine (hwords segment.text (mem_words_self hcut.formed.ne_nil hword.isBlank)).2 ?_
        exact List.mem_flatMap.mpr ⟨phrase, hphrase, hmemWords⟩
    obtain ⟨kind', payload', hclassify', htoken⟩ :=
      Token.exists_token_of_unphrased htokens hmem hword
    obtain ⟨rfl, rfl⟩ := Prod.mk.inj (Except.ok.inj (hclassify.symm.trans hclassify'))
    exact mem_contribution_iff.mpr ⟨segments, tokens, _, hsegments, htokens, htoken, rfl⟩

/-- What two vocabularies have in common when they read a source. -/
structure Scan.Alike (source : String) (vocabulary other : Vocabulary) : Prop where
  /-- The same lines are left out, for the same defects. -/
  skipped : (scan source vocabulary).skipped = (scan source other).skipped
  /-- On every other line, the same characters that are no blanks are covered by tokens: those of
  its code. -/
  covered : ∀ line : Line, line.IsIn source.toList →
    (∀ note ∈ (scan source vocabulary).skipped, note.line ≠ line.number) →
    ∀ before c after, line.text = before ++ c :: after → isBlank c = false →
      (Covers ((scan source vocabulary).tokensOn line.number) (line.offset + byteSize before) c ↔
        Covers ((scan source other).tokensOn line.number) (line.offset + byteSize before) c) ∧
      (Covers ((scan source vocabulary).tokensOn line.number) (line.offset + byteSize before) c ↔
        before ++ [c] <+: codeOf line.text)
  /-- Each token covers a slice of the source, and it is a token in the other vocabulary, too, if
  none of the words of the slice is a word of a keyword. -/
  unphrased : ∀ token ∈ (scan source vocabulary).tokens, ∃ before slice,
    token.span.IsOf source.toList before slice ∧
    ((∀ word ∈ words slice, word ∉ vocabulary.keywords.phraseWords ∧
        word ∉ other.keywords.phraseWords) → token ∈ (scan source other).tokens)

/-- The vocabulary decides which words are keywords, and nothing else about the tokens. -/
theorem scan_alike (source : String) (vocabulary other : Vocabulary) :
    Scan.Alike source vocabulary other where
  skipped := skipped_scan_eq source vocabulary other
  covered := by
    intro line hline hskipped before c after htext hc
    have hmem : line ∈ linesOf source := mem_linesOf_iff.mpr hline
    have hread : line.skipped? vocabulary.keywords.phrases = none := by
      refine Option.eq_none_iff_forall_ne_some.mpr fun note hnote => ?_
      exact hskipped note (mem_skipped_iff.mpr ⟨line, hline, hnote⟩)
        (Line.skipped?_eq_some_iff.mp hnote).1
    rw [tokensOn_scan hmem, tokensOn_scan hmem, Line.covers_iff hread htext hc,
      Line.covers_iff (line.skipped?_eq vocabulary other ▸ hread) htext hc]
    exact ⟨Iff.rfl, Iff.rfl⟩
  unphrased := by
    intro token htoken
    rcases List.mem_append.mp htoken with hline | hstop
    · obtain ⟨line, hmem, hown⟩ := List.mem_flatMap.mp hline
      obtain ⟨passed, rest, hsource, hoffset, -⟩ := Line.exists_around (mem_linesOf_iff.mp hmem)
      obtain ⟨before, slice, after, hcode, hspan, hsame⟩ :=
        Line.mem_contribution_of_unphrased other hown
      refine ⟨passed ++ before, slice, ⟨⟨after ++ rest, ?_⟩, ?_⟩, fun hwords => ?_⟩
      · rw [hsource, hcode]
        simp
      · rw [hspan, hoffset]
        simp
      · exact List.mem_append_left _ (List.mem_flatMap.mpr ⟨line, hmem, hsame hwords⟩)
    · rw [List.mem_singleton.mp hstop]
      refine ⟨source.toList, [], ⟨by simp, by simp [Token.endOfSource]⟩, fun _ => ?_⟩
      exact List.mem_append_right _ List.mem_cons_self

end

end LineScript
