import LineScript.Proofs.Scan.Spacing
import LineScript.Proofs.Scan.Vocabularies
import LineScript.Session.Command

/-!
# The line that closes a program

A session splits a line at its blanks to see whether it closes a program, and the program itself is
cut into segments. A line that closes a program for the session has the keyword for the end as its
first token (`ends_agree`). The converse depends on what directly follows the keyword (`Detached`):
the session takes a comment or a sign that is written against it for a part of the word.
-/

namespace LineScript

open Text

/-! ### The first word -/

namespace Text

/-- Blanks before a text are in none of its words. -/
theorem words_gap {gap : List Char} (h : isBlankText gap = true) (text : List Char) :
    words (gap ++ text) = words text := by
  induction gap with
  | nil => rfl
  | cons c gap ih =>
    simp only [isBlankText, List.all_cons, Bool.and_eq_true] at h
    have hcut : words (c :: (gap ++ text)) = words (gap ++ text) := by
      rw [words, split_cons_of_cut h.1]
      rfl
    rw [List.cons_append, hcut, ih h.2]

/-- The first word of a text goes on to the first blank. -/
theorem head?_words {gap word : List Char} (hgap : isBlankText gap = true) (hne : word ≠ [])
    (hword : ∀ c ∈ word, isBlank c = false) (rest : List Char) :
    (words (gap ++ (word ++ rest))).head? = some (word ++ (cut isBlank rest).1) := by
  rw [words_gap hgap, words, split, cut_append_of_forall hword]
  simp [hne]

/-- What stands before the first blank of a text. -/
theorem cut_cons_fst (c : Char) (rest : List Char) :
    (cut isBlank (c :: rest)).1 = if isBlank c then [] else c :: (cut isBlank rest).1 := by
  by_cases hblank : isBlank c = true <;> simp [cut, hblank]

theorem cut_eq_nil_iff {rest : List Char} :
    (cut isBlank rest).1 = [] ↔ Segment.Begins isBlank rest := by
  cases rest with
  | nil => simp [cut, Segment.Begins]
  | cons c rest => simp [cut_cons_fst, Segment.Begins]

/-- A text has nothing but blanks, or it has a first word. -/
theorem exists_word (text : List Char) : isBlankText text = true ∨
    ∃ gap word rest, text = gap ++ (word ++ rest) ∧ isBlankText gap = true ∧ word ≠ [] ∧
      (∀ c ∈ word, isBlank c = false) ∧ Segment.Begins isBlank rest := by
  induction text with
  | nil => exact .inl rfl
  | cons c text ih =>
    by_cases hblank : isBlank c = true
    · refine ih.imp (fun h => ?_) ?_
      · rw [isBlankText, List.all_cons, hblank]
        exact h
      · rintro ⟨gap, word, rest, rfl, hgap, hword⟩
        refine ⟨c :: gap, word, rest, rfl, ?_, hword⟩
        rw [isBlankText, List.all_cons, hblank]
        exact hgap
    · have hsplit : (c :: text).takeWhile (!isBlank ·) ++ (c :: text).dropWhile (!isBlank ·) =
          c :: text := List.takeWhile_append_dropWhile
      refine .inr ⟨[], _, _, hsplit.symm, rfl, by simp [hblank], fun d hd => ?_, fun d hd => ?_⟩
      · simpa using List.mem_takeWhile_imp hd
      · have hstop := List.head?_dropWhile_not (!isBlank ·) (c :: text)
        rw [Option.mem_def] at hd
        simpa [hd] using hstop

end Text

/-! ### What follows the keyword -/

/-- After the keyword for the end there is nothing, a blank, or a colon and then nothing or a
blank. -/
def Detached (rest : List Char) : Prop :=
  Segment.Begins isBlank rest ∨ ∃ after, rest = ':' :: after ∧ Segment.Begins isBlank after

theorem detached_iff {rest : List Char} :
    Detached rest ↔ (cut isBlank rest).1 = [] ∨ (cut isBlank rest).1 = [':'] := by
  rw [cut_eq_nil_iff]
  refine or_congr_right ?_
  cases rest with
  | nil => simp [cut]
  | cons c rest =>
    rw [cut_cons_fst]
    split
    next hblank =>
      have hcolon : c ≠ ':' := ne_of_isBlank hblank (by decide)
      simp [hcolon]
    next => simp [cut_eq_nil_iff]

section

variable {vocabulary : Vocabulary} {line : String} {gap rest : List Char}

/-- The keyword for the end is a phrase of one word, and no other phrase has its word or its
kind. -/
theorem phrase_finish (vocabulary : Vocabulary) :
    ⟨vocabulary.keywords.finish.toList, [], .finish⟩ ∈ vocabulary.keywords.phrases ∧
      ∀ phrase ∈ vocabulary.keywords.phrases,
        phrase.first = vocabulary.keywords.finish.toList ∨ phrase.kind = .finish →
          phrase = ⟨vocabulary.keywords.finish.toList, [], .finish⟩ := by
  cases vocabulary <;> decide +kernel

theorem isWordText_finish (vocabulary : Vocabulary) :
    IsWordText vocabulary.keywords.finish.toList := by
  obtain ⟨-, -, hwords⟩ := spelling_of_mem_phrases vocabulary _ (phrase_finish vocabulary).1
  obtain ⟨hne, hchars⟩ := hwords _ List.mem_cons_self
  exact isWordText_of_forall hne fun c hc => (hchars c hc).1

theorem finish_ne_nil (vocabulary : Vocabulary) : vocabulary.keywords.finish.toList ≠ [] := by
  obtain ⟨c, tail, heq, -⟩ := isWordText_finish vocabulary
  rw [heq]
  exact List.cons_ne_nil c tail

/-- A session looks at what follows the keyword. -/
theorem closesProgram_iff (hgap : isBlankText gap = true)
    (hline : line.toList = gap ++ (vocabulary.keywords.finish.toList ++ rest)) :
    closesProgram line vocabulary = true ↔ Detached rest := by
  have hhead := head?_words hgap (finish_ne_nil vocabulary) (isWordText_finish vocabulary).isBlank
    rest
  simp [closesProgram, hline, hhead, detached_iff]

/-- A line that closes a program for a session begins with the keyword. -/
theorem exists_detached_of_closesProgram (h : closesProgram line vocabulary = true) :
    ∃ gap rest, isBlankText gap = true ∧
      line.toList = gap ++ (vocabulary.keywords.finish.toList ++ rest) ∧ Detached rest := by
  rcases exists_word line.toList with hblank | ⟨gap, word, rest, hline, hgap, hne, hword, hrest⟩
  · have hwords : words line.toList = [] := by
      have hnil := words_gap hblank []
      rw [List.append_nil] at hnil
      exact hnil
    simp [closesProgram, hwords] at h
  · have hhead := head?_words hgap hne hword rest
    rw [cut_eq_nil_iff.mpr hrest, List.append_nil] at hhead
    simp only [closesProgram, hline, hhead, Option.any_some, Bool.or_eq_true,
      decide_eq_true_eq] at h
    rcases h with rfl | rfl
    · exact ⟨gap, rest, hgap, hline, .inl hrest⟩
    · exact ⟨gap, ':' :: rest, hgap, by rw [hline, List.append_assoc]; rfl, .inr ⟨rest, rfl, hrest⟩⟩

/-! ### The first token -/

/-- The first token of a line that is not left out is that of its text, if there is any. -/
theorem exists_tokensOfLine (hline : '\n' ∉ line.toList)
    (hread : (scan line vocabulary).skipped = []) :
    ∃ tokens, tokensOfLine vocabulary.keywords.phrases line.toList = .ok tokens ∧
      (scan line vocabulary).tokens.head?.map Token.kind =
        (tokens.head?.map Token.kind).or (some .eof) := by
  have hlines : linesOf line = [⟨0, 0, line.toList⟩] := by
    rw [linesOf, lines_of_not_mem hline]
    rfl
  cases htokens : tokensOfLine vocabulary.keywords.phrases line.toList with
  | error defect => simp [scan, hlines, Line.skipped?, Line.tokens, htokens, Except.map] at hread
  | ok tokens =>
    refine ⟨tokens, rfl, ?_⟩
    cases tokens <;>
      simp [scan, hlines, Line.contribution, Line.tokens, htokens, Except.map, Token.shift,
        Token.endOfSource]

/-- The keyword for the end is found where it stands. -/
theorem longest?_finish {segment : Segment} (later : List Segment)
    (h : segment.isWord vocabulary.keywords.finish.toList = true) :
    Phrase.longest? vocabulary.keywords.phrases (segment :: later) =
      some ⟨vocabulary.keywords.finish.toList, [], .finish⟩ := by
  obtain ⟨hmem, hunique⟩ := phrase_finish vocabulary
  cases hlongest : Phrase.longest? vocabulary.keywords.phrases (segment :: later) with
  | none =>
    have hfits := Phrase.fits_of_longest?_eq_none hlongest _ hmem
    simp [Phrase.fits, Phrase.words, Phrase.wordsFit, h] at hfits
  | some phrase =>
    obtain ⟨hphrase, hfits⟩ := Phrase.mem_of_longest? hlongest
    rw [Phrase.fits, Phrase.words, Phrase.wordsFit, Bool.and_eq_true] at hfits
    -- The segment is the first word of the phrase and the keyword.
    simp only [Segment.isWord, Bool.and_eq_true, decide_eq_true_eq] at h hfits
    rw [hunique phrase hphrase (.inl (hfits.1.2.symm.trans h.2))]

/-- The keyword for the end is a segment of its own if no word character follows it. -/
theorem exists_segmentsOf_finish {segments : List Segment} (hgap : isBlankText gap = true)
    (hrest : Segment.Begins (!isWordChar ·) rest)
    (h : segmentsOf (gap ++ (vocabulary.keywords.finish.toList ++ rest)) = .ok segments) :
    ∃ segment later, segments = segment :: later ∧
      segment.isWord vocabulary.keywords.finish.toList = true := by
  obtain ⟨-, -, hwords⟩ := spelling_of_mem_phrases vocabulary _ (phrase_finish vocabulary).1
  obtain ⟨hne, hchars⟩ := hwords _ List.mem_cons_self
  obtain ⟨c, tail, hfinish⟩ := List.exists_cons_of_ne_nil hne
  dsimp only at hfinish
  rw [hfinish] at hchars
  obtain ⟨⟨hc, hdigit⟩, htail⟩ := List.forall_mem_cons.mp hchars
  have hmunch : Segment.munch none c (tail ++ rest) = .ok (.word, tail, rest) := by
    refine Segment.munch_word hc (fun d hd => ?_) fun d hd => ?_
    · simp [Segment.continues, (htail d hd).1]
    · simpa [Segment.continues, hdigit] using hrest d hd
  rw [segmentsOf, Segment.cutAll_gap hgap, hfinish, List.cons_append,
    Segment.cutAll_of_ok (isBlank_of_isWordChar hc) hmunch] at h
  obtain ⟨later, -, rfl⟩ := exists_of_map_eq_ok h
  exact ⟨_, later, rfl, by simp [Segment.isWord, hfinish]⟩

/-- A keyword for the end that no word character goes on with is the first token. -/
theorem kind_eq_finish {tokens : List Token} (hgap : isBlankText gap = true)
    (hrest : Segment.Begins (!isWordChar ·) rest)
    (h : tokensOfLine vocabulary.keywords.phrases
      (gap ++ (vocabulary.keywords.finish.toList ++ rest)) = .ok tokens) :
    tokens.head?.map Token.kind = some .finish := by
  have hcode : codeOf (gap ++ (vocabulary.keywords.finish.toList ++ rest)) =
      gap ++ (vocabulary.keywords.finish.toList ++ codeOf rest) := by
    obtain ⟨c, tail, hfinish, hc, htail⟩ := isWordText_finish vocabulary
    rw [codeOf_append (Zone.isCode_of_isBlankText hgap none), hfinish,
      codeOf_append (by rw [Segment.after_word hc htail]; rfl)]
  have hbegins : Segment.Begins (!isWordChar ·) (codeOf rest) := by
    -- The code begins as the whole does, if it is not empty.
    obtain ⟨comment, hcomment⟩ := beforeComment_append none rest
    intro d hd
    refine hrest d ?_
    rw [hcomment, List.head?_append]
    exact Option.mem_def.mpr (by rw [← codeOf, Option.mem_def.mp hd]; rfl)
  obtain ⟨segments, hsegments, htokens⟩ := tokensOfLine_eq_ok_iff.mp h
  rw [hcode] at hsegments
  obtain ⟨segment, later, rfl, hword⟩ := exists_segmentsOf_finish hgap hbegins hsegments
  rw [Segment.tokens, longest?_finish later hword] at htokens
  obtain ⟨others, -, rfl⟩ := exists_of_map_eq_ok htokens
  rfl

/-- The keyword for the end is spelled where its token is. -/
theorem eq_of_reads_finish {slice : List Char} {face : Token.Kind × Token.Payload}
    (h : Token.Reads vocabulary.keywords.phrases slice face) (hkind : face.1 = .finish) :
    slice = vocabulary.keywords.finish.toList := by
  cases h with
  | @phrase phrase _ hmem hspaced =>
    rw [(phrase_finish vocabulary).2 phrase hmem (.inr hkind)] at hspaced
    cases hspaced with
    | last => rfl
    | more _ _ hnil => cases hnil
  | segment _ _ hclassify =>
    obtain ⟨kind, payload⟩ := face
    obtain rfl : kind = .finish := hkind
    -- No segment alone stands for a keyword.
    rcases Segment.classify_cases hclassify with
      ⟨-, hkind, -⟩ | ⟨-, hkind, -⟩ | ⟨-, hmark, -⟩ | ⟨-, hword⟩
    · cases hkind
    · cases hkind
    · unfold Segment.markKind? at hmark
      split at hmark <;> cases hmark
    · rcases Segment.classifyWord_cases hword with
        ⟨hkind, -⟩ | ⟨hkind, -⟩ | ⟨hkind, -⟩ | ⟨hkind, -⟩ <;> simp at hkind

theorem exists_of_kind_finish {text : List Char} {tokens : List Token}
    (h : tokensOfLine vocabulary.keywords.phrases text = .ok tokens)
    (hkind : tokens.head?.map Token.kind = some .finish) : ∃ gap rest, isBlankText gap = true ∧
      text = gap ++ (vocabulary.keywords.finish.toList ++ rest) := by
  obtain ⟨comment, htext⟩ := beforeComment_append none text
  have hspread := Token.spread_of_tokensOfLine h
  generalize hcode : codeOf text = code at hspread
  cases hspread with
  | done => cases hkind
  | @token _ gap slice rest token tokens hgap _ hreads =>
    obtain rfl := eq_of_reads_finish hreads (Option.some.inj hkind)
    refine ⟨gap, rest ++ comment, hgap, ?_⟩
    rw [htext, ← codeOf, hcode, List.append_assoc, List.append_assoc]

/-- Before a blank and before a colon, no word character goes on with the keyword. -/
theorem Detached.begins (h : Detached rest) : Segment.Begins (!isWordChar ·) rest := by
  rcases h with hblank | ⟨after, rfl, -⟩
  · exact fun c hc => by simp [isWordChar_of_isBlank (hblank c hc)]
  · intro c hc
    obtain rfl : ':' = c := Option.some.inj hc
    decide

/-- If a session takes a line for the end of a program, its first token is the keyword for that. If
its first token is, then the session takes it so exactly if the keyword is detached from what
follows. -/
theorem ends_agree (hline : '\n' ∉ line.toList) (hread : (scan line vocabulary).skipped = []) :
    (closesProgram line vocabulary = true →
      (scan line vocabulary).tokens.head?.map Token.kind = some .finish) ∧
    ((scan line vocabulary).tokens.head?.map Token.kind = some .finish →
      ∃ gap rest, isBlankText gap = true ∧
        line.toList = gap ++ (vocabulary.keywords.finish.toList ++ rest) ∧
        (closesProgram line vocabulary = true ↔ Detached rest)) := by
  obtain ⟨tokens, htokens, hhead⟩ := exists_tokensOfLine hline hread
  rw [hhead]
  constructor
  · intro hcloses
    obtain ⟨gap, rest, hgap, htext, hdetached⟩ := exists_detached_of_closesProgram hcloses
    rw [htext] at htokens
    rw [kind_eq_finish hgap hdetached.begins htokens]
    rfl
  · intro hkind
    have hfirst : tokens.head?.map Token.kind = some .finish := by
      cases tokens with
      | nil => cases hkind
      | cons token tokens => exact hkind
    obtain ⟨gap, rest, hgap, htext⟩ := exists_of_kind_finish htokens hfirst
    exact ⟨gap, rest, hgap, htext, closesProgram_iff hgap htext⟩

/-- A keyword with a colon and a comment behind a blank closes a program. -/
theorem ends_agree_comment : '\n' ∉ "  samaapt: # done".toList ∧
    (scan "  samaapt: # done" .colorful).skipped = [] ∧
    closesProgram "  samaapt: # done" .colorful = true ∧
    (scan "  samaapt: # done" .colorful).tokens.head?.map Token.kind = some .finish := by
  have hline : '\n' ∉ "  samaapt: # done".toList := by decide
  have hread : (scan "  samaapt: # done" .colorful).skipped = [] := by cbv
  have hcloses : closesProgram "  samaapt: # done" .colorful = true := by decide +kernel
  exact ⟨hline, hread, hcloses, (ends_agree hline hread).1 hcloses⟩

/-- With the comment written against the colon, the session goes on with the program. -/
theorem not_closesProgram_comment : (scan "end:# done" .plain).skipped = [] ∧
    ¬ (closesProgram "end:# done" .plain = true ↔
      (scan "end:# done" .plain).tokens.head?.map Token.kind = some .finish) := by
  have hkind : (scan "end:# done" .plain).tokens.head?.map Token.kind = some .finish := by cbv
  have hopen : closesProgram "end:# done" .plain = false := by decide +kernel
  refine ⟨by cbv, fun h => ?_⟩
  rw [h.mpr hkind] at hopen
  cases hopen

end

end LineScript
