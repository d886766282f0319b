import LineScript.Proofs.Interpreter.Edits
import LineScript.Proofs.Line.Origins
import LineScript.Proofs.Line.Zones
import LineScript.Proofs.Scan.Lines
import Mathlib.Logic.Relation

/-!
# How much white space there is does not matter

In the code of a line, blanks end what stands before them and are left out. So a run of blanks may
be replaced by another one, and blanks at the two ends of the code may be added and removed
(`Respaced`): the segments of the line have the same contents, though they start at other bytes
(`contentsOf_of_respaced`), and contents are all that tokens and defects depend on. So respaced
scripts do the same (`execute_of_respaced`).
-/

namespace LineScript

open Text

/-! ### Cutting around blanks -/

namespace Segment

variable {previous previous' : Option Char} {text more : List Char}

/-- Of the character before a text, it matters only whether it is a word character. -/
theorem cutAll_congr (h : previous.any isWordChar = previous'.any isWordChar) (offset : Nat)
    (text : List Char) : cutAll previous offset text = cutAll previous' offset text := by
  cases text with
  | nil => rw [cutAll, cutAll]
  | cons c rest =>
    by_cases hblank : isBlank c = true
    · rw [cutAll, cutAll, if_pos hblank, if_pos hblank]
    have hblank : isBlank c = false := by simpa using hblank
    have hmunch : munch previous c rest = munch previous' c rest := by rw [munch, munch, h]
    cases hresult : munch previous c rest with
    | error defect =>
      rw [cutAll_of_error hblank hresult, cutAll_of_error hblank (hmunch.symm.trans hresult)]
    | ok result =>
      rw [cutAll_of_ok hblank hresult, cutAll_of_ok hblank (hmunch.symm.trans hresult)]

/-- Before a blank, it does not matter at all. -/
theorem cutAll_of_begins (h : Begins isBlank text) (offset : Nat) :
    cutAll previous offset text = cutAll none offset text := by
  cases text with
  | nil => rw [cutAll, cutAll]
  | cons c rest =>
    have hblank : isBlank c = true := h c rfl
    rw [cutAll, cutAll, if_pos hblank, if_pos hblank]

/-- Blanks before a text are passed over. -/
theorem cutAll_gap {gap : List Char} (h : isBlankText gap = true) (offset : Nat)
    (text : List Char) :
    cutAll none offset (gap ++ text) = cutAll none (offset + byteSize gap) text := by
  induction gap generalizing offset with
  | nil => rfl
  | cons c gap ih =>
    simp only [isBlankText, List.all_cons, Bool.and_eq_true] at h
    have hnone : (some c).any isWordChar = (none : Option Char).any isWordChar :=
      isWordChar_of_isBlank h.1
    rw [List.cons_append, cutAll, if_pos h.1, cutAll_congr hnone, ih h.2, byteSize_cons,
      Nat.add_assoc]

/-- A text that ends in the code and what follows it after a blank are cut each by itself. -/
theorem cutAll_append (h : ((Zone.code previous).after text).isCode = true)
    (hmore : Begins isBlank more) (offset : Nat) :
    cutAll previous offset (text ++ more) = (cutAll previous offset text).bind fun segments =>
      (cutAll none (offset + byteSize text) more).map (segments ++ ·) := by
  -- The segments of the text are cut off one by one, until only what follows remains.
  induction previous, offset, text using cutAll.induct with
  | case1 previous offset =>
    rw [List.nil_append, cutAll_of_begins hmore, cutAll]
    show _ = (cutAll none offset more).map ([] ++ ·)
    cases cutAll none offset more <;> rfl
  | case2 previous offset c rest hblank ih =>
    rw [Zone.after_cons, Zone.step_of_isBlank hblank] at h
    rw [List.cons_append, cutAll, if_pos hblank, ih h, cutAll, if_pos hblank, byteSize_cons,
      Nat.add_assoc]
  | case3 previous offset c rest hblank defect hmunch =>
    have hblank : isBlank c = false := by simpa using hblank
    have hmunch' := munch_append_of_error h hmunch hmore
    rw [List.cons_append, cutAll_of_error hblank hmunch', cutAll_of_error hblank hmunch]
    rfl
  | case4 previous offset c rest hblank shape tail remaining hmunch _ ih =>
    have hblank : isBlank c = false := by simpa using hblank
    obtain ⟨hmunch', hafter⟩ := munch_append_of_ok h hmunch hmore
    have hsize : offset + byteSize (c :: tail) + byteSize remaining =
        offset + byteSize (c :: rest) := by
      rw [← tail_append_of_munch hmunch, ← List.cons_append, byteSize_append, Nat.add_assoc]
    rw [hafter] at h
    rw [List.cons_append, cutAll_of_ok hblank hmunch', cutAll_of_ok hblank hmunch, ih h, hsize]
    cases cutAll (c :: tail).getLast? (offset + byteSize (c :: tail)) remaining with
    | error defect => rfl
    | ok segments => cases cutAll none (offset + byteSize (c :: rest)) more <;> rfl

/-! ### Contents -/

/-- The contents of segments do not depend on where the text starts. -/
theorem map_content_cutAll (previous : Option Char) (offset other : Nat) (text : List Char) :
    (cutAll previous offset text).map (List.map content) =
      (cutAll previous other text).map (List.map content) := by
  induction previous, offset, text using cutAll.induct generalizing other with
  | case1 previous offset => rw [cutAll, cutAll]
  | case2 previous offset c rest hblank ih =>
    rw [cutAll, cutAll, if_pos hblank, if_pos hblank]
    exact ih (other + c.utf8Size)
  | case3 previous offset c rest hblank defect hmunch =>
    have hblank : isBlank c = false := by simpa using hblank
    rw [cutAll_of_error hblank hmunch, cutAll_of_error hblank hmunch]
  | case4 previous offset c rest hblank shape tail remaining hmunch _ ih =>
    have hblank : isBlank c = false := by simpa using hblank
    have hcons (offset : Nat) (result : Except Defect (List Segment)) :
        (result.map (⟨shape, c :: tail, offset⟩ :: ·)).map (List.map content) =
          (result.map (List.map content)).map ((shape, c :: tail) :: ·) := by
      cases result <;> rfl
    rw [cutAll_of_ok hblank hmunch, cutAll_of_ok hblank hmunch, hcons, hcons,
      ih (other + byteSize (c :: tail))]

end Segment

/-- The contents of the segments of a text. -/
def contentsOf (code : List Char) : Except Defect (List (Segment.Shape × List Char)) :=
  (segmentsOf code).map (List.map Segment.content)

/-- Blanks before a text are not in its contents. -/
theorem contentsOf_gap {gap : List Char} (h : isBlankText gap = true) (text : List Char) :
    contentsOf (gap ++ text) = contentsOf text := by
  rw [contentsOf, contentsOf, segmentsOf, segmentsOf, Segment.cutAll_gap h]
  exact Segment.map_content_cutAll none _ 0 text

/-- The contents of a text with a blank in the code are those of what stands before and of what
stands after it. -/
theorem contentsOf_append {text more : List Char}
    (h : ((Zone.code none).after text).isCode = true) (hmore : Segment.Begins isBlank more) :
    contentsOf (text ++ more) =
      (contentsOf text).bind fun contents => (contentsOf more).map (contents ++ ·) := by
  have hcontents (offset : Nat) : contentsOf more =
      (Segment.cutAll none offset more).map (List.map Segment.content) :=
    Segment.map_content_cutAll none 0 offset more
  rw [hcontents (0 + byteSize text), contentsOf, contentsOf, segmentsOf, segmentsOf,
    Segment.cutAll_append h hmore]
  cases Segment.cutAll none 0 text with
  | error defect => rfl
  | ok segments =>
    cases hlater : Segment.cutAll none (0 + byteSize text) more with
    | error defect => rfl
    | ok later => simp [Except.map, Except.bind]

/-! ### Respaced lines -/

/-- A run of blanks of a line is replaced by another one, in the code. The two may be empty only at
the beginning and at the end of the code, where they separate nothing. -/
inductive Respaced : List Char → List Char → Prop
  | intro (before : List Char) {gap gap' : List Char} (after : List Char) :
      ((Zone.code none).after before).isCode = true →
      isBlankText gap = true → isBlankText gap' = true →
      (gap ≠ [] ∧ gap' ≠ [] ∨ before = [] ∨ after = [] ∨ after.head? = some '#') →
      Respaced (before ++ (gap ++ after)) (before ++ (gap' ++ after))

/-- A text begins with a blank if it begins with a run of them, and if it is one. -/
theorem Segment.begins_gap {gap rest : List Char} (h : isBlankText gap = true)
    (hrest : gap ≠ [] ∨ rest = []) : Begins isBlank (gap ++ rest) := by
  intro c hc
  cases gap with
  | nil =>
    obtain rfl := hrest.resolve_left (· rfl)
    cases hc
  | cons d gap =>
    obtain rfl : d = c := Option.some.inj hc
    exact List.all_eq_true.mp h d List.mem_cons_self

/-- Respaced lines have segments with the same contents. -/
theorem contentsOf_of_respaced {line line' : List Char} (h : Respaced line line') :
    contentsOf (codeOf line) = contentsOf (codeOf line') := by
  obtain @⟨before, gap, gap', after, hcode, hgap, hgap', hends⟩ := h
  have hgaps {gap : List Char} (hgap : isBlankText gap = true) :
      codeOf (before ++ (gap ++ after)) = before ++ (gap ++ codeOf after) := by
    rw [codeOf_append hcode, codeOf_append (Zone.isCode_of_isBlankText hgap none)]
  rw [hgaps hgap, hgaps hgap']
  by_cases hbefore : before = []
  · rw [hbefore, List.nil_append, List.nil_append, contentsOf_gap hgap, contentsOf_gap hgap']
  -- The code after the run is empty, or a blank is kept between it and what comes before.
  have hends : gap ≠ [] ∧ gap' ≠ [] ∨ codeOf after = [] := by
    rcases hends with hne | hnil | rfl | hcomment
    · exact .inl hne
    · exact absurd hnil hbefore
    · exact .inr rfl
    · obtain ⟨comment, rfl⟩ := List.head?_eq_some_iff.mp hcomment
      exact .inr rfl
  rw [contentsOf_append hcode (Segment.begins_gap hgap (hends.imp_left And.left)),
    contentsOf_append hcode (Segment.begins_gap hgap' (hends.imp_left And.right)),
    contentsOf_gap hgap, contentsOf_gap hgap']

/-! ### Tokens -/

theorem Segment.classify_of_content {segment segment' : Segment}
    (h : segment.content = segment'.content) : segment.classify = segment'.classify := by
  obtain ⟨hshape, htext⟩ := Prod.mk.inj h
  rw [classify, classify, hshape, htext]

/-- A token without the bytes that it covers. -/
def Token.unspanned (token : Token) : Token :=
  { token with span := ⟨0, 0⟩ }

namespace Phrase

variable {segments segments' : List Segment}

/-- Which words stand at a place is told by contents. -/
theorem wordsFit_of_contents (h : segments.map Segment.content = segments'.map Segment.content)
    (words : List (List Char)) : wordsFit words segments = wordsFit words segments' := by
  induction words generalizing segments segments' with
  | nil => rfl
  | cons word words ih =>
    cases segments with
    | nil =>
      obtain rfl : segments' = [] := by simpa using h.symm
      rfl
    | cons segment segments =>
      obtain ⟨segment', others, rfl, hsegment, hothers⟩ := List.map_eq_cons_iff.mp h.symm
      obtain ⟨hshape, htext⟩ := Prod.mk.inj hsegment
      rw [wordsFit, wordsFit, ih hothers.symm, Segment.isWord, Segment.isWord, hshape, htext]

theorem longest?_of_contents (h : segments.map Segment.content = segments'.map Segment.content)
    (phrases : List Phrase) : longest? phrases segments = longest? phrases segments' := by
  have hfits (phrase : Phrase) : phrase.fits segments = phrase.fits segments' :=
    wordsFit_of_contents h phrase.words
  refine congrArg (fun best => phrases.foldl best none) ?_
  funext best phrase
  rw [hfits]

end Phrase

/-- Segments with the same contents make the same tokens, or have the same defect. -/
theorem Segment.tokens_of_contents {phrases : List Phrase} {segments segments' : List Segment}
    (h : segments.map content = segments'.map content) :
    (tokens phrases segments).map (List.map Token.unspanned) =
      (tokens phrases segments').map (List.map Token.unspanned) := by
  have hcons (token : Token) (result : Except Defect (List Token)) :
      (result.map (token :: ·)).map (List.map Token.unspanned) =
        (result.map (List.map Token.unspanned)).map (token.unspanned :: ·) := by
    cases result <;> rfl
  induction segments using Segment.tokens.induct phrases generalizing segments' with
  | case1 =>
    obtain rfl : segments' = [] := by simpa using h.symm
    rfl
  | case2 segment rest phrase hphrase ih =>
    have hphrase' := (Phrase.longest?_of_contents h phrases).symm.trans hphrase
    obtain ⟨segment', rest', rfl, -, hrest⟩ := List.map_eq_cons_iff.mp h.symm
    have hlater : (rest.drop phrase.others.length).map content =
        (rest'.drop phrase.others.length).map content := by
      rw [List.map_drop, List.map_drop, hrest]
    rw [tokens, tokens, hphrase, hphrase']
    dsimp only
    rw [hcons, hcons, ih hlater]
    rfl
  | case3 segment rest hnone defect hdefect =>
    have hnone' := (Phrase.longest?_of_contents h phrases).symm.trans hnone
    obtain ⟨segment', rest', rfl, hsegment, -⟩ := List.map_eq_cons_iff.mp h.symm
    have hdefect' := (classify_of_content hsegment).trans hdefect
    rw [tokens, tokens, hnone, hnone', hdefect, hdefect']
  | case4 segment rest hnone kind payload hclassify ih =>
    have hnone' := (Phrase.longest?_of_contents h phrases).symm.trans hnone
    obtain ⟨segment', rest', rfl, hsegment, hrest⟩ := List.map_eq_cons_iff.mp h.symm
    have hclassify' := (classify_of_content hsegment).trans hclassify
    rw [tokens, tokens, hnone, hnone', hclassify, hclassify']
    dsimp only
    rw [hcons, hcons, ih hrest.symm]
    rfl

/-- Respaced lines have the same tokens, or the same defect. -/
theorem tokensOfLine_of_respaced {line line' : List Char}
    (h : Relation.ReflTransGen Respaced line line') (phrases : List Phrase) :
    (tokensOfLine phrases line).map (List.map Token.unspanned) =
      (tokensOfLine phrases line').map (List.map Token.unspanned) := by
  induction h with
  | refl => rfl
  | @tail middle last _ hstep ih =>
    have hcontents := contentsOf_of_respaced hstep
    rw [contentsOf, contentsOf] at hcontents
    rw [ih, tokensOfLine_eq_bind, tokensOfLine_eq_bind]
    cases hmiddle : segmentsOf (codeOf middle) with
    | error defect =>
      rw [hmiddle] at hcontents
      rw [map_eq_error_iff.mp hcontents.symm]
    | ok segments =>
      rw [hmiddle] at hcontents
      obtain ⟨segments', hlast, hsegments⟩ := exists_of_map_eq_ok hcontents.symm
      rw [hlast]
      exact Segment.tokens_of_contents hsegments.symm

/-! ### Sources -/

/-- Lines with the same tokens, as many lines after the beginning of a source, add the same tokens
to it and are left out for the same defect. -/
theorem Line.eq_of_tokensOfLine {phrases : List Phrase} {text text' : List Char}
    (h : (tokensOfLine phrases text).map (List.map Token.unspanned) =
      (tokensOfLine phrases text').map (List.map Token.unspanned)) (before offset offset' : Nat) :
    (contribution phrases ⟨before, offset, text⟩).map Token.unspanned =
        (contribution phrases ⟨before, offset', text'⟩).map Token.unspanned ∧
      skipped? phrases ⟨before, offset, text⟩ = skipped? phrases ⟨before, offset', text'⟩ := by
  have hshift (offset : Nat) (own : List Token) :
      (own.map (·.shift before offset)).map Token.unspanned =
        (own.map Token.unspanned).map fun token => (token.shift before 0).unspanned := by
    rw [List.map_map, List.map_map]
    rfl
  rw [contribution, contribution, skipped?, skipped?, Line.tokens, Line.tokens]
  dsimp only
  cases htext : tokensOfLine phrases text with
  | error defect =>
    rw [htext] at h
    rw [map_eq_error_iff.mp h.symm]
    exact ⟨rfl, rfl⟩
  | ok own =>
    rw [htext] at h
    obtain ⟨own', htext', hown⟩ := exists_of_map_eq_ok h.symm
    rw [htext']
    exact ⟨by rw [Except.map, Except.map, hshift, hshift, hown], rfl⟩

theorem eq_of_respaced_lines {texts texts' : List (List Char)}
    (h : List.Forall₂ (Relation.ReflTransGen Respaced) texts texts') (phrases : List Phrase)
    (before offset offset' : Nat) :
    ((Line.place before offset texts).flatMap (Line.contribution phrases)).map Token.unspanned =
        ((Line.place before offset' texts').flatMap (Line.contribution phrases)).map
          Token.unspanned ∧
      (Line.place before offset texts).filterMap (Line.skipped? phrases) =
        (Line.place before offset' texts').filterMap (Line.skipped? phrases) := by
  induction h generalizing before offset offset' with
  | nil => exact ⟨rfl, rfl⟩
  | @cons text text' texts texts' hline hlines ih =>
    obtain ⟨htokens, hskipped⟩ :=
      Line.eq_of_tokensOfLine (tokensOfLine_of_respaced hline phrases) before offset offset'
    obtain ⟨hlaterTokens, hlaterSkipped⟩ :=
      ih (before + 1) (offset + byteSize text + 1) (offset' + byteSize text' + 1)
    rw [Line.place, Line.place]
    refine ⟨?_, ?_⟩
    · rw [List.flatMap_cons, List.flatMap_cons, List.map_append, List.map_append, htokens,
        hlaterTokens]
    · rw [List.filterMap_cons, List.filterMap_cons, hskipped, hlaterSkipped]

/-- In respaced sources the same lines are left out for the same defects, and all tokens have the
same kinds and payloads and are on the same lines. -/
theorem scan_of_respaced {source source' : String}
    (h : List.Forall₂ (Relation.ReflTransGen Respaced) (lines source.toList)
      (lines source'.toList)) (vocabulary : Vocabulary) :
    (scan source vocabulary).tokens.map Token.unspanned =
        (scan source' vocabulary).tokens.map Token.unspanned ∧
      (scan source vocabulary).skipped = (scan source' vocabulary).skipped := by
  obtain ⟨htokens, hskipped⟩ := eq_of_respaced_lines h vocabulary.keywords.phrases 0 0 0
  have hlength : (linesOf source).length = (linesOf source').length := by
    rw [linesOf, linesOf, length_place, length_place, h.length_eq]
  refine ⟨?_, hskipped⟩
  rw [scan, scan]
  dsimp only
  rw [List.map_append, List.map_append, hlength]
  exact congrArg (· ++ _) htokens

/-- Blanks are added before a phrase of two words and between them, and taken away before a
comment. -/
theorem scan_respaced_phrase :
    List.Forall₂ (Relation.ReflTransGen Respaced) (lines "lakh chodya: x # y".toList)
        (lines "\tlakh   chodya: x# y".toList) ∧
      (scan "lakh chodya: x # y" .colorful).tokens.map Token.unspanned =
        (scan "\tlakh   chodya: x# y" .colorful).tokens.map Token.unspanned := by
  have hstart : Respaced "lakh chodya: x # y".toList "\tlakh chodya: x # y".toList :=
    @Respaced.intro [] [] ['\t'] "lakh chodya: x # y".toList rfl rfl rfl (.inr (.inl rfl))
  have hinside : Respaced "\tlakh chodya: x # y".toList "\tlakh   chodya: x # y".toList :=
    @Respaced.intro "\tlakh".toList [' '] [' ', ' ', ' '] "chodya: x # y".toList (by decide +kernel)
      rfl rfl (.inl ⟨List.cons_ne_nil _ _, List.cons_ne_nil _ _⟩)
  have hend : Respaced "\tlakh   chodya: x # y".toList "\tlakh   chodya: x# y".toList :=
    @Respaced.intro "\tlakh   chodya: x".toList [' '] [] "# y".toList (by decide +kernel) rfl rfl
      (.inr (.inr (.inr rfl)))
  have h : List.Forall₂ (Relation.ReflTransGen Respaced) (lines "lakh chodya: x # y".toList)
      (lines "\tlakh   chodya: x# y".toList) :=
    .cons (((Relation.ReflTransGen.single hstart).tail hinside).tail hend) .nil
  exact ⟨h, (scan_of_respaced h .colorful).1⟩

/-- Respaced scripts do the same. -/
theorem execute_of_respaced (settings : Settings) {source source' : String}
    (h : List.Forall₂ (Relation.ReflTransGen Respaced) (lines source.toList)
      (lines source'.toList)) : settings.execute source = settings.execute source' := by
  have hface (tokens : List Token) :
      tokens.map Token.face = (tokens.map Token.unspanned).map Token.face := by
    rw [List.map_map]
    rfl
  apply settings.execute_of_faces
  rw [hface, hface (lineTokens source' settings.vocabulary)]
  exact congrArg _ (eq_of_respaced_lines h settings.vocabulary.keywords.phrases 0 0 0).1

end LineScript
