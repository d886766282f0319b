import LineScript.Proofs.Interpreter.Locations

/-!
# Scanning is line by line

What is read from a source is what is read from its lines, one after the other. If a source is cut
at a line feed, the two parts are scanned each by itself, and the tokens and notes of the second are
moved behind those of the first (`tokens_scan_append`, `skipped_scan_append`). A line is blank, left
out or read (`exists_meets`), and never two of these (`Line.Meets.unique`).
-/

namespace LineScript

open Text

/-! ### Two sources, one after the other -/

namespace Text

/-- The bytes of a string are those of its characters. -/
theorem byteSize_toList (source : String) : byteSize source.toList = source.utf8ByteSize := by
  have hofList (text : List Char) : byteSize text = (String.ofList text).utf8ByteSize := by
    induction text with
    | nil => rfl
    | cons c text ih =>
      rw [byteSize_cons, ih, String.ofList_cons, String.utf8ByteSize_append,
        String.utf8ByteSize_singleton]
  rw [hofList, String.ofList_toList]

/-- The lines of two texts with a line feed between them are the lines of the two. -/
theorem lines_append_lines (first second : List Char) :
    lines (first ++ '\n' :: second) = lines first ++ lines second := by
  induction first using lines_induction with
  | single text htext => rw [lines_append htext, lines_of_not_mem htext, List.singleton_append]
  | more text rest htext ih =>
    rw [List.append_assoc, List.cons_append, lines_append htext, ih, lines_append htext,
      List.cons_append]

end Text

/-- A note about a line of a text that follows `lines` lines of another one, as a note about a line
of the whole. -/
def SkippedLine.shift (note : SkippedLine) (lines : Nat) : SkippedLine :=
  { note with line := lines + note.line }

/-- The number that tokens and notes give a line. -/
def Line.number (line : Line) : Nat :=
  line.before + 1

theorem Token.shift_shift (token : Token) (lines bytes moreLines moreBytes : Nat) :
    (token.shift lines bytes).shift moreLines moreBytes =
      token.shift (moreLines + lines) (moreBytes + bytes) := by
  simp [shift, Span.shift, Nat.add_assoc]

namespace Line

/-- A line of a text that follows `lines` lines and `bytes` bytes of another one, as a line of the
whole. -/
def shift (line : Line) (lines bytes : Nat) : Line :=
  ⟨lines + line.before, bytes + line.offset, line.text⟩

/-- A line is read the same wherever it stands. -/
theorem tokens_shift (phrases : List Phrase) (line : Line) (lines bytes : Nat) :
    (line.shift lines bytes).tokens phrases =
      (line.tokens phrases).map (List.map (·.shift lines bytes)) := by
  have htext : (line.shift lines bytes).text = line.text := rfl
  rw [tokens, tokens, htext]
  cases tokensOfLine phrases line.text with
  | error defect => rfl
  | ok own =>
    refine congrArg Except.ok ?_
    rw [List.map_map]
    exact List.map_congr_left fun token _ => (token.shift_shift _ _ _ _).symm

theorem contribution_shift (phrases : List Phrase) (line : Line) (lines bytes : Nat) :
    (line.shift lines bytes).contribution phrases =
      (line.contribution phrases).map (·.shift lines bytes) := by
  rw [contribution, contribution, tokens_shift]
  cases line.tokens phrases <;> rfl

theorem skipped?_shift (phrases : List Phrase) (line : Line) (lines bytes : Nat) :
    (line.shift lines bytes).skipped? phrases =
      (line.skipped? phrases).map (·.shift lines) := by
  rw [skipped?, skipped?, tokens_shift]
  cases line.tokens phrases with
  | error defect => simp [Except.map, shift, SkippedLine.shift, Nat.add_assoc]
  | ok own => rfl

/-- Texts that are placed further on are the lines that they were, shifted. -/
theorem place_add (lines bytes before offset : Nat) (texts : List (List Char)) :
    place (lines + before) (bytes + offset) texts =
      (place before offset texts).map (·.shift lines bytes) := by
  induction texts generalizing before offset with
  | nil => rfl
  | cons text texts ih =>
    have hrest := ih (before + 1) (offset + byteSize text + 1)
    simp only [← Nat.add_assoc] at hrest
    rw [place, place, List.map_cons, hrest]
    rfl

/-- The lines after a line feed are placed behind those before it. -/
theorem place_lines_append (before offset : Nat) (first second : List Char) :
    place before offset (lines first ++ lines second) =
      place before offset (lines first) ++
        place (before + (lines first).length) (offset + byteSize first + 1) (lines second) := by
  induction first using lines_induction generalizing before offset with
  | single text htext =>
    rw [lines_of_not_mem htext]
    rfl
  | more text rest htext ih =>
    have hbytes : byteSize (text ++ '\n' :: rest) = byteSize text + 1 + byteSize rest := by
      rw [byteSize_append, byteSize_cons, ← Nat.add_assoc]
      rfl
    rw [lines_append htext, List.cons_append, place, place, ih, hbytes, List.length_cons,
      List.cons_append]
    congr 3 <;> omega

end Line

/-- The lines of two sources with a line feed between them. -/
theorem linesOf_append (first second : String) :
    linesOf (first ++ "\n" ++ second) = linesOf first ++
      (linesOf second).map
        (·.shift (lines first.toList).length (first.utf8ByteSize + 1)) := by
  have hchars : (first ++ "\n" ++ second).toList = first.toList ++ '\n' :: second.toList := by
    simp
  have hplace := Line.place_add (lines first.toList).length (first.utf8ByteSize + 1) 0 0
    (lines second.toList)
  simp only [Nat.add_zero] at hplace
  rw [linesOf, hchars, lines_append_lines, Line.place_lines_append, byteSize_toList, Nat.zero_add,
    Nat.zero_add, linesOf, linesOf, ← hplace]

section

variable (vocabulary : Vocabulary) (first second : String)

/-- The tokens of two sources with a line feed between them are those of the first without the one
for its end, and those of the second shifted. -/
theorem tokens_scan_append : (scan (first ++ "\n" ++ second) vocabulary).tokens =
    lineTokens first vocabulary ++ (scan second vocabulary).tokens.map
      (·.shift (lines first.toList).length (first.utf8ByteSize + 1)) := by
  have hlines : (linesOf (first ++ "\n" ++ second)).length =
      (lines first.toList).length + (linesOf second).length := by
    rw [linesOf_append, List.length_append, List.length_map, linesOf, length_place]
  have hbytes : byteSize (first ++ "\n" ++ second).toList =
      first.utf8ByteSize + 1 + byteSize second.toList := by
    rw [byteSize_toList, byteSize_toList, String.utf8ByteSize_append, String.utf8ByteSize_append]
    rfl
  rw [scan, hlines, hbytes]
  simp only [scan, lineTokens, linesOf_append, List.flatMap_append, List.flatMap_map,
    Line.contribution_shift, List.map_append, List.map_flatMap, List.append_assoc]
  rfl

theorem skipped_scan_append : (scan (first ++ "\n" ++ second) vocabulary).skipped =
    (scan first vocabulary).skipped ++ (scan second vocabulary).skipped.map
      (·.shift (lines first.toList).length) := by
  simp only [scan, linesOf_append, List.filterMap_append, List.filterMap_map, List.map_filterMap]
  congr 2
  funext line
  exact line.skipped?_shift _ _ _

end

/-! ### What becomes of a line -/

/-- What may become of a line. -/
inductive Line.Fate where
  /-- There is nothing on it but blanks and a comment. -/
  | blank
  /-- It is left out. -/
  | skipped
  /-- It has tokens. -/
  | read

namespace Scan

/-- The tokens that stand on a line, without the one for the end of the source. -/
def tokensOn (scan : Scan) (number : Nat) : List Token :=
  scan.tokens.filter fun token => token.kind ≠ .eof ∧ token.line = number

/-- The notes about a line. -/
def notesOn (scan : Scan) (number : Nat) : List SkippedLine :=
  scan.skipped.filter fun note => note.line = number

end Scan

/-- What a scan holds of a line that meets a fate. -/
def Line.Meets (scan : Scan) (line : Line) : Fate → Prop
  | .blank => isBlankText (codeOf line.text) = true ∧ scan.tokensOn line.number = [] ∧
      scan.notesOn line.number = []
  | .skipped => isBlankText (codeOf line.text) = false ∧ scan.tokensOn line.number = [] ∧
      ∃ note, scan.notesOn line.number = [note]
  | .read => isBlankText (codeOf line.text) = false ∧ scan.tokensOn line.number ≠ [] ∧
      scan.notesOn line.number = []

/-- What is made of numbered things in order can be told apart by their numbers. -/
theorem filter_flatMap_of_pairwise {α β : Type} {number : α → Nat} {made : α → List β}
    {from? : β → Nat} (hmade : ∀ a, ∀ b ∈ made a, from? b = number a) {things : List α}
    (h : things.Pairwise fun left right => number left < number right) {a : α} (ha : a ∈ things) :
    (things.flatMap made).filter (fun b => from? b = number a) = made a := by
  have hnone {others : List α} (hothers : ∀ other ∈ others, number other ≠ number a) :
      (others.flatMap made).filter (fun b => from? b = number a) = [] := by
    refine List.filter_eq_nil_iff.mpr fun b hb => ?_
    obtain ⟨other, hother, hb⟩ := List.mem_flatMap.mp hb
    simpa [hmade other b hb] using hothers other hother
  induction things with
  | nil => cases ha
  | cons thing things ih =>
    obtain ⟨hfirst, hrest⟩ := List.pairwise_cons.mp h
    rw [List.flatMap_cons, List.filter_append]
    rcases List.mem_cons.mp ha with rfl | ha
    · rw [hnone fun other hother => (hfirst other hother).ne', List.append_nil]
      exact List.filter_eq_self.mpr fun b hb => decide_eq_true (hmade a b hb)
    · have hthing : (made thing).filter (fun b => from? b = number a) = [] := by
        refine List.filter_eq_nil_iff.mpr fun b hb => ?_
        simpa [hmade thing b hb] using (hfirst a ha).ne
      rw [hthing, List.nil_append, ih hrest ha]

theorem lt_number_of_mem_place {before offset : Nat} {texts : List (List Char)} :
    ∀ line ∈ Line.place before offset texts, before < line.number := by
  induction texts generalizing before offset with
  | nil => exact nofun
  | cons text texts ih =>
    intro line hmem
    rcases List.mem_cons.mp hmem with rfl | hmem
    · exact Nat.lt_succ_self before
    · exact Nat.lt_of_succ_lt (ih line hmem)

/-- Lines are numbered in order. -/
theorem pairwise_number_place (before offset : Nat) (texts : List (List Char)) :
    (Line.place before offset texts).Pairwise fun left right => left.number < right.number := by
  induction texts generalizing before offset with
  | nil => exact .nil
  | cons text texts ih => exact .cons (fun line hmem => lt_number_of_mem_place line hmem) (ih _ _)

section

variable {source : String} {vocabulary : Vocabulary}

theorem pairwise_number :
    (linesOf source).Pairwise fun left right => left.number < right.number :=
  pairwise_number_place 0 0 _

theorem skipped_scan : (scan source vocabulary).skipped =
    (linesOf source).flatMap fun line =>
      (line.skipped? vocabulary.keywords.phrases).toList :=
  List.filterMap_eq_flatMap_toList _ _

theorem Line.line_of_mem_skipped? {phrases : List Phrase} {line : Line} {note : SkippedLine}
    (h : note ∈ (line.skipped? phrases).toList) : note.line = line.number := by
  rw [skipped?] at h
  cases htokens : line.tokens phrases with
  | error defect =>
    rw [htokens] at h
    rw [List.mem_singleton.mp h]
    rfl
  | ok tokens => simp [htokens] at h

/-- The notes about lines come in the order of the lines, which are those of the source. -/
theorem pairwise_skipped :
    (scan source vocabulary).skipped.Pairwise fun left right => left.line < right.line := by
  rw [skipped_scan]
  refine List.pairwise_flatMap.mpr ⟨fun line _ => ?_, ?_⟩
  · cases line.skipped? vocabulary.keywords.phrases <;> simp
  · refine pairwise_number.imp fun {left right} hlines note hnote other hother => ?_
    rwa [Line.line_of_mem_skipped? hnote, Line.line_of_mem_skipped? hother]

variable {line : Line} (hline : line ∈ linesOf source)

include hline

/-- The tokens on a line are those that it adds. -/
theorem tokensOn_scan : (scan source vocabulary).tokensOn line.number =
    line.contribution vocabulary.keywords.phrases := by
  have hown : (lineTokens source vocabulary).filter
      (fun token => token.kind ≠ .eof ∧ token.line = line.number) =
        (lineTokens source vocabulary).filter (fun token => token.line = line.number) := by
    refine List.filter_congr fun token htoken => ?_
    simp [(lossless_lineTokens source vocabulary).ne_eof token htoken]
  have hnumber (line : Line) (token : Token)
      (htoken : token ∈ line.contribution vocabulary.keywords.phrases) :
      token.line = line.number := (Line.exists_slice htoken).1
  rw [Scan.tokensOn, scan, List.filter_append, ← lineTokens, hown, lineTokens,
    filter_flatMap_of_pairwise hnumber pairwise_number hline]
  exact List.append_nil _

/-- The notes about a line are the one that it makes, if it makes one. -/
theorem notesOn_scan : (scan source vocabulary).notesOn line.number =
    (line.skipped? vocabulary.keywords.phrases).toList := by
  have hnumber (line : Line) (note : SkippedLine)
      (hnote : note ∈ (line.skipped? vocabulary.keywords.phrases).toList) :
      note.line = line.number := Line.line_of_mem_skipped? hnote
  rw [Scan.notesOn, skipped_scan, filter_flatMap_of_pairwise hnumber pairwise_number hline]

/-- A line is blank, or it is left out, or it has tokens. -/
theorem exists_meets : ∃ fate, line.Meets (scan source vocabulary) fate := by
  have htokens : (scan source vocabulary).tokensOn line.number = _ := tokensOn_scan hline
  have hnotes : (scan source vocabulary).notesOn line.number = _ := notesOn_scan hline
  cases hcode : isBlankText (codeOf line.text) with
  | true =>
    have hown : line.tokens vocabulary.keywords.phrases = .ok [] := by
      rw [Line.tokens, tokensOfLine, if_pos hcode]
      rfl
    rw [Line.contribution, hown] at htokens
    rw [Line.skipped?, hown] at hnotes
    exact ⟨.blank, hcode, htokens, hnotes⟩
  | false =>
    rcases line.contribution_cases vocabulary.keywords.phrases with
      ⟨note, hnote, -, hnone⟩ | ⟨hnote, hspread⟩
    · rw [hnone] at htokens
      rw [hnote] at hnotes
      exact ⟨.skipped, hcode, htokens, note, hnotes⟩
    · rw [hnote] at hnotes
      refine ⟨.read, hcode, ?_, hnotes⟩
      -- A character that is no blank is covered by a token.
      obtain ⟨c, hc, hvisible⟩ : ∃ c ∈ codeOf line.text, isBlank c = false := by
        simpa [isBlankText] using hcode
      obtain ⟨before, after, hsplit⟩ := List.append_of_mem hc
      obtain ⟨token, htoken, -⟩ := hspread.exists_token hsplit hvisible
      rw [htokens]
      exact List.ne_nil_of_mem htoken

omit hline in
/-- No two fates agree on whether there are tokens and notes. -/
theorem Line.Meets.unique {scan : Scan} {line : Line} {fate other : Line.Fate}
    (h : line.Meets scan fate) (hother : line.Meets scan other) : fate = other := by
  cases fate <;> cases other <;> simp_all [Line.Meets]

end

/-- Scanning is line by line. Two sources with a line feed between them give the tokens of the first
without the one for its end, then those of the second behind as many lines and bytes, and the notes
in the same way. The notes of a source are about its lines and in their order, each line has at most
one, and every line is either blank, or left out without any token, or read with a token or more. -/
theorem scan_line_by_line (vocabulary : Vocabulary) :
    (∀ first second : String, ∃ tokens stop,
      (scan first vocabulary).tokens = tokens ++ [stop] ∧ stop.kind = .eof ∧
      (∀ token ∈ tokens, token.kind ≠ .eof) ∧
      (scan (first ++ "\n" ++ second) vocabulary).tokens =
        tokens ++ (scan second vocabulary).tokens.map
          (·.shift (first.toList.count '\n' + 1) (first.utf8ByteSize + 1)) ∧
      (scan (first ++ "\n" ++ second) vocabulary).skipped =
        (scan first vocabulary).skipped ++ (scan second vocabulary).skipped.map
          (·.shift (first.toList.count '\n' + 1))) ∧
    ∀ source : String,
      ((scan source vocabulary).skipped.Pairwise fun left right => left.line < right.line) ∧
      (∀ note ∈ (scan source vocabulary).skipped,
        ∃ line : Line, line.IsIn source.toList ∧ note.line = line.number) ∧
      ∀ line : Line, line.IsIn source.toList →
        ∃! fate, line.Meets (scan source vocabulary) fate := by
  refine ⟨fun first second => ?_, fun source => ⟨pairwise_skipped, ?_, ?_⟩⟩
  · rw [← length_lines]
    exact ⟨lineTokens first vocabulary, _, rfl, rfl,
      (lossless_lineTokens first vocabulary).ne_eof, tokens_scan_append vocabulary first second,
      skipped_scan_append vocabulary first second⟩
  · intro note hnote
    rw [skipped_scan] at hnote
    obtain ⟨line, hline, hnote⟩ := List.mem_flatMap.mp hnote
    exact ⟨line, mem_linesOf_iff.mp hline, Line.line_of_mem_skipped? hnote⟩
  · intro line hline
    obtain ⟨fate, hfate⟩ : ∃ fate, line.Meets (scan source vocabulary) fate :=
      exists_meets (mem_linesOf_iff.mpr hline)
    exact ⟨fate, hfate, fun other hother => hother.unique hfate⟩

/-- The second line of a source whose first line leaves a quotation open. -/
theorem scan_line_by_line_after_open_quote :
    (Line.mk 1 3 "end".toList).IsIn "'a\nend".toList ∧
      ∃! fate, (Line.mk 1 3 "end".toList).Meets (scan "'a\nend" .plain) fate := by
  have hline : (Line.mk 1 3 "end".toList).IsIn "'a\nend".toList :=
    ⟨"'a\n".toList, [], by decide, by decide, by simp, by simp, by decide, by decide⟩
  exact ⟨hline, ((scan_line_by_line .plain).2 "'a\nend").2.2 _ hline⟩

end LineScript
