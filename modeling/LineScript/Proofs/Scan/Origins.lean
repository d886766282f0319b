import LineScript.Proofs.Line.Agreement
import LineScript.Proofs.Scan.Lines

/-!
# Where the tokens of a source come from

The tokens that a line adds to a program are those of its segments, moved to where the line stands
(`Line.mem_contribution_iff`), and what is a slice of the code of a line is a slice of the source
(`Line.exists_around`).
-/

namespace LineScript

open Text

/-- The code of a line, with what stands before and after it. -/
theorem Line.exists_around {source : List Char} {line : Line} (h : line.IsIn source) :
    ∃ passed rest, source = passed ++ (codeOf line.text ++ rest) ∧
      line.offset = byteSize passed ∧ line.before = passed.count '\n' := by
  obtain ⟨passed, rest, hsource, -, -, -, hbefore, hoffset⟩ := h
  obtain ⟨comment, htext⟩ := beforeComment_append none line.text
  refine ⟨passed, comment ++ rest, ?_, hoffset, hbefore⟩
  rw [hsource, ← List.append_assoc (codeOf line.text), codeOf, ← htext]

section

variable {vocabulary : Vocabulary} {line : Line} {token : Token}

/-- The tokens of a line are those of its segments. -/
theorem Line.mem_contribution_iff : token ∈ line.contribution vocabulary.keywords.phrases ↔
    ∃ segments tokens own, segmentsOf (codeOf line.text) = .ok segments ∧
      Segment.tokens vocabulary.keywords.phrases segments = .ok tokens ∧ own ∈ tokens ∧
      token = own.shift line.before line.offset := by
  rw [contribution, Line.tokens]
  cases htokens : tokensOfLine vocabulary.keywords.phrases line.text with
  | error defect =>
    refine iff_of_false List.not_mem_nil ?_
    rintro ⟨segments, tokens, -, hsegments, hown, -⟩
    cases htokens.symm.trans (tokensOfLine_eq_ok_iff.mpr ⟨segments, hsegments, hown⟩)
  | ok tokens =>
    obtain ⟨segments, hsegments, hown⟩ := tokensOfLine_eq_ok_iff.mp htokens
    constructor
    · intro hmem
      obtain ⟨own, htoken, rfl⟩ := List.mem_map.mp hmem
      exact ⟨segments, tokens, own, hsegments, hown, htoken, rfl⟩
    · rintro ⟨segments', tokens', own, hsegments', hown', htoken, rfl⟩
      obtain rfl := Except.ok.inj (hsegments.symm.trans hsegments')
      obtain rfl := Except.ok.inj (hown.symm.trans hown')
      exact List.mem_map_of_mem htoken

/-- A token of a line is made of a phrase or of a segment, and covers the slice where that
stands. -/
theorem Line.exists_origin (h : token ∈ line.contribution vocabulary.keywords.phrases) :
    ∃ segments before slice after own, segmentsOf (codeOf line.text) = .ok segments ∧
      codeOf line.text = before ++ (slice ++ after) ∧
      Token.Origin vocabulary.keywords.phrases segments slice own ∧
      own.span = ⟨byteSize before, byteSize before + byteSize slice⟩ ∧
      token = own.shift line.before line.offset := by
  obtain ⟨segments, tokens, own, hsegments, htokens, hmem, rfl⟩ := mem_contribution_iff.mp h
  obtain ⟨before, slice, after, hcode, horigin, hspan⟩ :=
    Token.exists_origin (Segment.laid_of_cutAll hsegments) htokens own hmem
  refine ⟨segments, before, slice, after, own, hsegments, hcode, horigin, ?_, rfl⟩
  rw [hspan, Nat.zero_add]

/-- The tokens of a line that is not left out cover its code. -/
theorem Line.spread_of_skipped? (h : line.skipped? vocabulary.keywords.phrases = none) :
    Token.Spread vocabulary.keywords.phrases (line.before + 1) line.offset (codeOf line.text)
      (line.contribution vocabulary.keywords.phrases) := by
  rcases line.contribution_cases vocabulary.keywords.phrases with ⟨note, hnote, -⟩ | ⟨-, hspread⟩
  · cases h.symm.trans hnote
  · exact hspread

theorem Line.spread_of_mem (h : token ∈ line.contribution vocabulary.keywords.phrases) :
    Token.Spread vocabulary.keywords.phrases (line.before + 1) line.offset (codeOf line.text)
      (line.contribution vocabulary.keywords.phrases) := by
  rcases line.contribution_cases vocabulary.keywords.phrases with ⟨-, -, -, hnone⟩ | ⟨-, hspread⟩
  · simp [hnone] at h
  · exact hspread

/-- A line is left out if the text cannot be cut, or if a segment has a defect. -/
theorem Line.skipped?_eq_some_iff {note : SkippedLine} :
    line.skipped? vocabulary.keywords.phrases = some note ↔ note.line = line.number ∧
      tokensOfLine vocabulary.keywords.phrases line.text = .error note.defect := by
  rw [skipped?, Line.tokens]
  cases tokensOfLine vocabulary.keywords.phrases line.text with
  | ok tokens => simp [Except.map]
  | error defect =>
    obtain ⟨number, own⟩ := note
    simp [Except.map, Line.number, eq_comm]

theorem mem_skipped_iff {source : String} {note : SkippedLine} :
    note ∈ (scan source vocabulary).skipped ↔ ∃ line : Line, line.IsIn source.toList ∧
      line.skipped? vocabulary.keywords.phrases = some note := by
  simp only [scan, List.mem_filterMap, mem_linesOf_iff]

/-- Literals stand on lines. -/
theorem mem_lineTokens_of_payload {source : String} (h : token ∈ (scan source vocabulary).tokens)
    (hpayload : ∀ text, token.payload ≠ .text text) : token ∈ lineTokens source vocabulary := by
  rcases List.mem_append.mp h with htoken | hstop
  · exact htoken
  · exact absurd (congrArg Token.payload (List.mem_singleton.mp hstop)) (hpayload "")

end

end LineScript
