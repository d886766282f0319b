import LineScript.Proofs.Rendering.Classify

/-!
# Renderings are read as their lexemes

No lexeme holds a comment sign outside quotations or goes over the end of a line. So the lines of a
layout are the lines of its text, each of them is all code, and the source is read as the lexemes of
its lines one after the other (`readAll_scan`).
-/

namespace LineScript

open Text Segment

variable {vocabulary : Vocabulary}

/-! ### Comments and ends of lines -/

namespace Lexeme

theorem clear_text {lexeme : Lexeme} (hvalid : lexeme.Valid vocabulary) :
    clear (· == '#') none (lexeme.text vocabulary.keywords) = true := by
  have hstop : ∀ c, (c == '#') = true → isStop c = true := by
    intro c hc
    obtain rfl : c = '#' := by simpa using hc
    decide
  cases lexeme with
  | keyword kind =>
    obtain ⟨phrase, hmem, rfl⟩ := hvalid
    have hall : ∀ phrase ∈ vocabulary.keywords.phrases,
        clear (· == '#') none (vocabulary.keywords.spelling phrase.kind).toList = true := by
      cases vocabulary <;> decide +kernel
    exact hall phrase hmem
  | sign kind =>
    rw [text]
    cases kind <;> decide
  | name word => exact clear_of_wordChars hstop fun c hc => .inl (hvalid.isWordChar.2 c hc)
  | number digits value => exact clear_numeral hstop hvalid
  | boolean value =>
    rw [text]
    cases value <;> decide
  | string quote value => exact clear_quoted hstop hvalid
  | array items =>
    have hitems : clear (· == '#') none ([',', ' '].intercalate (items.map Prod.fst)) = true := by
      refine clear_intercalate (by decide) fun text htext => ?_
      obtain ⟨item, hitem, rfl⟩ := List.mem_map.mp htext
      exact clear_item hstop (hvalid item hitem)
    have hleft : clear (· == '#') none ['['] = true := by decide
    have hright : clear (· == '#') none [']'] = true := by decide
    have hwhole := clear_append hleft (clear_append hitems hright)
    exact hwhole

theorem newline_not_mem_of_wordChars {text : List Char} (h : ∀ c ∈ text, isWordChar c = true) :
    '\n' ∉ text :=
  fun hmem => absurd (h '\n' hmem) (by decide)

theorem newline_not_mem_quoted {quote : Char} {value : String} (h : IsQuotable quote value) :
    '\n' ∉ quote :: (value.toList ++ [quote]) := by
  have hquote : '\n' ≠ quote := by
    rintro rfl
    exact absurd h.isQuote (by decide)
  simp [hquote, h.oneLine]

theorem newline_not_mem_numeral {text : List Char} {value : Float} (h : IsNumeral text value) :
    '\n' ∉ text := by
  obtain ⟨c, tail, rfl, hc, htail⟩ := h.exists_digit
  rintro hmem
  rcases List.mem_cons.mp hmem with rfl | htailMem
  · exact absurd hc (by decide)
  · rcases htail _ htailMem with hdigit | hpoint
    · exact absurd hdigit (by decide)
    · exact absurd hpoint (by decide)

theorem newline_not_mem_item {text : List Char} {literal : Literal} (h : IsItem text literal) :
    '\n' ∉ text := by
  match literal, h with
  | .number value, .inl hnumeral => exact newline_not_mem_numeral hnumeral
  | .number value, .inr ⟨digits, opposite, htext, hnumeral, _⟩ =>
    rw [htext]
    simpa using newline_not_mem_numeral hnumeral
  | .string value, ⟨quote, hquotable, htext⟩ =>
    rw [htext]
    exact newline_not_mem_quoted hquotable
  | .boolean value, htext =>
    rw [show text = (toString value).toList from htext]
    exact newline_not_mem_of_wordChars (wordChars_boolean value).2
  | .identifier _, ⟨hname, htext⟩ =>
    rw [htext]
    exact newline_not_mem_of_wordChars hname.isWordChar.2

theorem newline_not_mem_intercalate {items : List (List Char)} (h : ∀ item ∈ items, '\n' ∉ item) :
    '\n' ∉ [',', ' '].intercalate items := by
  match items with
  | [] => simp [List.intercalate]
  | [item] => simpa [List.intercalate] using h item (by simp)
  | first :: second :: rest =>
    have htail : '\n' ∉ [',', ' '].intercalate (second :: rest) :=
      newline_not_mem_intercalate fun item hmem => h item (List.mem_cons_of_mem first hmem)
    have heq : [',', ' '].intercalate (first :: second :: rest) =
        first ++ (',' :: ' ' :: [',', ' '].intercalate (second :: rest)) := by
      simp [List.intercalate]
    rw [heq]
    simpa using ⟨h first (by simp), htail⟩

theorem newline_not_mem_text {lexeme : Lexeme} (hvalid : lexeme.Valid vocabulary) :
    '\n' ∉ lexeme.text vocabulary.keywords := by
  cases lexeme with
  | keyword kind =>
    obtain ⟨phrase, hmem, rfl⟩ := hvalid
    have hall : ∀ phrase ∈ vocabulary.keywords.phrases,
        '\n' ∉ (vocabulary.keywords.spelling phrase.kind).toList := by
      cases vocabulary <;> decide +kernel
    exact hall phrase hmem
  | sign kind =>
    rw [text]
    cases kind <;> decide
  | name word => exact newline_not_mem_of_wordChars hvalid.isWordChar.2
  | number digits value => exact newline_not_mem_numeral hvalid
  | boolean value =>
    rw [text]
    cases value <;> decide
  | string quote value => exact newline_not_mem_quoted hvalid
  | array items =>
    have hitems : '\n' ∉ [',', ' '].intercalate (items.map Prod.fst) := by
      refine newline_not_mem_intercalate fun text htext => ?_
      obtain ⟨item, hitem, rfl⟩ := List.mem_map.mp htext
      exact newline_not_mem_item (hvalid item hitem)
    simpa [text, arrayText] using hitems

end Lexeme

/-- No comment starts among blanks. -/
theorem clear_of_isBlank {gap : List Char} (h : ∀ c ∈ gap, isBlank c = true) :
    clear (· == '#') none gap = true := by
  refine clear_of_forall fun c hc => ?_
  have hsign : c ≠ '#' := ne_of_isBlank (h c hc) (by decide)
  have hdouble : c ≠ '"' := ne_of_isBlank (h c hc) (by decide)
  have hsingle : c ≠ '\'' := ne_of_isBlank (h c hc) (by decide)
  simp [isQuote, hsign, hdouble, hsingle]

namespace IsGap

variable {gap : List Char}

theorem clear (h : IsGap gap) : clear (· == '#') none gap = true :=
  clear_of_isBlank fun c hc => (h c hc).1

theorem newline_not_mem (h : IsGap gap) : '\n' ∉ gap :=
  fun hmem => (h _ hmem).2 rfl

end IsGap

/-- A line of a layout has no comment and no end of a line in it. -/
theorem lineText_of_admissible {previous : Option Lexeme} {pieces : List Piece}
    {trailing : List Char} (h : Piece.Admissible previous pieces) (htrailing : IsGap trailing)
    (hvalid : ∀ piece ∈ pieces, piece.lexeme.Valid vocabulary) :
    clear (· == '#') none (Layout.lineText vocabulary.keywords ⟨pieces, trailing⟩) = true ∧
      '\n' ∉ Layout.lineText vocabulary.keywords ⟨pieces, trailing⟩ := by
  induction pieces generalizing previous with
  | nil => exact ⟨htrailing.clear, htrailing.newline_not_mem⟩
  | cons piece pieces ih =>
    obtain ⟨hgap, -, hpieces⟩ := h
    obtain ⟨hclear, hnewline⟩ :=
      ih hpieces fun other hmem => hvalid other (List.mem_cons_of_mem _ hmem)
    have hlexeme := hvalid piece (by simp)
    have heq : Layout.lineText vocabulary.keywords ⟨piece :: pieces, trailing⟩ =
        piece.gap ++ (piece.lexeme.text vocabulary.keywords ++
          Layout.lineText vocabulary.keywords ⟨pieces, trailing⟩) := by
      simp [Layout.lineText, Piece.text]
    rw [heq]
    refine ⟨clear_append hgap.clear (clear_append (Lexeme.clear_text hlexeme) hclear), ?_⟩
    simp only [List.mem_append, not_or]
    exact ⟨hgap.newline_not_mem, Lexeme.newline_not_mem_text hlexeme, hnewline⟩

/-! ### Lines -/

theorem codeOf_of_clear {text : List Char} (h : clear (· == '#') none text = true) :
    codeOf text = text := by
  have hwhole : beforeComment none (text ++ []) = text ++ beforeComment none [] :=
    beforeComment_append_of_clear h
  simpa [codeOf, beforeComment] using hwhole

/-- A line of a layout is read as its lexemes. -/
theorem tokensOfLine_lineText {line : RenderedLine} (h : Piece.Admissible none line.pieces)
    (htrailing : IsGap line.trailing)
    (hvalid : ∀ piece ∈ line.pieces, piece.lexeme.Valid vocabulary) :
    ∃ tokens, tokensOfLine vocabulary.keywords.phrases
        (Layout.lineText vocabulary.keywords line) = .ok tokens ∧
      Lexeme.ReadAll (line.pieces.map Piece.lexeme) tokens := by
  obtain ⟨hclear, -⟩ := lineText_of_admissible h htrailing hvalid
  obtain ⟨segments, hsegments, hcontents⟩ := Piece.cut_pieces h (by simp) hvalid htrailing 0
  rw [← List.flatMap_map] at hcontents
  obtain ⟨tokens, htokens, hread⟩ := tokens_of_lexemes (by simpa using hvalid) hcontents
  refine ⟨tokens, ?_, hread⟩
  have hcut : segmentsOf (Layout.lineText vocabulary.keywords line) = .ok segments := hsegments
  rw [tokensOfLine, codeOf_of_clear hclear]
  split
  next hblank =>
    -- A line without lexemes is not cut at all, and cutting it would give nothing.
    rw [segmentsOf, cutAll_of_isBlankText hblank] at hcut
    obtain rfl : segments = [] := by simpa using hcut.symm
    rwa [Segment.tokens] at htokens
  next => rw [hcut, ← htokens]

theorem split_append_cut {isCut : Char → Bool} {c : Char} (hc : isCut c = true)
    {text rest : List Char} (h : ∀ d ∈ text, isCut d = false) :
    split isCut (text ++ c :: rest) = text :: split isCut rest := by
  induction text with
  | nil => exact split_cons_of_cut hc rest
  | cons d text ih =>
    have hrest := ih fun d hd => h d (List.mem_cons_of_mem _ hd)
    rw [List.cons_append, split_cons_of_not_cut (h d (by simp))]
    rw [split] at hrest
    obtain ⟨hfirst, hothers⟩ := List.cons.inj hrest
    rw [hfirst, hothers]

theorem split_of_forall {isCut : Char → Bool} {text : List Char} (h : ∀ c ∈ text, isCut c = false) :
    split isCut text = [text] := by
  induction text with
  | nil => rfl
  | cons c text ih =>
    have hrest := ih fun d hd => h d (List.mem_cons_of_mem _ hd)
    rw [split_cons_of_not_cut (h c (by simp))]
    rw [split] at hrest
    obtain ⟨hfirst, hothers⟩ := List.cons.inj hrest
    rw [hfirst, hothers]

/-- A text without a line feed is one line. -/
theorem lines_of_not_mem {text : List Char} (h : '\n' ∉ text) : lines text = [text] :=
  split_of_forall fun c hc => by simpa using fun heq : c = '\n' => h (heq ▸ hc)

/-- The first line ends with the first line feed. -/
theorem lines_append {text : List Char} (h : '\n' ∉ text) (rest : List Char) :
    lines (text ++ '\n' :: rest) = text :: lines rest :=
  split_append_cut rfl fun c hc => by simpa using fun heq : c = '\n' => h (heq ▸ hc)

/-- Texts with ends of lines between them are the lines of the whole. -/
theorem lines_intercalate {text : List Char} {texts : List (List Char)}
    (h : ∀ line ∈ text :: texts, '\n' ∉ line) :
    lines (['\n'].intercalate (text :: texts)) = text :: texts := by
  induction texts generalizing text with
  | nil =>
    have hsingle : ['\n'].intercalate [text] = text := by simp [List.intercalate]
    rw [hsingle, lines_of_not_mem (h text (by simp))]
  | cons next texts ih =>
    have heq : ['\n'].intercalate (text :: next :: texts) =
        text ++ '\n' :: ['\n'].intercalate (next :: texts) := by
      simp [List.intercalate]
    have hrest := ih fun line hmem => h line (List.mem_cons_of_mem _ hmem)
    rw [heq, lines_append (h text (by simp)), hrest]

/-! ### Sources -/

theorem Lexeme.readAs_shift {lexeme : Lexeme} {token : Token} (lines bytes : Nat)
    (h : lexeme.ReadAs token) : lexeme.ReadAs (token.shift lines bytes) := by
  cases lexeme <;> exact h

/-- The lines of a layout contribute the tokens of their lexemes, and none of them is left out. -/
theorem readAll_lines {layout : Layout} (h : layout.Admissible)
    (hvalid : ∀ lexeme ∈ layout.lexemes, lexeme.Valid vocabulary) (before offset : Nat) :
    let lines := Line.place before offset (layout.map (Layout.lineText vocabulary.keywords))
    Lexeme.ReadAll layout.lexemes
        (lines.flatMap (Line.contribution vocabulary.keywords.phrases)) ∧
      lines.filterMap (Line.skipped? vocabulary.keywords.phrases) = [] := by
  induction layout generalizing before offset with
  | nil => exact ⟨.nil, rfl⟩
  | cons line layout ih =>
    have hline := h line (by simp)
    have hlayout : Layout.Admissible layout :=
      fun other hmem => h other (List.mem_cons_of_mem _ hmem)
    have hlexemes : Layout.lexemes (line :: layout) =
        line.pieces.map Piece.lexeme ++ Layout.lexemes layout := List.flatMap_cons
    rw [hlexemes] at hvalid ⊢
    obtain ⟨tokens, htokens, hread⟩ := tokensOfLine_lineText hline.1 hline.2 fun piece hmem =>
      hvalid _ (List.mem_append_left _ (List.mem_map_of_mem hmem))
    obtain ⟨hrest, hskipped⟩ := ih hlayout (fun lexeme hmem =>
      hvalid lexeme (List.mem_append_right _ hmem)) (before + 1)
      (offset + byteSize (Layout.lineText vocabulary.keywords line) + 1)
    have hshifted : Line.tokens vocabulary.keywords.phrases
        ⟨before, offset, Layout.lineText vocabulary.keywords line⟩ =
          .ok (tokens.map (·.shift before offset)) := by
      rw [Line.tokens, htokens]
      rfl
    refine ⟨?_, ?_⟩
    · rw [List.map_cons, Line.place, List.flatMap_cons]
      refine List.rel_append ?_ hrest
      rw [Line.contribution, hshifted]
      exact List.forall₂_map_right_iff.mpr
        (hread.imp fun _ _ htoken => Lexeme.readAs_shift _ _ htoken)
    · rw [List.map_cons, Line.place, List.filterMap_cons_none, hskipped]
      rw [Line.skipped?, hshifted]

/-- The text of a layout is read as its lexemes, and no line of it is left out. -/
theorem readAll_scan {layout : Layout} (h : layout.Admissible)
    (hvalid : ∀ lexeme ∈ layout.lexemes, lexeme.Valid vocabulary) {source : String}
    (hsource : source.toList = layout.text vocabulary.keywords) :
    (∃ tokens stop, (scan source vocabulary).tokens = tokens ++ [stop] ∧ stop.kind = .eof ∧
      Lexeme.ReadAll layout.lexemes tokens) ∧ (scan source vocabulary).skipped = [] := by
  -- The token for the end of the source is added in any case; the rest is about lines.
  suffices hlines : Lexeme.ReadAll layout.lexemes
        ((linesOf source).flatMap (Line.contribution vocabulary.keywords.phrases)) ∧
      (linesOf source).filterMap (Line.skipped? vocabulary.keywords.phrases) = [] from
    ⟨⟨_, _, rfl, rfl, hlines.1⟩, hlines.2⟩
  rw [linesOf, hsource]
  cases layout with
  -- The empty text still has one line, which is blank.
  | nil => exact ⟨.nil, rfl⟩
  | cons line layout =>
    have hnewline : ∀ text ∈ (line :: layout).map (Layout.lineText vocabulary.keywords),
        '\n' ∉ text := by
      intro text htext
      obtain ⟨other, hmem, rfl⟩ := List.mem_map.mp htext
      refine (lineText_of_admissible (h other hmem).1 (h other hmem).2 fun piece hpiece => ?_).2
      exact hvalid _ (List.mem_flatMap.mpr ⟨other, hmem, List.mem_map_of_mem hpiece⟩)
    have hlines : lines (Layout.text vocabulary.keywords (line :: layout)) =
        (line :: layout).map (Layout.lineText vocabulary.keywords) := lines_intercalate hnewline
    rw [hlines]
    exact readAll_lines h hvalid 0 0

end LineScript
