import LineScript.Proofs.Scan.Origins

/-!
# Texts between quotes

The text of a token stands between two quotes of a kind, and that quote is not in it. Of an item of
a list literal only the first and the last character are looked at, so the quote may come up between
them: it does exactly if the item is made of several quotations (`Quote.several_iff`). Any other
item of several quotations stands for nothing, and its line is left out.
-/

namespace LineScript

open Text

/-! ### Several quotations -/

namespace Quote

/-- Only quotes open quotations. -/
theorem all_isQuote_after {quote : Quote} (h : quote.all isQuote = true) (text : List Char) :
    (quote.after text).all isQuote = true := by
  induction text generalizing quote with
  | nil => exact h
  | cons c text ih =>
    refine ih ?_
    cases quote with
    | none =>
      rw [step]
      split
      next hc => exact hc
      next => rfl
    | some quote =>
      rw [step]
      split
      · rfl
      · exact h

/-- Blanks neither open nor close a quotation. -/
theorem after_of_isBlankText {quote : Quote} {gap : List Char} (hquote : quote.all isQuote = true)
    (hgap : isBlankText gap = true) : quote.after gap = quote := by
  have hblank : ∀ c ∈ gap, isQuote c = false := fun c hc => Bool.eq_false_iff.mpr fun hopen => by
    have hc := List.all_eq_true.mp hgap c hc
    simp [isBlank_of_isQuote hopen] at hc
  cases quote with
  | none => exact after_of_forall hblank
  | some quote =>
    refine after_of_not_mem fun hmem => ?_
    have hnot : isQuote quote = true := hquote
    simp [hblank quote hmem] at hnot

/-- A text that ends outside quotations has a whole one in it, if it has any quote. -/
theorem exists_isStretch {text : List Char} (h : after none text = none) {c : Char}
    (hc : c ∈ text) (hquote : isQuote c = true) :
    ∃ before stretch rest, text = before ++ (stretch ++ rest) ∧ IsStretch before stretch := by
  induction text with
  | nil => cases hc
  | cons d text ih =>
    cases hd : isQuote d with
    | true =>
      -- The first quotation is closed, as otherwise the automaton would end inside.
      rw [after_cons, show step none d = some d from if_pos hd] at h
      have hclose : d ∈ text := by
        by_contra hnone
        rw [after_of_not_mem hnone] at h
        cases h
      obtain ⟨value, rest, rfl, hvalue⟩ := List.eq_append_cons_of_mem hclose
      refine ⟨[], d :: (value ++ [d]), rest, by simp, isStretch_iff.mpr ⟨rfl, ?_⟩⟩
      exact ⟨d, value, hd, hvalue, rfl⟩
    | false =>
      have hstep : after none [d] = none := after_of_forall (List.forall_mem_singleton.mpr hd)
      have hmem : c ∈ text := by
        rcases List.mem_cons.mp hc with rfl | hmem
        · rw [hd] at hquote
          cases hquote
        · exact hmem
      rw [← List.singleton_append, after_append_of_outside hstep] at h
      obtain ⟨before, stretch, rest, rfl, hstretch⟩ := ih h hmem
      exact ⟨d :: before, stretch, rest, rfl, (isStretch_append_iff hstep).mpr hstretch⟩

/-- There are several quotations in a text. -/
def Several (text : List Char) : Prop :=
  ∃ before first between second rest, text = before ++ (first ++ (between ++ (second ++ rest))) ∧
    IsStretch before first ∧ IsStretch (before ++ (first ++ between)) second

/-- In several quotations there is a quote. -/
theorem Several.exists_quote {text : List Char} (h : Several text) :
    ∃ c ∈ text, isQuote c = true := by
  obtain ⟨before, first, between, second, rest, rfl, hfirst, -⟩ := h
  obtain ⟨-, quote, value, hquote, -, rfl⟩ := isStretch_iff.mp hfirst
  exact ⟨quote, by simp, hquote⟩

/-- What begins and ends with the same quote is made of several quotations if that quote comes up
between. -/
theorem several_iff {quote : Char} {value : List Char} (hquote : isQuote quote = true)
    (h : after none (quote :: (value ++ [quote])) = none) :
    Several (quote :: (value ++ [quote])) ↔ quote ∈ value := by
  constructor
  · rintro ⟨before, first, between, second, rest, htext, hfirst, hsecond⟩
    by_contra hvalue
    have hwhole : IsStretch [] (quote :: (value ++ [quote])) :=
      isStretch_iff.mpr ⟨rfl, quote, value, hquote, hvalue, rfl⟩
    rw [htext] at hwhole
    have hnil := (hwhole.eq_nil_of_append hfirst).2
    have hlong := hsecond.long
    simp_all
  · intro hmem
    obtain ⟨left, right, rfl, hleft⟩ := List.eq_append_cons_of_mem hmem
    have hopen := after_quotation hquote hleft
    have hsplit : quote :: (left ++ quote :: right ++ [quote]) =
        (quote :: (left ++ [quote])) ++ (right ++ [quote]) := by simp
    -- The rest ends outside and has a quote at its end, so there is a quotation in it.
    rw [hsplit, after_append_of_outside hopen] at h
    obtain ⟨between, second, rest, hrest, hsecond⟩ := exists_isStretch h (by simp) hquote
    refine ⟨[], quote :: (left ++ [quote]), between, second, rest, ?_, ?_, ?_⟩
    · rw [hsplit, hrest, List.nil_append]
    · exact isStretch_iff.mpr ⟨rfl, quote, left, hquote, hleft, rfl⟩
    · exact (isStretch_append_iff hopen).mpr hsecond

end Quote

/-! ### Items -/

/-- A text is its trimmed text between blanks. -/
theorem Text.exists_gaps (text : List Char) : ∃ left right, text = left ++ (trim text ++ right) ∧
    isBlankText left = true ∧ isBlankText right = true := by
  have hblank (text : List Char) : isBlankText (text.takeWhile isBlank) = true :=
    List.all_eq_true.mpr fun c hc => List.mem_takeWhile_imp hc
  refine ⟨text.takeWhile isBlank, ((trimLeft text).reverse.takeWhile isBlank).reverse, ?_, hblank _,
    ?_⟩
  · rw [trim, trimRight, ← List.reverse_append, List.takeWhile_append_dropWhile,
      List.reverse_reverse, trimLeft, List.takeWhile_append_dropWhile]
  · rw [isBlankText, List.all_reverse]
    exact hblank _

/-- Where an item of a list literal stands, and that it ends outside quotations. -/
theorem Segment.IsCut.exists_item {text passed slice remaining item : List Char}
    (h : IsCut text passed .array slice remaining) (hitem : item ∈ itemsOf (inner slice)) :
    slice = '[' :: (inner slice ++ [']']) ∧ Quote.after none (trim item) = none ∧
      ∃ left right, inner slice = left ++ (trim item ++ right) := by
  obtain ⟨content, rfl, -, hcontent⟩ := h.exists_content
  rw [inner_quoted] at hitem ⊢
  obtain ⟨houtside, before, rest, htext, -⟩ :=
    (Quote.itemized_itemsOf content).exists_place hcontent item hitem
  obtain ⟨left, right, hgaps, hleft, hright⟩ := exists_gaps item
  refine ⟨rfl, ?_, before ++ left, right ++ rest, ?_⟩
  · rw [hgaps, Quote.after_append, Quote.after_of_isBlankText rfl hleft, Quote.after_append,
      Quote.after_of_isBlankText (Quote.all_isQuote_after rfl _) hright] at houtside
    exact houtside
  · rw [htext, List.append_assoc, ← List.append_assoc (trim item), ← List.append_assoc left,
      ← hgaps]

/-- A list literal with an item of several quotations that does not begin and end with the same
quote has a defect. -/
theorem Segment.exists_defect_of_several {text passed remaining item : List Char}
    {segment : Segment} (hshape : segment.shape = .array)
    (hcut : IsCut text passed .array segment.text remaining)
    (hitem : item ∈ itemsOf (inner segment.text)) (hseveral : Quote.Several (trim item))
    (hquotation : isQuotation (trim item) = false) : ∃ defect, segment.defect? = some defect := by
  obtain ⟨c, hc, hquote⟩ := hseveral.exists_quote
  obtain ⟨-, -, left, right, hinner⟩ := hcut.exists_item hitem
  cases hlist : Literal.listOf segment.text with
  | error defect =>
    refine ⟨defect, ?_⟩
    rw [defect?, classify, hshape, hlist]
    rfl
  | ok literals =>
    exfalso
    rcases Literal.listOf_cases segment.text with ⟨hblank, -⟩ | hfits
    · -- A quote is no blank.
      have hmem : c ∈ inner segment.text := by simp [hinner, hc]
      have hcBlank : isBlank c = true := List.all_eq_true.mp hblank c hmem
      rw [Quote.isBlank_of_isQuote hquote] at hcBlank
      cases hcBlank
    · rw [hlist] at hfits
      obtain ⟨literal, hliteral⟩ := hfits.1 item hitem
      rw [Literal.isQuotation_of_ofItem hliteral hc hquote] at hquotation
      cases hquotation

/-- Only list literals stand for lists. -/
theorem Segment.array_of_classify {segment : Segment} {kind : Token.Kind} {items : List Literal}
    (h : segment.classify = .ok (kind, .array items)) :
    segment.shape = .array ∧ Literal.listOf segment.text = .ok items := by
  rcases classify_cases h with
    ⟨-, -, value, htext⟩ | ⟨hshape, -, own, hown, hitems⟩ | ⟨-, -, htext⟩ | ⟨-, hword⟩
  · cases htext
  · cases hitems
    exact ⟨hshape, hown⟩
  · cases htext
  · rcases classifyWord_cases hword with
      ⟨-, htext⟩ | ⟨-, value, hvalue⟩ | ⟨-, value, hvalue⟩ | ⟨-, htext, -⟩
    · cases htext
    · cases hvalue
    · cases hvalue
    · cases htext

/-! ### Sources -/

section

variable {source : String} {vocabulary : Vocabulary}

/-- The text of an item of a list literal stands between two quotes within the literal. It is all of
an item, without the blanks around it. -/
theorem exists_quoted_item {token : Token} (h : token ∈ lineTokens source vocabulary)
    {items : List Literal} (hpayload : token.payload = .array items) {value : String}
    (hvalue : .string value ∈ items) : ∃ before quote, ∃ span : Span, isQuote quote = true ∧
      span.IsOf source.toList before (quote :: (value.toList ++ [quote])) ∧
      token.span.start < span.start ∧ span.stop < token.span.stop ∧
      Quote.after none (quote :: (value.toList ++ [quote])) = none := by
  obtain ⟨line, hline, htoken⟩ := List.mem_flatMap.mp h
  obtain ⟨passed, rest, hsource, hoffset, -⟩ := Line.exists_around (mem_linesOf_iff.mp hline)
  obtain ⟨segments, before, slice, after, own, hsegments, hcode, horigin, hspan, rfl⟩ :=
    Line.exists_origin htoken
  cases horigin with
  | phrase _ _ hface =>
    obtain ⟨-, htext⟩ := Prod.mk.inj hface
    cases htext.symm.trans hpayload
  | @segment segment kind payload hmem hclassify =>
    obtain rfl : payload = .array items := hpayload
    obtain ⟨hshape, hlist⟩ := Segment.array_of_classify hclassify
    obtain ⟨place, remaining, hcut, -⟩ := (Segment.isCut_of_segmentsOf hsegments).2 segment hmem
    rw [hshape] at hcut
    obtain ⟨item, hitem, hliteral⟩ := Literal.exists_item_of_listOf hlist hvalue
    obtain ⟨quote, hquote, htrim⟩ := Literal.ofItem_eq_string_iff.mp hliteral
    obtain ⟨hslice, houtside, left, right, hinner⟩ := hcut.exists_item hitem
    rw [htrim] at houtside hinner
    rw [hslice, hinner] at hcode hspan
    refine ⟨passed ++ (before ++ '[' :: left), quote, ⟨_, _⟩, hquote,
      ⟨⟨right ++ ']' :: (after ++ rest), ?_⟩, rfl⟩, ?_, ?_, houtside⟩
    · rw [hsource, hcode]
      simp
    · show line.offset + segment.span.start < _
      rw [show segment.span = _ from hspan, hoffset]
      have hbracket := Char.utf8Size_pos '['
      simp only [byteSize_append, byteSize_cons]
      omega
    · show _ < line.offset + segment.span.stop
      rw [show segment.span = _ from hspan, hoffset]
      have hbracket := Char.utf8Size_pos ']'
      simp only [byteSize_append, byteSize_cons]
      omega

/-- Where the texts of a source stand, and what becomes of items of several quotations. -/
structure Scan.Quoted (source : String) (scan : Scan) : Prop where
  /-- The text of a token is all that it covers but two quotes around it, and its quote is not in
  it. -/
  strings : ∀ token ∈ scan.tokens, ∀ value, token.payload = .string value →
    ∃ before quote, isQuote quote = true ∧ quote ∉ value.toList ∧
      token.span.IsOf source.toList before (quote :: (value.toList ++ [quote]))
  /-- The text of an item stands between two quotes within the list literal, and its quote is in it
  exactly if this is several quotations. -/
  items : ∀ token ∈ scan.tokens, ∀ items, token.payload = .array items →
    ∀ value, .string value ∈ items → ∃ before quote, ∃ span : Span, isQuote quote = true ∧
      span.IsOf source.toList before (quote :: (value.toList ++ [quote])) ∧
      token.span.start < span.start ∧ span.stop < token.span.stop ∧
      (quote ∈ value.toList ↔ Quote.Several (quote :: (value.toList ++ [quote])))
  /-- An item of several quotations that does not begin and end with the same quote has its line
  left out. -/
  several : ∀ line : Line, line.IsIn source.toList → ∀ segments,
    segmentsOf (codeOf line.text) = .ok segments → ∀ segment ∈ segments, segment.shape = .array →
    ∀ item ∈ itemsOf (inner segment.text), Quote.Several (trim item) →
      isQuotation (trim item) = false → ∃ note ∈ scan.skipped, note.line = line.number

/-- Texts stand between quotes of a kind. Where an item begins and ends with the same quote, all
between is its text, even if it is made of several quotations. -/
theorem scan_quoted (source : String) (vocabulary : Vocabulary) :
    Scan.Quoted source (scan source vocabulary) where
  strings := by
    intro token htoken value hpayload
    have hmem := mem_lineTokens_of_payload htoken (by simp [hpayload])
    obtain ⟨before, slice, hspan, -, hmatches, -⟩ :=
      (lossless_lineTokens source vocabulary).slices token hmem
    rw [hpayload] at hmatches
    obtain ⟨quote, hquote, hvalue, rfl⟩ := hmatches
    exact ⟨before, quote, hquote, hvalue, hspan⟩
  items := by
    intro token htoken items hpayload value hvalue
    have hmem := mem_lineTokens_of_payload htoken (by simp [hpayload])
    obtain ⟨before, quote, span, hquote, hspan, hstart, hstop, houtside⟩ :=
      exists_quoted_item hmem hpayload hvalue
    exact ⟨before, quote, span, hquote, hspan, hstart, hstop,
      (Quote.several_iff hquote houtside).symm⟩
  several := by
    intro line hline segments hsegments segment hmem hshape item hitem hseveral hquotation
    obtain ⟨place, remaining, hcut, -⟩ := (Segment.isCut_of_segmentsOf hsegments).2 segment hmem
    rw [hshape] at hcut
    obtain ⟨defect, hdefect⟩ :=
      Segment.exists_defect_of_several hshape hcut hitem hseveral hquotation
    -- The line is left out for its first defect, which may be another one.
    obtain ⟨first, hfirst⟩ : ∃ first, segments.findSome? Segment.defect? = some first := by
      refine Option.ne_none_iff_exists'.mp fun hnone => ?_
      rw [List.findSome?_eq_none_iff.mp hnone segment hmem] at hdefect
      cases hdefect
    have herror : tokensOfLine vocabulary.keywords.phrases line.text = .error first :=
      tokensOfLine_eq_error_iff.mpr (.inr ⟨segments, hsegments, hfirst⟩)
    exact ⟨⟨line.number, first⟩,
      mem_skipped_iff.mpr ⟨line, hline, Line.skipped?_eq_some_iff.mpr ⟨rfl, herror⟩⟩, rfl⟩

/-- Two quotations in one item are one text, and the only quote of the source is in it. -/
theorem exists_text_of_two_quotations :
    (scan "list a = [\"x\" \"y\"]" .plain).skipped = [] ∧
      ∃ token ∈ (scan "list a = [\"x\" \"y\"]" .plain).tokens,
        token.payload = .array [.string "x\" \"y"] ∧
          ∀ quote ∈ "list a = [\"x\" \"y\"]".toList, isQuote quote = true →
            quote ∈ "x\" \"y".toList := by
  have hscan : scan "list a = [\"x\" \"y\"]" .plain =
      { tokens :=
          [⟨.declareList, .text "list", 1, ⟨0, 4⟩⟩, ⟨.identifier, .text "a", 1, ⟨5, 6⟩⟩,
            ⟨.assign, .text "=", 1, ⟨7, 8⟩⟩, ⟨.array, .array [.string "x\" \"y"], 1, ⟨9, 18⟩⟩,
            ⟨.eof, .text "", 1, ⟨18, 18⟩⟩]
        skipped := [] } := by
    cbv
  rw [hscan]
  refine ⟨rfl, ⟨.array, .array [.string "x\" \"y"], 1, ⟨9, 18⟩⟩, ?_, rfl, ?_⟩
  · simp
  · simp [isQuote]

end

end LineScript
