import LineScript.Proofs.Line.Items
import LineScript.Proofs.Line.Stretches

/-!
# All scans of a line agree on its quotations

Comments, segments, list literals and items are found by scans of their own, which start at
different places of a line. Each of these places is one where the automaton that runs over the whole
code is outside quotations (`Segment.Reached.outside`), so all of them see the same quotations: the
stretches of that automaton. A stretch is either cut off as a segment or lies within a list literal
(`Segment.Reached.isCovered`), and a line is left out if the automaton ends inside
(`quotesAgree`).
-/

namespace LineScript

open Text Quote

theorem IsWordText.isQuote {text : List Char} (h : IsWordText text) :
    ∀ c ∈ text, isQuote c = false := by
  intro c hc
  rcases h.cases_of_mem c hc with hword | rfl
  · exact isQuote_of_isWordChar hword
  · decide

namespace Segment

/-! ### Segments -/

/-- Words and signs have no quotes in them. -/
theorem Formed.isQuote {shape : Shape} {text : List Char} (h : Formed shape text)
    (hshape : shape = .word ∨ shape = .mark) : ∀ c ∈ text, isQuote c = false := by
  cases h with
  | word hword => exact hword.isQuote
  | quoted => rcases hshape with hword | hmark <;> contradiction
  | array => rcases hshape with hword | hmark <;> contradiction
  | mark hmark =>
    have hquote : (!LineScript.isQuote _) = true :=
      forall_isMark (p := fun c => !LineScript.isQuote c) (by decide +kernel) hmark
    simpa using hquote
  | double hc => rcases hc with rfl | rfl <;> simp [LineScript.isQuote]

/-- A list literal is cut off where a bracket follows no word. -/
theorem array_of_munch {previous : Option Char} {c : Char} {rest tail remaining : List Char}
    (h : munch previous c rest = .ok (.array, tail, remaining)) :
    c = '[' ∧ arrayTail? none 0 rest = some (tail, remaining) := by
  unfold munch at h
  split at h
  · split at h <;> simp at h
  split at h
  next hopen =>
    split at h
    · cases h
    next tail' remaining' htail =>
      obtain ⟨rfl, rfl⟩ : tail' = tail ∧ remaining' = remaining := by simpa using h
      simp only [Bool.and_eq_true, beq_iff_eq] at hopen
      exact ⟨hopen.1, htail⟩
  split at h
  · simp at h
  split at h
  · simp at h
  split at h <;> simp at h

variable {text passed slice remaining rest : List Char} {shape : Shape}

/-- A list literal has its brackets around its content, and the second one is outside. -/
theorem IsCut.exists_content (h : IsCut text passed .array slice remaining) :
    ∃ content, slice = '[' :: (content ++ [']']) ∧ IsBracketed slice ∧
      after none content = none := by
  cases h with
  | intro _ _ hmunch =>
    obtain ⟨rfl, htail⟩ := array_of_munch hmunch
    obtain ⟨hcloses, -⟩ := arrayTail?_eq_some_iff.mp htail
    obtain ⟨content, rfl, hcontent⟩ := hcloses.exists_content
    exact ⟨content, rfl, isBracketed_cons_iff.mpr hcloses, hcontent⟩

/-- Where a bracket follows no word, a list literal is cut off if the bracket is closed outside
quotations. -/
theorem Reached.exists_isCut_iff (h : Reached text passed ('[' :: rest))
    (hprevious : passed.getLast?.any isWordChar = false) :
    (∃ slice remaining, IsCut text passed .array slice remaining) ↔
      ∃ tail remaining, tail ++ remaining = rest ∧ IsBracketed ('[' :: tail) := by
  constructor
  · rintro ⟨slice, remaining, hcut⟩
    obtain ⟨content, rfl, hbracketed, -⟩ := hcut.exists_content
    have heq := List.append_cancel_left (hcut.append_eq.trans h.append_eq.symm)
    exact ⟨content ++ [']'], remaining, (List.cons.inj heq).2, hbracketed⟩
  · rintro ⟨tail, remaining, htail, hbracketed⟩
    have harray : arrayTail? none 0 rest = some (tail, remaining) :=
      arrayTail?_eq_some_iff.mpr ⟨isBracketed_cons_iff.mp hbracketed, htail⟩
    have hquote : LineScript.isQuote '[' = false := by decide
    have hmunch : munch passed.getLast? '[' rest = .ok (.array, tail, remaining) := by
      rw [munch, hquote, if_neg Bool.false_ne_true, if_pos (by simp [hprevious]), harray]
    exact ⟨_, _, .intro h (by decide) hmunch⟩

/-- A segment is read from outside to outside. -/
theorem IsCut.outside (h : IsCut text passed shape slice remaining) :
    after none slice = none := by
  have hformed := h.formed
  cases shape with
  | word => exact after_of_forall (hformed.isQuote (.inl rfl))
  | mark => exact after_of_forall (hformed.isQuote (.inr rfl))
  | quoted =>
    cases hformed with
    | quoted hquote hvalue => exact after_quotation hquote hvalue
  | array =>
    obtain ⟨content, rfl, -, hcontent⟩ := h.exists_content
    rw [after_cons, after_append, show step none '[' = none from rfl, hcontent]
    rfl

/-- Cutting only comes to stand outside quotations. -/
theorem Reached.outside (h : Reached text passed rest) : after none passed = none := by
  induction h with
  | start => rfl
  | @blank passed rest c _ hblank ih =>
    rw [after_append_of_outside ih]
    refine after_of_forall (List.forall_mem_singleton.mpr ?_)
    exact Bool.eq_false_iff.mpr fun hquote => by simp [isBlank_of_isQuote hquote] at hblank
  | segment hreached hblank hmunch ih =>
    rw [after_append_of_outside ih]
    exact (IsCut.intro hreached hblank hmunch).outside

theorem IsCut.outside_passed (h : IsCut text passed shape slice remaining) :
    after none passed = none := by
  cases h with
  | intro hreached _ _ => exact hreached.outside

/-- A quotation that is cut off is a stretch. -/
theorem IsCut.isStretch (h : IsCut text passed .quoted slice remaining) :
    IsStretch passed slice := by
  refine isStretch_iff.mpr ⟨h.outside_passed, ?_⟩
  cases h.formed with
  | @quoted quote value hquote hvalue => exact ⟨quote, value, hquote, hvalue, rfl⟩

/-- A stretch of a text is cut off it, or lies in the content of a list literal that is. -/
def IsCovered (text before stretch : List Char) : Prop :=
  (∃ remaining, IsCut text before .quoted stretch remaining) ∨
    ∃ passed content remaining inside outside,
      IsCut text passed .array ('[' :: (content ++ [']'])) remaining ∧
      content = inside ++ (stretch ++ outside) ∧ before = passed ++ '[' :: inside

/-- A stretch in what is cut off is all of it, or lies in a list literal. -/
theorem IsCut.isCovered {left stretch right : List Char}
    (h : IsCut text passed shape slice remaining) (hslice : slice = left ++ (stretch ++ right))
    (hstretch : IsStretch (passed ++ left) stretch) : IsCovered text (passed ++ left) stretch := by
  obtain ⟨-, quote, value, hquote, -, heq⟩ := isStretch_iff.mp hstretch
  -- There are no quotes in words and signs.
  have hplain (hshape : shape = .word ∨ shape = .mark) : False := by
    have hnone := h.formed.isQuote hshape quote (by simp [hslice, heq])
    simp [hquote] at hnone
  cases shape with
  | word => exact (hplain (.inl rfl)).elim
  | mark => exact (hplain (.inr rfl)).elim
  | quoted =>
    have hwhole := h.isStretch
    rw [hslice] at hwhole
    obtain ⟨rfl, rfl⟩ := hwhole.eq_nil_of_append hstretch
    simp only [List.append_nil, List.nil_append] at hslice ⊢
    exact .inl ⟨remaining, hslice ▸ h⟩
  | array =>
    obtain ⟨content, rfl, -, -⟩ := h.exists_content
    -- A stretch begins and ends with quotes, so the brackets are before and after it.
    have hbrackets : isQuote '[' = false ∧ isQuote ']' = false := by decide
    obtain ⟨inside, rfl, hinside⟩ : ∃ inside, left = '[' :: inside ∧
        content ++ [']'] = inside ++ (stretch ++ right) := by
      rcases List.cons_eq_append_iff.mp hslice with ⟨-, hopen⟩ | ⟨inside, hleft, hinside⟩
      · rw [heq, List.cons_append, List.cons.injEq] at hopen
        rw [hopen.1, hbrackets.1] at hquote
        cases hquote
      · exact ⟨inside, hleft, hinside⟩
    rcases List.eq_nil_or_concat' right with rfl | ⟨outside, last, rfl⟩
    · rw [heq, List.append_nil, ← List.cons_append, ← List.append_assoc] at hinside
      obtain ⟨-, hclose⟩ := List.append_inj' hinside rfl
      obtain rfl : ']' = quote := by simpa using hclose
      rw [hbrackets.2] at hquote
      cases hquote
    · rw [← List.append_assoc, ← List.append_assoc] at hinside
      obtain ⟨rfl, -⟩ := List.append_inj' hinside rfl
      exact .inr ⟨passed, _, remaining, inside, outside, h, List.append_assoc _ _ _, rfl⟩

/-- Every stretch before a place where cutting comes to stand was cut off, or lies in a list literal
that was. -/
theorem Reached.isCovered (h : Reached text passed rest) {before stretch right : List Char}
    (hpassed : passed = before ++ (stretch ++ right)) (hstretch : IsStretch before stretch) :
    IsCovered text before stretch := by
  -- What is cut off starts at a place outside, so the stretch is in it or before it.
  induction h generalizing right with
  | start =>
    have hlong := hstretch.long
    rw [List.nil_eq, List.append_eq_nil_iff, List.append_eq_nil_iff] at hpassed
    simp [hpassed.2.1] at hlong
  | @blank passed rest c hreached hblank ih =>
    rcases hstretch.cases_of_outside hreached.outside hpassed with ⟨more, hmore⟩ | ⟨left, -, hleft⟩
    · exact ih hmore
    · have hlong := hstretch.long
      have hlength := congrArg List.length hleft
      simp only [List.length_append, List.length_singleton] at hlength
      omega
  | segment hreached hblank hmunch ih =>
    rcases hstretch.cases_of_outside hreached.outside hpassed with
      ⟨more, hmore⟩ | ⟨left, rfl, hslice⟩
    · exact ih hmore
    · exact (IsCut.intro hreached hblank hmunch).isCovered hslice hstretch

/-- A quotation is not closed if its quote does not come again. -/
theorem quote_of_munch_error {previous : Option Char} {c : Char} {rest : List Char}
    (h : munch previous c rest = .error .unterminatedString) :
    LineScript.isQuote c = true ∧ c ∉ rest := by
  unfold munch at h
  split at h
  next hquote =>
    split at h
    next hdrop =>
      refine ⟨hquote, fun hmem => ?_⟩
      have hall := List.dropWhile_eq_nil_iff.mp hdrop c hmem
      simp at hall
    next => cases h
  next =>
    split at h
    · split at h <;> simp at h
    split at h
    · cases h
    split at h
    · cases h
    split at h <;> simp at h

/-- If the automaton ends outside, no quotation is left open where a text cannot be cut. -/
theorem ne_of_segmentsOf_error {defect : Defect} (h : segmentsOf text = .error defect)
    (houtside : after none text = none) : defect ≠ .unterminatedString := by
  rintro rfl
  obtain ⟨before, c, rest, hreached, hmunch⟩ := exists_munch_of_segmentsOf_error h
  obtain ⟨hquote, hrest⟩ := quote_of_munch_error hmunch
  rw [← hreached.append_eq, after_append_of_outside hreached.outside, after_cons,
    show step none c = some c from if_pos hquote, after_of_not_mem hrest] at houtside
  cases houtside

end Segment

/-! ### Lines -/

section

variable {vocabulary : Vocabulary} {line : List Char}

/-- A line that is read ends outside quotations. -/
theorem outside_of_tokensOfLine {phrases : List Phrase} {tokens : List Token}
    (h : tokensOfLine phrases line = .ok tokens) : after none (codeOf line) = none := by
  obtain ⟨segments, hsegments, -⟩ := tokensOfLine_eq_ok_iff.mp h
  exact (Segment.isCut_of_segmentsOf hsegments).1.outside

/-- A line whose code ends outside quotations is not left out for an open one. -/
theorem ne_of_tokensOfLine_error {defect : Defect}
    (h : tokensOfLine vocabulary.keywords.phrases line = .error defect)
    (houtside : after none (codeOf line) = none) : defect ≠ .unterminatedString := by
  rcases tokensOfLine_eq_error_iff.mp h with hcut | ⟨segments, -, hdefect⟩
  · exact Segment.ne_of_segmentsOf_error hcut houtside
  · obtain ⟨segment, -, hdefect⟩ := List.exists_of_findSome?_eq_some hdefect
    rw [Segment.defect?] at hdefect
    split at hdefect
    · cases hdefect
    next own hown =>
      cases hdefect
      exact Segment.ne_of_classify_error hown

/-- What a list literal that is cut off after `passed` has to do with quotations. -/
structure ArrayAgrees (passed slice content : List Char) : Prop where
  /-- The content stands between brackets. -/
  slice_eq : slice = '[' :: (content ++ [']'])
  /-- The first bracket is closed by the second one, of all that stand outside quotations. -/
  bracketed : IsBracketed slice
  /-- The second one stands outside quotations of the line. -/
  outside : after none (passed ++ '[' :: content) = none
  /-- The items are cut at the commas that stand outside quotations. -/
  itemized : Itemized none content (itemsOf content)
  /-- Each item begins and ends outside quotations of the line. -/
  places : ∀ item ∈ itemsOf content, ∃ before rest, content = before ++ (item ++ rest) ∧
    after none (passed ++ '[' :: before) = none ∧
    after none (passed ++ '[' :: (before ++ item)) = none
  /-- Each stretch lies in one item. -/
  stretches : ∀ before stretch rest, content = before ++ (stretch ++ rest) →
    IsStretch (passed ++ '[' :: before) stretch →
    ∃ left item right inside outside, itemsOf content = left ++ item :: right ∧
      item = inside ++ (stretch ++ outside) ∧ before = left.flatMap (· ++ [',']) ++ inside

/-- All scans of a line see the same quotations, which are the stretches that the automaton passes
inside when it runs over the code of the line. -/
structure QuotesAgree (vocabulary : Vocabulary) (line : List Char) : Prop where
  /-- The code has no comment sign outside quotations, and what is left out starts with one. -/
  comment : '#' ∉ bare none (codeOf line) ∧ (codeOf line = line ∨
    ∃ comment, line = codeOf line ++ '#' :: comment ∧ after none (codeOf line) = none)
  /-- If the automaton ends inside, the line is left out. -/
  inside : after none (codeOf line) ≠ none →
    ∃ defect, tokensOfLine vocabulary.keywords.phrases line = .error defect
  /-- If it ends outside, the line is not left out for an open quotation. -/
  outside : after none (codeOf line) = none →
    tokensOfLine vocabulary.keywords.phrases line ≠ .error .unterminatedString
  /-- A stretch hides all of its characters but its first quote. -/
  hidden : ∀ before stretch rest, codeOf line = before ++ (stretch ++ rest) →
    IsStretch before stretch →
    bare none (codeOf line) = bare none before ++ (stretch.take 1 ++ bare none rest)
  /-- Wherever cutting comes to stand, on the line or after a bracket, a scan that starts afresh
  passes the stretches of the line. -/
  afresh : ∀ passed rest, Segment.Reached (codeOf line) passed rest → ∀ before stretch,
    (IsStretch before stretch ↔ IsStretch (passed ++ before) stretch) ∧
    (IsStretch before stretch ↔ IsStretch (passed ++ '[' :: before) stretch)
  /-- A quotation that is cut off is one stretch. -/
  quoted : ∀ passed slice remaining,
    Segment.IsCut (codeOf line) passed .quoted slice remaining → IsStretch passed slice
  /-- Where a bracket follows no word, a list literal is cut off if and only if the bracket is
  closed, by one outside quotations. -/
  bracket : ∀ passed rest, Segment.Reached (codeOf line) passed ('[' :: rest) →
    passed.getLast?.any isWordChar = false →
    ((∃ slice remaining, Segment.IsCut (codeOf line) passed .array slice remaining) ↔
      ∃ tail remaining, tail ++ remaining = rest ∧ IsBracketed ('[' :: tail))
  /-- A list literal that is cut off ends, and is cut into items, outside stretches. -/
  array : ∀ passed slice remaining,
    Segment.IsCut (codeOf line) passed .array slice remaining →
    ∃ content, ArrayAgrees passed slice content
  /-- Every stretch that is passed is cut off, or lies in a list literal that is. -/
  covered : ∀ passed rest, Segment.Reached (codeOf line) passed rest →
    ∀ before stretch right, passed = before ++ (stretch ++ right) → IsStretch before stretch →
    Segment.IsCovered (codeOf line) before stretch
  /-- If the code is cut as a whole, its end is reached, and its segments are what is cut off. -/
  segments : ∀ segments, segmentsOf (codeOf line) = .ok segments →
    Segment.Reached (codeOf line) (codeOf line) [] ∧
    ∀ segment, segment ∈ segments ↔ ∃ passed remaining, segment.start = byteSize passed ∧
      Segment.IsCut (codeOf line) passed segment.shape segment.text remaining

theorem arrayAgrees_of_isCut {text passed slice remaining : List Char}
    (h : Segment.IsCut text passed .array slice remaining) :
    ∃ content, ArrayAgrees passed slice content := by
  obtain ⟨content, hslice, hbracketed, hcontent⟩ := h.exists_content
  have hbracket : after none (passed ++ ['[']) = none := by
    rw [after_append_of_outside h.outside_passed]
    rfl
  have hplaced (before : List Char) : after none (passed ++ '[' :: before) = after none before := by
    rw [List.append_cons, after_append_of_outside hbracket]
  have hitemized := itemized_itemsOf content
  refine ⟨content, hslice, hbracketed, (hplaced content).trans hcontent, hitemized,
    fun item hmem => ?_, fun before stretch rest htext hstretch => ?_⟩
  · obtain ⟨hitem, before, rest, htext, hbefore⟩ := hitemized.exists_place hcontent item hmem
    refine ⟨before, rest, htext, (hplaced before).trans hbefore, ?_⟩
    rw [hplaced, after_append_of_outside hbefore, hitem]
  · rw [List.append_cons, isStretch_append_iff hbracket] at hstretch
    exact hitemized.exists_item_of_isStretch htext hstretch

/-- Comments, segments, list literals and items are all cut along the same quotations: those of the
automaton that runs over the code of the line. -/
theorem quotesAgree (vocabulary : Vocabulary) (line : List Char) :
    QuotesAgree vocabulary line where
  comment := beforeComment_cases none line
  inside := by
    intro hinside
    cases htokens : tokensOfLine vocabulary.keywords.phrases line with
    | error defect => exact ⟨defect, rfl⟩
    | ok tokens => exact absurd (outside_of_tokensOfLine htokens) hinside
  outside := fun houtside herror => ne_of_tokensOfLine_error herror houtside rfl
  hidden := by
    intro before stretch rest hcode hstretch
    rw [hcode]
    exact hstretch.bare_append rest
  afresh := by
    intro passed rest hreached before stretch
    have hbracket : after none (passed ++ ['[']) = none := by
      rw [after_append_of_outside hreached.outside]
      rfl
    refine ⟨(isStretch_append_iff hreached.outside).symm, ?_⟩
    rw [List.append_cons]
    exact (isStretch_append_iff hbracket).symm
  quoted := fun _ _ _ hcut => hcut.isStretch
  bracket := fun _ _ hreached hprevious => hreached.exists_isCut_iff hprevious
  array := fun _ _ _ hcut => arrayAgrees_of_isCut hcut
  covered := fun _ _ hreached _ _ _ hpassed hstretch => hreached.isCovered hpassed hstretch
  segments := by
    intro segments hsegments
    obtain ⟨hend, hcuts⟩ := Segment.isCut_of_segmentsOf hsegments
    refine ⟨hend, fun segment => ⟨fun hmem => ?_, ?_⟩⟩
    · obtain ⟨before, remaining, hcut, hstart⟩ := hcuts segment hmem
      exact ⟨before, remaining, hstart, hcut⟩
    · rintro ⟨passed, remaining, hstart, hcut⟩
      have hmem := Segment.mem_segmentsOf_of_isCut hcut hsegments
      rwa [← hstart] at hmem

end

end LineScript
