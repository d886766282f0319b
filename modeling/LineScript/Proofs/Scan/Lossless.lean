import LineScript.Proofs.Grammar.Exact
import LineScript.Proofs.Line.Slices
import LineScript.Proofs.Rendering.Scan

/-!
# Scanning loses and invents nothing

The lines of a source are the texts between its line feeds (`mem_linesOf_iff`). What the tokens of a
line have to do with its code is carried over to the source, where the line starts at some byte.
-/

namespace LineScript

open Text

/-! ### Lines of a source -/

namespace Text

/-- A source is one line, or a line, a line feed and another source. -/
theorem lines_induction {motive : List Char → Prop}
    (single : ∀ text, '\n' ∉ text → motive text)
    (more : ∀ text rest, '\n' ∉ text → motive rest → motive (text ++ '\n' :: rest))
    (source : List Char) : motive source := by
  by_cases hsource : '\n' ∈ source
  · obtain ⟨text, rest, hsplit, htext⟩ := List.eq_append_cons_of_mem hsource
    have : rest.length < source.length := by simp [hsplit]; omega
    rw [hsplit]
    exact more text rest htext (lines_induction single more rest)
  · exact single source hsource
termination_by source.length

end Text

/-- Some text `passed`, which is whole lines, is followed by `rest`, in which the line stands. -/
def Line.IsAfter (passed rest : List Char) (line : Line) : Prop :=
  ∃ before after, rest = before ++ (line.text ++ after) ∧ '\n' ∉ line.text ∧
    (∀ c ∈ before.getLast?, c = '\n') ∧ (∀ c ∈ after.head?, c = '\n') ∧
    line.before = (passed ++ before).count '\n' ∧ line.offset = byteSize (passed ++ before)

/-- A line of a source is a text between line feeds or the ends of the source. -/
def Line.IsIn (source : List Char) (line : Line) : Prop :=
  ∃ before after, source = before ++ (line.text ++ after) ∧ '\n' ∉ line.text ∧
    (∀ c ∈ before.getLast?, c = '\n') ∧ (∀ c ∈ after.head?, c = '\n') ∧
    line.before = before.count '\n' ∧ line.offset = byteSize before

theorem eq_nil_of_getLast? {c : Char} {text : List Char} (h : ∀ d ∈ text.getLast?, d = c)
    (hc : c ∉ text) : text = [] := by
  by_contra hne
  have hlast := h _ (List.getLast?_eq_some_getLast hne)
  exact hc (hlast ▸ List.getLast_mem hne)

theorem eq_nil_of_head? {c : Char} {text : List Char} (h : ∀ d ∈ text.head?, d = c)
    (hc : c ∉ text) : text = [] := by
  by_contra hne
  have hhead := h _ (List.head?_eq_some_head hne)
  exact hc (hhead ▸ List.head_mem hne)

theorem getLast?_append_cons_iff {c : Char} {left right : List Char} :
    (∀ d ∈ (left ++ c :: right).getLast?, d = c) ↔ ∀ d ∈ right.getLast?, d = c := by
  cases hright : right.getLast? <;> simp [List.getLast?_append, List.getLast?_cons, hright]

/-- The first line ends with the first line feed. -/
theorem Line.isAfter_append_iff {line : Line} {passed text rest : List Char} (htext : '\n' ∉ text) :
    line.IsAfter passed (text ++ '\n' :: rest) ↔
      line = ⟨passed.count '\n', byteSize passed, text⟩ ∨
        line.IsAfter (passed ++ (text ++ ['\n'])) rest := by
  constructor
  · rintro ⟨before, after, hrest, hline, hbefore, hafter, hcount, hoffset⟩
    rcases cases_of_append_eq hrest.symm with ⟨more, rfl, rfl⟩ | ⟨more, rfl, hmore⟩
    · exact .inr ⟨more, after, rfl, hline, getLast?_append_cons_iff.mp hbefore, hafter,
        by simpa using hcount, by simpa using hoffset⟩
    · -- What comes before the line is whole lines, and has no line feed: it is nothing.
      obtain rfl : before = [] :=
        eq_nil_of_getLast? hbefore fun hmem => htext (List.mem_append_left _ hmem)
      rcases cases_of_append_eq hmore with ⟨tail, htail, -⟩ | ⟨tail, rfl, rfl⟩
      · exact absurd (by simp [htail]) hline
      · obtain rfl : tail = [] := by
          refine eq_nil_of_head? (fun d hd => hafter d ?_) fun hmem => htext (by simp [hmem])
          rw [Option.mem_def] at hd ⊢
          simp [hd]
        rw [List.append_nil] at hcount hoffset
        left
        rw [← hcount, ← hoffset, List.append_nil, List.nil_append]
  · rintro (rfl | ⟨before, after, rfl, hline, hbefore, hafter, hcount, hoffset⟩)
    · exact ⟨[], '\n' :: rest, rfl, htext, by simp, by simp, by simp, by simp⟩
    · exact ⟨text ++ '\n' :: before, after, by simp, hline, getLast?_append_cons_iff.mpr hbefore,
        hafter, by simpa using hcount, by simpa using hoffset⟩

/-- A text without a line feed is one line. -/
theorem Line.isAfter_iff_of_not_mem {line : Line} {passed text : List Char} (htext : '\n' ∉ text) :
    line.IsAfter passed text ↔ line = ⟨passed.count '\n', byteSize passed, text⟩ := by
  constructor
  · rintro ⟨before, after, rfl, hline, hbefore, hafter, hcount, hoffset⟩
    obtain rfl : before = [] := eq_nil_of_getLast? hbefore fun hmem => htext (by simp [hmem])
    obtain rfl : after = [] := eq_nil_of_head? hafter fun hmem => htext (by simp [hmem])
    rw [List.append_nil] at hcount hoffset
    rw [← hcount, ← hoffset, List.nil_append, List.append_nil]
  · rintro rfl
    exact ⟨[], [], by simp, htext, by simp, by simp, by simp, by simp⟩

/-- The lines that are placed after some text are those that follow it. -/
theorem mem_place_iff (passed : List Char) {rest : List Char} {line : Line} :
    line ∈ Line.place (passed.count '\n') (byteSize passed) (lines rest) ↔
      line.IsAfter passed rest := by
  induction rest using lines_induction generalizing passed with
  | single text htext =>
    rw [lines_of_not_mem htext, Line.isAfter_iff_of_not_mem htext, Line.place, Line.place,
      List.mem_singleton]
  | more text rest htext ih =>
    have hcount : (passed ++ (text ++ ['\n'])).count '\n' = passed.count '\n' + 1 := by
      simp [List.count_eq_zero_of_not_mem htext]
    have hsize : byteSize (passed ++ (text ++ ['\n'])) = byteSize passed + byteSize text + 1 := by
      simp [Nat.add_assoc]
      rfl
    rw [lines_append htext, Line.isAfter_append_iff htext, Line.place, List.mem_cons, ← ih, hcount,
      hsize]

/-- The lines of a source are its lines. -/
theorem mem_linesOf_iff {line : Line} {source : String} :
    line ∈ linesOf source ↔ line.IsIn source.toList :=
  mem_place_iff []

theorem offset_le_of_mem_place {before offset : Nat} {texts : List (List Char)} :
    ∀ line ∈ Line.place before offset texts, offset ≤ line.offset := by
  induction texts generalizing before offset with
  | nil => exact fun _ hmem => absurd hmem List.not_mem_nil
  | cons text texts ih =>
    intro line hmem
    rcases List.mem_cons.mp hmem with rfl | hmem
    · exact Nat.le_refl _
    · have hnext := ih line hmem
      omega

/-- A line ends before the next one starts. -/
theorem pairwise_place (before offset : Nat) (texts : List (List Char)) :
    (Line.place before offset texts).Pairwise fun left right =>
      left.offset + byteSize left.text ≤ right.offset := by
  induction texts generalizing before offset with
  | nil => exact .nil
  | cons text texts ih =>
    refine .cons (fun line hmem => ?_) (ih _ _)
    have hnext := offset_le_of_mem_place line hmem
    show offset + byteSize text ≤ line.offset
    omega

/-! ### Tokens of a source -/

namespace Line

variable {phrases : List Phrase}

/-- A line is left out and adds nothing, or its tokens cover its code. -/
theorem contribution_cases (phrases : List Phrase) (line : Line) :
    (∃ note, line.skipped? phrases = some note ∧ note.line = line.before + 1 ∧
      line.contribution phrases = []) ∨
    line.skipped? phrases = none ∧ Token.Spread phrases (line.before + 1) line.offset
      (codeOf line.text) (line.contribution phrases) := by
  rw [skipped?, contribution]
  cases htokens : line.tokens phrases with
  | error defect => exact .inl ⟨_, rfl, rfl, rfl⟩
  | ok tokens =>
    obtain ⟨own, hown, rfl⟩ := exists_of_map_eq_ok htokens
    exact .inr ⟨rfl, (Token.spread_of_tokensOfLine hown).shift line.before line.offset⟩

/-- A token of a line covers a slice of it. -/
theorem exists_slice {line : Line} {token : Token} (h : token ∈ line.contribution phrases) :
    token.line = line.before + 1 ∧ ∃ before slice after,
      line.text = before ++ (slice ++ after) ∧ slice ≠ [] ∧ Token.Reads phrases slice token.face ∧
      token.span =
        ⟨line.offset + byteSize before, line.offset + byteSize before + byteSize slice⟩ := by
  rcases line.contribution_cases phrases with ⟨-, -, -, hnone⟩ | ⟨-, hspread⟩
  · simp [hnone] at h
  · obtain ⟨hline, before, slice, after, hcode, hne, hreads, hspan⟩ := hspread.exists_slice token h
    obtain ⟨comment, htext⟩ := beforeComment_append none line.text
    refine ⟨hline, before, slice, after ++ comment, ?_, hne, hreads, hspan⟩
    rw [htext, ← codeOf, hcode]
    simp

/-- A token of a line stands on it. -/
theorem bounds_of_mem {line : Line} {token : Token} (h : token ∈ line.contribution phrases) :
    line.offset ≤ token.span.start ∧ token.span.stop ≤ line.offset + byteSize line.text := by
  obtain ⟨-, before, slice, after, htext, -, -, hspan⟩ := exists_slice h
  rw [hspan, htext, byteSize_append, byteSize_append]
  constructor <;> dsimp only <;> omega

end Line

/-- A span is that of a slice of a source, which comes after `before`. Its ends are ends of
characters. -/
def Span.IsOf (source before slice : List Char) (span : Span) : Prop :=
  before ++ slice <+: source ∧ span = ⟨byteSize before, byteSize (before ++ slice)⟩

theorem byteSize_le_of_begins {before text : List Char} (h : before <+: text) :
    byteSize before ≤ byteSize text := by
  obtain ⟨rest, rfl⟩ := h
  rw [byteSize_append]
  exact Nat.le_add_right _ _

/-- Two beginnings of a source that have as many bytes are the same. -/
theorem eq_of_byteSize {source left right : List Char} (hleft : left <+: source)
    (hright : right <+: source) (h : byteSize left = byteSize right) : left = right := by
  -- One of the two is a beginning of the other, and characters take at least a byte.
  have hlonger {shorter longer : List Char} (hbegins : shorter <+: longer)
      (hsize : byteSize shorter = byteSize longer) : shorter = longer := by
    obtain ⟨rest, rfl⟩ := hbegins
    cases rest with
    | nil => exact (List.append_nil shorter).symm
    | cons c rest =>
      have hc := c.utf8Size_pos
      simp only [byteSize_append, byteSize_cons] at hsize
      omega
  rcases List.prefix_or_prefix_of_prefix hleft hright with hbegins | hbegins
  · exact hlonger hbegins h
  · exact (hlonger hbegins h.symm).symm

/-- A span is that of one slice only. -/
theorem Span.IsOf.slice_eq {span : Span} {source before slice before' slice' : List Char}
    (h : span.IsOf source before slice) (h' : span.IsOf source before' slice') :
    slice = slice' := by
  obtain ⟨hbegins, hspan⟩ := h
  obtain ⟨hbegins', hspan'⟩ := h'
  rw [hspan, Span.mk.injEq] at hspan'
  have hbefore : before = before' :=
    eq_of_byteSize ((List.prefix_append before slice).trans hbegins)
      ((List.prefix_append before' slice').trans hbegins') hspan'.1
  have hwhole : before ++ slice = before' ++ slice' := eq_of_byteSize hbegins hbegins' hspan'.2
  rw [hbefore] at hwhole
  exact List.append_cancel_left hwhole

/-- What the tokens of a source, the one for its end left out, have to do with its text. -/
structure Scan.Lossless (source : List Char) (tokens : List Token) (skipped : List SkippedLine) :
    Prop where
  /-- Only the token that was left out is one for the end. -/
  ne_eof : ∀ token ∈ tokens, token.kind ≠ .eof
  /-- Spans are not empty. -/
  nonempty : ∀ token ∈ tokens, token.span.start < token.span.stop
  /-- Spans come one after the other; as they are not empty, they increase and have no byte in
  common. -/
  ordered : tokens.Pairwise fun left right => left.span.stop ≤ right.span.start
  /-- Every token stands on the line that it names. -/
  on_line : ∀ token ∈ tokens, ∃ line : Line, line.IsIn source ∧ token.line = line.before + 1 ∧
    line.offset ≤ token.span.start ∧ token.span.stop ≤ line.offset + byteSize line.text
  /-- Every token covers a slice of the source that its payload is read from, and its line is one
  more than the line feeds before the slice. -/
  slices : ∀ token ∈ tokens, ∃ before slice, token.span.IsOf source before slice ∧
    token.line = 1 + before.count '\n' ∧ token.payload.Matches slice ∧ token.Agrees
  /-- On a line that is not left out, every character of the code that is not blank is covered by
  exactly one token. -/
  covered : ∀ line : Line, line.IsIn source → (∀ note ∈ skipped, note.line ≠ line.before + 1) →
    ∀ before c after, codeOf line.text = before ++ c :: after → isBlank c = false →
      ∃! token, token ∈ tokens ∧ token.span.start ≤ line.offset + byteSize before ∧
        line.offset + byteSize before + c.utf8Size ≤ token.span.stop

section

variable {source : String} {vocabulary : Vocabulary}

/-- The tokens that the lines of a source add to a program. -/
def lineTokens (source : String) (vocabulary : Vocabulary) : List Token :=
  (linesOf source).flatMap (Line.contribution vocabulary.keywords.phrases)

/-- All tokens of a source but the one for its end are those of its lines. -/
theorem mem_lineTokens {token : Token} (h : token ∈ (scan source vocabulary).tokens)
    (hkind : token.kind ≠ .eof) : token ∈ lineTokens source vocabulary := by
  rcases List.mem_append.mp h with htoken | hstop
  · exact htoken
  · rw [List.mem_singleton.mp hstop] at hkind
    exact absurd rfl hkind

/-- A token of a source covers a slice of it. -/
theorem exists_slice_of_mem {token : Token} (h : token ∈ lineTokens source vocabulary) :
    ∃ before slice, token.span.IsOf source.toList before slice ∧ slice ≠ [] ∧
      token.line = 1 + before.count '\n' ∧
      Token.Reads vocabulary.keywords.phrases slice token.face := by
  obtain ⟨line, hline, htoken⟩ := List.mem_flatMap.mp h
  obtain ⟨hnumber, before, slice, after, htext, hne, hreads, hspan⟩ := Line.exists_slice htoken
  obtain ⟨passed, rest, hsource, hnewline, -, -, hcount, hoffset⟩ := mem_linesOf_iff.mp hline
  refine ⟨passed ++ before, slice, ⟨⟨after ++ rest, ?_⟩, ?_⟩, hne, ?_, hreads⟩
  · rw [hsource, htext]
    simp
  · rw [hspan, hoffset]
    simp [Nat.add_assoc]
  · -- No line feed comes between the beginning of the line and the slice.
    have hbefore : before.count '\n' = 0 := by
      refine List.count_eq_zero_of_not_mem fun hmem => hnewline ?_
      rw [htext]
      exact List.mem_append_left _ hmem
    rw [hnumber, hcount, List.count_append, hbefore]
    omega

theorem pairwise_lineTokens : (lineTokens source vocabulary).Pairwise fun left right =>
    left.span.stop ≤ right.span.start := by
  -- Tokens of one line are in order there, and those of two lines as the lines are.
  refine List.pairwise_flatMap.mpr ⟨fun line hline => ?_, ?_⟩
  · rcases line.contribution_cases vocabulary.keywords.phrases with ⟨-, -, -, hnone⟩ | ⟨-, hspread⟩
    · rw [hnone]
      exact .nil
    · exact hspread.pairwise
  · refine (pairwise_place 0 0 _).imp fun {left right} hlines token htoken other hother => ?_
    have hleft := (Line.bounds_of_mem htoken).2
    have hright := (Line.bounds_of_mem hother).1
    omega

/-- Tokens that cover the same byte are the same. -/
theorem eq_of_covers {tokens : List Token}
    (h : tokens.Pairwise fun left right => left.span.stop ≤ right.span.start) {token other : Token}
    (htoken : token ∈ tokens) (hother : other ∈ tokens) {byte : Nat}
    (hcovers : byte ∈ Set.Ico token.span.start token.span.stop)
    (hcovers' : byte ∈ Set.Ico other.span.start other.span.stop) : token = other := by
  -- Of two tokens in the list one comes first, and it ends before the other starts.
  have hfirst : tokens.Pairwise fun left right =>
      byte ∈ Set.Ico left.span.start left.span.stop →
        byte ∈ Set.Ico right.span.start right.span.stop → left = right := by
    refine h.imp fun {left right} hstop hleft hright => ?_
    rw [Set.mem_Ico] at hleft hright
    omega
  have hsecond : tokens.Pairwise fun left right =>
      byte ∈ Set.Ico right.span.start right.span.stop →
        byte ∈ Set.Ico left.span.start left.span.stop → right = left :=
    hfirst.imp fun hsame hright hleft => (hsame hleft hright).symm
  exact hfirst.forall_of_forall_of_flip (fun _ _ _ _ => rfl) hsecond htoken hother hcovers hcovers'

/-- The tokens of the lines of a source lose and invent nothing. -/
theorem lossless_lineTokens (source : String) (vocabulary : Vocabulary) :
    Scan.Lossless source.toList (lineTokens source vocabulary)
      (scan source vocabulary).skipped where
  ne_eof token htoken := by
    obtain ⟨before, slice, -, -, -, hreads⟩ := exists_slice_of_mem htoken
    exact hreads.proper.ne_eof
  nonempty token htoken := by
    obtain ⟨before, slice, ⟨-, hspan⟩, hne, -⟩ := exists_slice_of_mem htoken
    rw [hspan, byteSize_append]
    obtain ⟨c, rest, rfl⟩ := List.exists_cons_of_ne_nil hne
    have hc := c.utf8Size_pos
    simp only [byteSize_cons]
    omega
  ordered := pairwise_lineTokens
  on_line token htoken := by
    obtain ⟨line, hline, htoken⟩ := List.mem_flatMap.mp htoken
    exact ⟨line, mem_linesOf_iff.mp hline, (Line.exists_slice htoken).1, Line.bounds_of_mem htoken⟩
  slices token htoken := by
    obtain ⟨before, slice, hspan, -, hline, hreads⟩ := exists_slice_of_mem htoken
    exact ⟨before, slice, hspan, hline, hreads.proper.of_slice, hreads.proper.fits⟩
  covered line hline hskipped before c after hcode hc := by
    have hmem := mem_linesOf_iff.mpr hline
    rcases line.contribution_cases vocabulary.keywords.phrases with
      ⟨note, hnote, hnumber, -⟩ | ⟨-, hspread⟩
    · exact absurd hnumber (hskipped note (List.mem_filterMap.mpr ⟨line, hmem, hnote⟩))
    · obtain ⟨token, htoken, hstart, hstop⟩ := hspread.exists_token hcode hc
      have htoken : token ∈ lineTokens source vocabulary :=
        List.mem_flatMap.mpr ⟨line, hmem, htoken⟩
      refine ⟨token, ⟨htoken, hstart, hstop⟩, fun other hother => ?_⟩
      have hsize := c.utf8Size_pos
      -- Both cover the first byte of the character.
      refine eq_of_covers pairwise_lineTokens hother.1 htoken ⟨hother.2.1, ?_⟩ ⟨hstart, ?_⟩
      · have hend := hother.2.2
        omega
      · omega

end

/-- The tokens of every source are as a parser needs them. -/
theorem proper_scan (source : String) (vocabulary : Vocabulary) :
    TokenList.Proper (scan source vocabulary).tokens where
  agrees token htoken := by
    rcases List.mem_append.mp htoken with htoken | hstop
    · obtain ⟨before, slice, -, -, -, hagrees⟩ :=
        (lossless_lineTokens source vocabulary).slices token htoken
      exact hagrees
    · rw [List.mem_singleton.mp hstop]
      rfl
  ends := ⟨lineTokens source vocabulary, _, rfl, rfl,
    (lossless_lineTokens source vocabulary).ne_eof⟩

/-- Scanning loses and invents nothing: the tokens of a source are those that `Scan.Lossless` is
about, followed by the one for the end, which covers no bytes. In one vocabulary, tokens other than
that one are the same, up to their places, where they cover the same characters. -/
theorem scan_lossless (vocabulary : Vocabulary) :
    (∀ source : String, ∃ tokens stop, (scan source vocabulary).tokens = tokens ++ [stop] ∧
      stop.kind = .eof ∧ stop.span = ⟨byteSize source.toList, byteSize source.toList⟩ ∧
      Scan.Lossless source.toList tokens (scan source vocabulary).skipped) ∧
    ∀ (source source' : String) (token token' : Token) (before before' slice : List Char),
      token ∈ (scan source vocabulary).tokens → token.kind ≠ .eof →
      token' ∈ (scan source' vocabulary).tokens → token'.kind ≠ .eof →
      token.span.IsOf source.toList before slice → token'.span.IsOf source'.toList before' slice →
        token.kind = token'.kind ∧ token.payload = token'.payload := by
  refine ⟨fun source => ⟨lineTokens source vocabulary, _, rfl, rfl, rfl,
    lossless_lineTokens source vocabulary⟩, ?_⟩
  intro source source' token token' before before' slice htoken hkind htoken' hkind' hspan hspan'
  obtain ⟨_, read, hread, -, -, hreads⟩ := exists_slice_of_mem (mem_lineTokens htoken hkind)
  obtain ⟨_, read', hread', -, -, hreads'⟩ := exists_slice_of_mem (mem_lineTokens htoken' hkind')
  -- A span has one slice only, so the given ones are those that the tokens are read from.
  obtain rfl : slice = read := hspan.slice_eq hread
  obtain rfl : slice = read' := hspan'.slice_eq hread'
  exact Prod.mk.inj (hreads.face_eq hreads')

end LineScript
