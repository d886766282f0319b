import LineScript.Proofs.Reading.Operands
import LineScript.Proofs.Scan.Origins

/-!
# The tokens of a source are well formed

What the grammar takes for granted of a token is settled at different stages. The shape of a segment
tells which kinds its token can have (`identifier_of_classify`, `bracket_of_classify`), numbers are
finite where they are read, and that an opening bracket is one of an index is decided from the
character before it when segments are cut (`Segment.any_of_munch`). That character belongs to a
token which ends there, as every character of a line that is no blank belongs to one
(`exists_before_bracket`).
-/

namespace LineScript

open Text

/-! ### Kinds of segments -/

namespace Segment

variable {segment : Segment} {payload : Token.Payload}

/-- A name is spelled by a word that looks like one and is neither an operator nor a truth
value. -/
theorem identifier_of_classify (h : segment.classify = .ok (.identifier, payload)) :
    segment.shape = .word ∧ payload = .text (String.ofList segment.text) ∧
      isIdentifier segment.text = true ∧ String.ofList segment.text ∉
        ["and", "or", "not", "true", "false"] := by
  rcases classify_cases h with ⟨-, hkind, -⟩ | ⟨-, hkind, -⟩ | ⟨-, hkind, -⟩ | ⟨hshape, hword⟩
  · cases hkind
  · cases hkind
  · unfold markKind? at hkind
    split at hkind <;> cases hkind
  · rcases classifyWord_cases hword with
      ⟨hkind | hkind | hkind, -⟩ | ⟨hkind, -⟩ | ⟨hkind, -⟩ | ⟨-, hname⟩
    · cases hkind
    · cases hkind
    · cases hkind
    · cases hkind
    · cases hkind
    · exact ⟨hshape, hname⟩

/-- An opening bracket is a sign of its own. -/
theorem bracket_of_classify (h : segment.classify = .ok (.leftBracket, payload)) :
    segment.shape = .mark ∧ segment.text = ['['] := by
  rcases classify_cases h with ⟨-, hkind, -⟩ | ⟨-, hkind, -⟩ | ⟨hshape, hkind, -⟩ | ⟨-, hword⟩
  · cases hkind
  · cases hkind
  · refine ⟨hshape, ?_⟩
    unfold markKind? at hkind
    split at hkind <;> cases hkind
    assumption
  · rcases classifyWord_cases hword with
      ⟨hkind | hkind | hkind, -⟩ | ⟨hkind, -⟩ | ⟨hkind, -⟩ | ⟨hkind, -⟩ <;> cases hkind

/-- A bracket that is a sign of its own follows a word character. -/
theorem any_of_munch {previous : Option Char} {rest tail remaining : List Char}
    (h : munch previous '[' rest = .ok (.mark, tail, remaining)) :
    previous.any isWordChar = true := by
  have hquote : LineScript.isQuote '[' = false := by decide
  rw [munch, hquote, if_neg Bool.false_ne_true] at h
  split at h
  · split at h <;> simp at h
  next hopen => simpa using hopen

theorem IsCut.exists_wordChar {text passed remaining : List Char}
    (h : IsCut text passed .mark ['['] remaining) :
    ∃ before c, passed = before ++ [c] ∧ isWordChar c = true := by
  cases h with
  | intro _ _ hmunch =>
    have hany := any_of_munch hmunch
    cases hlast : passed.getLast? with
    | none => simp [hlast] at hany
    | some c =>
      obtain ⟨before, rfl⟩ := List.getLast?_eq_some_iff.mp hlast
      exact ⟨before, c, rfl, by simpa [hlast] using hany⟩

end Segment

/-- Phrases are keywords. -/
theorem kind_of_mem_phrases {vocabulary : Vocabulary} {phrase : Phrase}
    (h : phrase ∈ vocabulary.keywords.phrases) :
    phrase.kind ≠ .identifier ∧ phrase.kind ≠ .leftBracket := by
  have hall : ∀ phrase ∈ vocabulary.keywords.phrases,
      phrase.kind ≠ .identifier ∧ phrase.kind ≠ .leftBracket := by
    cases vocabulary <;> decide +kernel
  exact hall phrase h

/-! ### Brackets -/

/-- Of tokens that stand in order and are not empty, the one that covers what comes before another
one is the one before it. -/
theorem exists_append_of_covers {tokens left right : List Token} {token previous : Token}
    (hordered : tokens.Pairwise fun left right => left.span.stop ≤ right.span.start)
    (hnonempty : ∀ token ∈ tokens, token.span.start < token.span.stop)
    (hsplit : tokens = left ++ token :: right) (hprevious : previous ∈ tokens)
    (hstart : previous.span.start < token.span.start)
    (hstop : token.span.start ≤ previous.span.stop) :
    previous.span.stop = token.span.start ∧ ∃ others, left = others ++ [previous] := by
  subst hsplit
  obtain ⟨hleft, hright, hacross⟩ := List.pairwise_append.mp hordered
  have htoken := hnonempty token (by simp)
  have hmem : previous ∈ left := by
    rcases List.mem_append.mp hprevious with hmem | hmem
    · exact hmem
    exfalso
    rcases List.mem_cons.mp hmem with rfl | hmem
    · omega
    · have hlater := (List.pairwise_cons.mp hright).1 previous hmem
      omega
  have hends : previous.span.stop = token.span.start :=
    Nat.le_antisymm (hacross previous hmem token List.mem_cons_self) hstop
  refine ⟨hends, ?_⟩
  obtain ⟨others, after, rfl⟩ := List.append_of_mem hmem
  -- A token between the two would be empty.
  cases after with
  | nil => exact ⟨others, rfl⟩
  | cons between after =>
    exfalso
    have hbetween := hnonempty between (by simp)
    have hafter := hacross between (by simp) token List.mem_cons_self
    have hbefore := (List.pairwise_cons.mp (List.pairwise_append.mp hleft).2.1).1 between
      List.mem_cons_self
    omega

section

variable {source : String} {vocabulary : Vocabulary}

/-- A token that is an opening bracket stands after a word character. -/
theorem exists_wordChar_of_bracket {line : Line} {token : Token}
    (htoken : token ∈ line.contribution vocabulary.keywords.phrases)
    (hkind : token.kind = .leftBracket) : ∃ before c rest,
      codeOf line.text = before ++ c :: '[' :: rest ∧ isWordChar c = true ∧
      token.span.start = line.offset + byteSize (before ++ [c]) := by
  obtain ⟨segments, _, _, _, own, hsegments, -, horigin, -, rfl⟩ := Line.exists_origin htoken
  cases horigin with
  | phrase hphrase _ hface =>
    exact absurd ((Prod.mk.inj hface).1.symm.trans hkind) (kind_of_mem_phrases hphrase).2
  | @segment segment kind payload hsegment hclassify =>
    obtain rfl : kind = .leftBracket := hkind
    obtain ⟨hshape, htext⟩ := Segment.bracket_of_classify hclassify
    obtain ⟨place, remaining, hcut, hstart⟩ :=
      (Segment.isCut_of_segmentsOf hsegments).2 segment hsegment
    rw [hshape, htext] at hcut
    obtain ⟨before, c, rfl, hc⟩ := hcut.exists_wordChar
    refine ⟨before, c, remaining, ?_, hc, congrArg (line.offset + ·) hstart⟩
    rw [← hcut.append_eq]
    simp

/-- A slice that ends where a character does ends in that character. -/
theorem Span.IsOf.exists_last {span : Span} {source before slice passed rest : List Char} {c : Char}
    (h : span.IsOf source before slice) (hne : slice ≠ []) (hsource : source = passed ++ c :: rest)
    (hstop : span.stop = byteSize (passed ++ [c])) : ∃ front, slice = front ++ [c] := by
  obtain ⟨front, last, rfl⟩ := (List.eq_nil_or_concat' slice).resolve_left hne
  have hwhole : before ++ (front ++ [last]) = passed ++ [c] := by
    refine eq_of_byteSize h.1 ⟨rest, by simp [hsource]⟩ ?_
    rw [← hstop, h.2]
  rw [← List.append_assoc] at hwhole
  obtain ⟨-, hlast⟩ := List.append_inj' hwhole rfl
  exact ⟨front, by rw [hlast]⟩

/-- An opening bracket directly follows a token of its line that ends in a word character. -/
theorem exists_before_bracket {left right : List Token} {token : Token}
    (htokens : lineTokens source vocabulary = left ++ token :: right)
    (hkind : token.kind = .leftBracket) : ∃ others previous before slice c,
      left = others ++ [previous] ∧ previous.line = token.line ∧
      previous.span.stop = token.span.start ∧
      previous.span.IsOf source.toList before (slice ++ [c]) ∧ isWordChar c = true := by
  have hmem : token ∈ lineTokens source vocabulary := by simp [htokens]
  obtain ⟨line, hline, htoken⟩ := List.mem_flatMap.mp hmem
  obtain ⟨passed, rest, hsource, hoffset, -⟩ := Line.exists_around (mem_linesOf_iff.mp hline)
  obtain ⟨before, c, after, hcode, hc, hstart⟩ := exists_wordChar_of_bracket htoken hkind
  -- The character before the bracket is covered by a token of the same line.
  obtain ⟨previous, hprevious, hprevStart, hprevStop⟩ :=
    (Line.spread_of_mem htoken).exists_token hcode (isBlank_of_isWordChar hc)
  have hmemPrevious : previous ∈ lineTokens source vocabulary :=
    List.mem_flatMap.mpr ⟨line, hline, hprevious⟩
  have hsize := c.utf8Size_pos
  simp only [byteSize_append, byteSize_cons, byteSize_nil] at hstart
  obtain ⟨hends, others, hleft⟩ := exists_append_of_covers pairwise_lineTokens
    (lossless_lineTokens source vocabulary).nonempty htokens hmemPrevious (by omega) (by omega)
  obtain ⟨own, slice, hspan, hne, -⟩ := exists_slice_of_mem hmemPrevious
  obtain ⟨front, rfl⟩ : ∃ front, slice = front ++ [c] := by
    have haround : source.toList = (passed ++ before) ++ c :: '[' :: (after ++ rest) := by
      rw [hsource, hcode]
      simp
    refine hspan.exists_last hne haround ?_
    rw [hends, hstart, hoffset]
    simp
  refine ⟨others, previous, own, front, c, hleft, ?_, hends, hspan, hc⟩
  exact (Line.exists_slice hprevious).1.trans (Line.exists_slice htoken).1.symm

/-! ### Sources -/

/-- What is known of all tokens of a source, and of what parsing makes of them. -/
structure Scan.WellFormed (source : String) (vocabulary : Vocabulary) (tokens : List Token) :
    Prop where
  /-- Literals carry their values, and all other tokens carry a text. -/
  agrees : ∀ token ∈ tokens, token.Agrees
  /-- Numbers are finite. -/
  number : ∀ token ∈ tokens, ∀ value, token.payload = .number value → value.isFinite = true
  /-- Numbers in list literals are finite. -/
  items : ∀ token ∈ tokens, ∀ items, token.payload = .array items → ∀ value,
    .number value ∈ items → value.isFinite = true
  /-- Names look like names, and are neither operators nor truth values nor phrases of one word. -/
  identifier : ∀ token ∈ tokens, token.kind = .identifier →
    isIdentifier token.text.toList = true ∧ token.text ∉ ["and", "or", "not", "true", "false"] ∧
      ∀ phrase ∈ vocabulary.keywords.phrases, phrase.words ≠ [token.text.toList]
  /-- An opening bracket directly follows a token of its line that ends in a word character. -/
  bracket : ∀ left token right, tokens = left ++ token :: right → token.kind = .leftBracket →
    ∃ others previous before slice c, left = others ++ [previous] ∧
      previous.line = token.line ∧ previous.span.stop = token.span.start ∧
      previous.span.IsOf source.toList before (slice ++ [c]) ∧ isWordChar c = true
  /-- Parsing never asks for an expression without a word about what needs it. -/
  operand : ∀ fault, parse tokens = .error fault → ∀ found,
    fault.cause = .expectedExpression .expression found → fault.help ≠ none

/-- Scanning makes well-formed tokens only. -/
theorem scan_wellFormed (source : String) (vocabulary : Vocabulary) :
    Scan.WellFormed source vocabulary (scan source vocabulary).tokens where
  agrees := (proper_scan source vocabulary).agrees
  number := by
    intro token htoken value hpayload
    obtain ⟨-, slice, -, -, hmatches, -⟩ := (lossless_lineTokens source vocabulary).slices token
      (mem_lineTokens_of_payload htoken (by simp [hpayload]))
    rw [hpayload] at hmatches
    exact isFinite_of_readNumber? hmatches
  items := by
    intro token htoken items hpayload value hvalue
    obtain ⟨-, slice, -, -, hmatches, -⟩ := (lossless_lineTokens source vocabulary).slices token
      (mem_lineTokens_of_payload htoken (by simp [hpayload]))
    rw [hpayload] at hmatches
    obtain ⟨item, -, hitem⟩ := Literal.exists_item_of_listOf hmatches hvalue
    exact Literal.isFinite_of_ofItem hitem
  identifier := by
    intro token htoken hkind
    obtain ⟨-, slice, -, -, -, hreads⟩ :=
      exists_slice_of_mem (mem_lineTokens htoken (by simp [hkind]))
    generalize hface : token.face = face at hreads
    cases hreads with
    | phrase hmem _ =>
      obtain ⟨hphrase, -⟩ := Prod.mk.inj hface
      exact absurd (hphrase.symm.trans hkind) (kind_of_mem_phrases hmem).1
    | segment _ hnone hclassify =>
      rw [← hface, Token.face, hkind] at hclassify
      obtain ⟨hword, hpayload, hidentifier, hother⟩ := Segment.identifier_of_classify hclassify
      have htext : token.text = String.ofList slice := Token.text_of_payload hpayload
      rw [htext, String.toList_ofList]
      exact ⟨hidentifier, hother, hnone hword⟩
  bracket := by
    intro left token right htokens hkind
    obtain ⟨body, last, rfl⟩ | rfl : (∃ body last, right = body ++ [last]) ∨ right = [] :=
      (List.eq_nil_or_concat' right).symm
    · rw [← List.cons_append, ← List.append_assoc] at htokens
      exact exists_before_bracket (List.append_inj' htokens rfl).1 hkind
    · obtain ⟨-, hlast⟩ := List.append_inj' htokens rfl
      rw [← (List.cons.inj hlast).1] at hkind
      cases hkind
  operand := fun _ hfault _ hcause =>
    help_ne_none_of_parse (proper_scan source vocabulary) hfault hcause

end

end LineScript
