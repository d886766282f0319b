import LineScript.Proofs.Line.Slices
import LineScript.Proofs.Rendering.Classify

/-!
# What the tokens of a line are made of

A token is made of a phrase or of one segment (`Token.Origin`). Which segments a phrase takes up
depends on the vocabulary, but all of them are words that would also be names, so the defect of a
line does not: it is that of the first segment that stands for nothing (`tokens_eq_error_iff`). And
a segment that is no word of any phrase makes a token of its own (`exists_token_of_unphrased`).
-/

namespace LineScript

open Text

/-- A mapped result is an error if the result is. -/
theorem map_eq_error_iff {ε α β : Type} {result : Except ε α} {f : α → β} {e : ε} :
    result.map f = .error e ↔ result = .error e := by
  cases result <;> simp [Except.map]

/-! ### What segments stand for -/

namespace Segment

open Token (Kind Payload)

variable {kind : Kind} {payload : Payload}

/-- A word is an operator, a truth value, a number or a name. -/
theorem classifyWord_cases {text : List Char} (h : classifyWord text = .ok (kind, payload)) :
    (kind = .and ∨ kind = .or ∨ kind = .not) ∧ payload = .text (String.ofList text) ∨
      kind = .boolean ∧ (∃ value, payload = .boolean value) ∨
      kind = .number ∧ (∃ value, payload = .number value) ∨
      kind = .identifier ∧ payload = .text (String.ofList text) ∧ isIdentifier text = true ∧
        String.ofList text ∉ ["and", "or", "not", "true", "false"] := by
  unfold classifyWord at h
  dsimp only at h
  split at h
  · cases h
    exact .inl ⟨.inl rfl, rfl⟩
  next hand =>
  split at h
  · cases h
    exact .inl ⟨.inr (.inl rfl), rfl⟩
  next hor =>
  split at h
  · cases h
    exact .inl ⟨.inr (.inr rfl), rfl⟩
  next hnot =>
  split at h
  · cases h
    exact .inr (.inl ⟨rfl, true, rfl⟩)
  next htrue =>
  split at h
  · cases h
    exact .inr (.inl ⟨rfl, false, rfl⟩)
  next hfalse =>
  split at h
  next value _ =>
    cases h
    exact .inr (.inr (.inl ⟨rfl, value, rfl⟩))
  split at h
  next hidentifier =>
    cases h
    have hne {word : String} (hword : ¬ text = word.toList) : String.ofList text ≠ word :=
      fun heq => hword (by rw [← heq, String.toList_ofList])
    refine .inr (.inr (.inr ⟨rfl, rfl, hidentifier, ?_⟩))
    simp [hne hand, hne hor, hne hnot, hne htrue, hne hfalse]
  next => cases h

/-- The shape of a segment tells what it may stand for. -/
theorem classify_cases {segment : Segment} (h : segment.classify = .ok (kind, payload)) :
    segment.shape = .quoted ∧ kind = .string ∧ (∃ value, payload = .string value) ∨
      segment.shape = .array ∧ kind = .array ∧
        (∃ items, Literal.listOf segment.text = .ok items ∧ payload = .array items) ∨
      segment.shape = .mark ∧ markKind? segment.text = some kind ∧
        payload = .text (String.ofList segment.text) ∨
      segment.shape = .word ∧ classifyWord segment.text = .ok (kind, payload) := by
  rw [classify] at h
  split at h
  next hshape =>
    cases h
    exact .inl ⟨hshape, rfl, _, rfl⟩
  next hshape =>
    obtain ⟨items, hitems, hface⟩ := exists_of_map_eq_ok h
    cases hface
    exact .inr (.inl ⟨hshape, rfl, items, hitems, rfl⟩)
  next hshape =>
    split at h
    next own hown =>
      cases h
      exact .inr (.inr (.inl ⟨hshape, hown, rfl⟩))
    next => cases h
  next hshape => exact .inr (.inr (.inr ⟨hshape, h⟩))

end Segment

/-! ### Words of phrases -/

/-- A text that looks like a name is one, or an operator or a truth value. -/
theorem Segment.exists_classifyWord {text : List Char} (h : isIdentifier text = true) :
    ∃ kind payload, classifyWord text = .ok (kind, payload) := by
  unfold classifyWord
  dsimp only
  split
  · exact ⟨_, _, rfl⟩
  split
  · exact ⟨_, _, rfl⟩
  split
  · exact ⟨_, _, rfl⟩
  split
  · exact ⟨_, _, rfl⟩
  split
  · exact ⟨_, _, rfl⟩
  split
  · exact ⟨_, _, rfl⟩
  · exact ⟨_, _, rfl⟩

theorem isIdentifier_of_mem_phraseWords {vocabulary : Vocabulary} {word : List Char}
    (h : word ∈ vocabulary.keywords.phraseWords) : isIdentifier word = true := by
  have hall : ∀ word ∈ vocabulary.keywords.phraseWords, isIdentifier word = true := by
    cases vocabulary <;> decide +kernel
  exact hall word h

/-- The segments that a phrase takes up are its words. -/
theorem Phrase.isWord_of_wordsFit {words : List (List Char)} {segments : List Segment}
    (h : wordsFit words segments = true) :
    ∀ segment ∈ segments.take words.length, segment.shape = .word ∧ segment.text ∈ words := by
  induction words generalizing segments with
  | nil => simp
  | cons word words ih =>
    cases segments with
    | nil => simp
    | cons segment segments =>
      rw [wordsFit, Bool.and_eq_true] at h
      simp only [Segment.isWord, Bool.and_eq_true, decide_eq_true_eq] at h
      obtain ⟨⟨hshape, htext⟩, hothers⟩ := h
      intro other hmem
      rcases List.mem_cons.mp hmem with rfl | hmem
      · exact ⟨hshape, htext ▸ List.mem_cons_self⟩
      · obtain ⟨hother, hword⟩ := ih hothers other hmem
        exact ⟨hother, List.mem_cons_of_mem word hword⟩

/-- A phrase that is found takes up words of phrases. -/
theorem Phrase.mem_words_of_longest? {phrases : List Phrase} {segment : Segment}
    {rest : List Segment} {phrase : Phrase} (h : longest? phrases (segment :: rest) = some phrase) :
    ∀ other ∈ segment :: rest.take phrase.others.length,
      other.shape = .word ∧ ∃ phrase ∈ phrases, other.text ∈ phrase.words := by
  obtain ⟨hmem, hfits⟩ := mem_of_longest? h
  intro other hother
  obtain ⟨hshape, hword⟩ := isWord_of_wordsFit hfits other hother
  exact ⟨hshape, phrase, hmem, hword⟩

/-! ### Defects -/

namespace Segment

/-- Why a segment stands for nothing, if it does. -/
def defect? (segment : Segment) : Option Defect :=
  match segment.classify with
  | .ok _ => none
  | .error defect => some defect

variable {vocabulary : Vocabulary} {segments : List Segment}

/-- The defect of segments is that of the first one that has any. -/
theorem tokens_eq_error_iff {defect : Defect} :
    tokens vocabulary.keywords.phrases segments = .error defect ↔
      segments.findSome? defect? = some defect := by
  induction segments using Segment.tokens.induct vocabulary.keywords.phrases with
  | case1 => simp [tokens]
  | case2 segment rest phrase hphrase ih =>
    -- The words of the phrase would be names, so none of them has a defect.
    have hnone : ∀ other ∈ segment :: rest.take phrase.others.length, defect? other = none := by
      intro other hother
      obtain ⟨hshape, phrase, hmem, hword⟩ := Phrase.mem_words_of_longest? hphrase other hother
      have hidentifier : isIdentifier other.text = true :=
        isIdentifier_of_mem_phraseWords (List.mem_flatMap.mpr ⟨phrase, hmem, hword⟩)
      obtain ⟨kind, payload, hclassify⟩ := exists_classifyWord hidentifier
      rw [defect?, classify, hshape]
      simp only [hclassify]
    have hsplit : segment :: rest = (segment :: rest.take phrase.others.length) ++
        rest.drop phrase.others.length := by
      rw [List.cons_append, List.take_append_drop]
    rw [tokens, hphrase, hsplit, List.findSome?_append, List.findSome?_eq_none_iff.mpr hnone,
      Option.none_or, ← ih]
    exact map_eq_error_iff
  | case3 segment rest hnone other hother =>
    rw [tokens, hnone, List.findSome?_cons, defect?, hother]
    simp
  | case4 segment rest hnone kind payload hclassify ih =>
    rw [tokens, hnone, List.findSome?_cons, defect?, hclassify]
    exact map_eq_error_iff.trans ih

end Segment

/-! ### Lines -/

/-- The tokens of a line are those of its segments. That a line without code has none is no case of
its own. -/
theorem tokensOfLine_eq_bind (phrases : List Phrase) (line : List Char) :
    tokensOfLine phrases line = (segmentsOf (codeOf line)).bind (Segment.tokens phrases) := by
  rw [tokensOfLine]
  split
  next hblank =>
    rw [segmentsOf, Segment.cutAll_of_isBlankText hblank]
    show _ = Segment.tokens phrases []
    rw [Segment.tokens]
  next =>
    split
    next defect hdefect => rw [hdefect]; rfl
    next segments hsegments => rw [hsegments]; rfl

theorem tokensOfLine_eq_ok_iff {phrases : List Phrase} {line : List Char} {tokens : List Token} :
    tokensOfLine phrases line = .ok tokens ↔ ∃ segments,
      segmentsOf (codeOf line) = .ok segments ∧ Segment.tokens phrases segments = .ok tokens := by
  rw [tokensOfLine_eq_bind]
  cases segmentsOf (codeOf line) <;> simp [Except.bind]

/-- A line cannot be cut into segments, or has the defect of its first segment that has one. -/
theorem tokensOfLine_eq_error_iff {vocabulary : Vocabulary} {line : List Char} {defect : Defect} :
    tokensOfLine vocabulary.keywords.phrases line = .error defect ↔
      segmentsOf (codeOf line) = .error defect ∨ ∃ segments,
        segmentsOf (codeOf line) = .ok segments ∧
          segments.findSome? Segment.defect? = some defect := by
  rw [tokensOfLine_eq_bind]
  cases segmentsOf (codeOf line) <;> simp [Except.bind, Segment.tokens_eq_error_iff]

/-! ### Origins -/

namespace Token

/-- What a token of segments is made of, and the slice that it covers: a phrase, which may have
blanks between its words, or one segment. -/
inductive Origin (phrases : List Phrase) (segments : List Segment) : List Char → Token → Prop
  | phrase {phrase : Phrase} {slice : List Char} {token : Token} : phrase ∈ phrases →
      Phrase.Spaced phrase.words slice → token.face = (phrase.kind, .text phrase.text) →
      Origin phrases segments slice token
  | segment {segment : Segment} {kind : Kind} {payload : Payload} : segment ∈ segments →
      segment.classify = .ok (kind, payload) →
      Origin phrases segments segment.text ⟨kind, payload, 1, segment.span⟩

theorem Origin.mono {phrases : List Phrase} {segments more : List Segment} {slice : List Char}
    {token : Token} (h : Origin phrases segments slice token) (hsub : segments ⊆ more) :
    Origin phrases more slice token := by
  cases h with
  | phrase hmem hspaced hface => exact .phrase hmem hspaced hface
  | segment hmem hclassify => exact .segment (hsub hmem) hclassify

open Segment in
/-- Every token of segments has an origin, and covers the slice of the text where that stands. -/
theorem exists_origin {phrases : List Phrase} {offset : Nat} {text : List Char}
    {segments : List Segment} {tokens : List Token} (hlaid : Laid offset text segments)
    (h : Segment.tokens phrases segments = .ok tokens) :
    ∀ token ∈ tokens, ∃ before slice after, text = before ++ (slice ++ after) ∧
      Origin phrases segments slice token ∧
      token.span = ⟨offset + byteSize before, offset + byteSize before + byteSize slice⟩ := by
  induction segments using Segment.tokens.induct phrases generalizing offset text tokens with
  | case1 =>
    rw [Segment.tokens] at h
    cases h
    exact fun _ hmem => absurd hmem List.not_mem_nil
  | case2 segment rest phrase hphrase ih =>
    rw [Segment.tokens, hphrase] at h
    obtain ⟨others, hothers, rfl⟩ := exists_of_map_eq_ok h
    obtain ⟨hmem, hfits⟩ := Phrase.mem_of_longest? hphrase
    obtain ⟨gap, slice, after, last, rfl, -, hspaced, hstart, hlast, hstop, hafter⟩ :=
      Phrase.laid_of_wordsFit hfits hlaid
    intro token htoken
    rcases List.mem_cons.mp htoken with rfl | htoken
    · refine ⟨gap, slice, after, rfl, .phrase hmem hspaced rfl, ?_⟩
      rw [hlast, Option.getD_some, hstop, hstart]
    · obtain ⟨before, slice', after', rfl, horigin, hspan⟩ := ih hafter hothers token htoken
      refine ⟨gap ++ (slice ++ before), slice', after', by simp, horigin.mono fun other hother =>
        List.mem_cons_of_mem _ (List.mem_of_mem_drop hother), ?_⟩
      rw [hspan, hstop, hstart]
      simp [Nat.add_assoc]
  | case3 segment rest hnone defect hdefect =>
    rw [Segment.tokens, hnone] at h
    simp only [hdefect] at h
    cases h
  | case4 segment rest hnone kind payload hclassify ih =>
    rw [Segment.tokens, hnone] at h
    simp only [hclassify] at h
    obtain ⟨others, hothers, rfl⟩ := exists_of_map_eq_ok h
    cases hlaid with
    | @segment _ gap after _ _ _ hstart _ _ hrest =>
      intro token htoken
      rcases List.mem_cons.mp htoken with rfl | htoken
      · refine ⟨gap, segment.text, after, rfl, .segment List.mem_cons_self hclassify, ?_⟩
        show segment.span = _
        rw [Segment.span, Segment.stop, hstart]
      · obtain ⟨before, slice, after', rfl, horigin, hspan⟩ := ih hrest hothers token htoken
        refine ⟨gap ++ (segment.text ++ before), slice, after', by simp,
          horigin.mono (List.subset_cons_self _ _), ?_⟩
        rw [hspan, Segment.stop, hstart]
        simp [Nat.add_assoc]

/-- A segment that is no word of a phrase makes a token of its own. -/
theorem exists_token_of_unphrased {phrases : List Phrase} {segments : List Segment}
    {tokens : List Token} {segment : Segment} (h : Segment.tokens phrases segments = .ok tokens)
    (hmem : segment ∈ segments)
    (hword : segment.shape = .word → ∀ phrase ∈ phrases, segment.text ∉ phrase.words) :
    ∃ kind payload, segment.classify = .ok (kind, payload) ∧
      ⟨kind, payload, 1, segment.span⟩ ∈ tokens := by
  induction segments using Segment.tokens.induct phrases generalizing tokens with
  | case1 => cases hmem
  | case2 first rest phrase hphrase ih =>
    rw [Segment.tokens, hphrase] at h
    obtain ⟨others, hothers, rfl⟩ := exists_of_map_eq_ok h
    -- The words of the phrase are words of a phrase, so the segment comes after them.
    have hlater : segment ∈ rest.drop phrase.others.length := by
      rw [← List.take_append_drop phrase.others.length rest, ← List.cons_append] at hmem
      refine (List.mem_append.mp hmem).resolve_left fun hown => ?_
      obtain ⟨hshape, other, hother, htext⟩ := Phrase.mem_words_of_longest? hphrase segment hown
      exact hword hshape other hother htext
    obtain ⟨kind, payload, hclassify, htoken⟩ := ih hothers hlater
    exact ⟨kind, payload, hclassify, List.mem_cons_of_mem _ htoken⟩
  | case3 first rest hnone defect hdefect =>
    rw [Segment.tokens, hnone] at h
    simp only [hdefect] at h
    cases h
  | case4 first rest hnone kind payload hclassify ih =>
    rw [Segment.tokens, hnone] at h
    simp only [hclassify] at h
    obtain ⟨others, hothers, rfl⟩ := exists_of_map_eq_ok h
    rcases List.mem_cons.mp hmem with rfl | hmem
    · exact ⟨kind, payload, hclassify, List.mem_cons_self⟩
    · obtain ⟨kind', payload', hclassify', htoken⟩ := ih hothers hmem
      exact ⟨kind', payload', hclassify', List.mem_cons_of_mem _ htoken⟩

end Token

end LineScript
