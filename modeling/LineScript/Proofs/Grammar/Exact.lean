import LineScript.Proofs.Grammar.Complete
import LineScript.Proofs.Grammar.Derivation
import LineScript.Proofs.Grammar.Parallel
import LineScript.Proofs.Reading.Ends

/-!
# Parsing accepts exactly the grammar

A list of tokens is parsed if and only if some beginning of it derives a program with at most as
many levels open as the limit allows, and the program is the one that all such derivations derive.
Where the limit alone is in the way, the fault says so.
-/

namespace LineScript

namespace TokenList

/-- A list of tokens whose kinds and payloads agree, and which ends with its only token for the end
of the source. -/
structure Proper (tokens : List Token) : Prop where
  /-- Kinds and payloads agree. -/
  agrees : ∀ token ∈ tokens, token.Agrees
  /-- The end comes last and only there. -/
  ends : ∃ body stop, tokens = body ++ [stop] ∧ stop.kind = .eof ∧
    ∀ token ∈ body, token.kind ≠ .eof

/-- A list that ends with its only token for the end of the source is split there. -/
theorem ofTokens_append {body : List Token} {stop : Token} (hstop : stop.kind = .eof)
    (hbody : ∀ token ∈ body, token.kind ≠ .eof) :
    ofTokens (body ++ [stop]) = ⟨body, stop.span, 0⟩ := by
  have hclosed : closed (body ++ [stop]) = body ++ [stop] := by
    simp [closed, hstop]
  exact ofTokens_of_closed_eq hclosed hbody hstop

end TokenList

section

open Grammar Reading

variable {body : List Token} {stop : Token}

theorem parse_of_ok (hstop : stop.kind = .eof) (hbody : ∀ token ∈ body, token.kind ≠ .eof)
    {program : Program} {after : Cursor} (h : Reading.program ⟨none, body⟩ = .ok (program, after)) :
    parse (body ++ [stop]) = .ok ⟨program, after.rest.length⟩ := by
  rw [parse, TokenList.ofTokens_append hstop hbody]
  simp only [TokenList.cursor, h]
  cases after.rest <;> rfl

theorem parse_of_error (hstop : stop.kind = .eof) (hbody : ∀ token ∈ body, token.kind ≠ .eof)
    {refusal : Refusal} (h : Reading.program ⟨none, body⟩ = .error refusal) :
    parse (body ++ [stop]) = .error (refusal.fault stop.span) := by
  rw [parse, TokenList.ofTokens_append hstop hbody]
  simp only [TokenList.cursor, h]

/-- No derivation reaches the end of the source. -/
theorem Grammar.Derives.before_end {room : ℕ∞} {read : List Token} {program : Program}
    (h : Derives room read program) (hstop : stop.kind = .eof) (hread : read <+: body ++ [stop]) :
    read <+: body := by
  rcases List.prefix_concat_iff.mp hread with rfl | hbegins
  · exact absurd hstop (h.kind_ne_eof stop (by simp))
  · exact hbegins

/-- A beginning that derives a program is read as that program wherever as many levels as the
derivation needs may be opened. -/
theorem exists_programWithin_of_derives {room : ℕ∞} {read : List Token} {program : Program}
    (h : Derives room read program) (hagrees : ∀ token ∈ body, token.Agrees)
    (hread : read <+: body) :
    ∃ least, ∀ n, least ≤ n → ∃ after, programWithin n ⟨none, body⟩ = .ok (program, after) := by
  obtain ⟨least, hleast⟩ := h.fromSome
  obtain ⟨rest, rfl⟩ := hread
  refine ⟨least, fun n hn => ?_⟩
  exact programWithin_of_derives (hleast n (by exact_mod_cast hn)) rfl
    (fun token hmem => hagrees token (List.mem_append_left rest hmem)) rest none

/-- Beginnings of one list that derive programs derive the same program. -/
theorem eq_of_derives {room room' : ℕ∞} {read read' : List Token} {program program' : Program}
    (hagrees : ∀ token ∈ body, token.Agrees)
    (h : Derives room read program) (hread : read <+: body)
    (h' : Derives room' read' program') (hread' : read' <+: body) : program = program' := by
  obtain ⟨least, hleast⟩ := exists_programWithin_of_derives h hagrees hread
  obtain ⟨least', hleast'⟩ := exists_programWithin_of_derives h' hagrees hread'
  obtain ⟨after, hafter⟩ := hleast (max least least') (Nat.le_max_left _ _)
  obtain ⟨after', hafter'⟩ := hleast' (max least least') (Nat.le_max_right _ _)
  rw [hafter] at hafter'
  simp only [Except.ok.injEq, Prod.mk.injEq] at hafter'
  exact hafter'.1

/-- A program is read within the limit exactly if a beginning derives it within the limit. -/
theorem program_ok_iff (hagrees : ∀ token ∈ body, token.Agrees) {program : Program} :
    (∃ after, Reading.program ⟨none, body⟩ = .ok (program, after)) ↔
      ∃ read, read <+: body ∧ Derives 256 read program := by
  constructor
  · rintro ⟨after, hresult⟩
    have houtcome := yields_programWithin rooms_cast nestingLimit ⟨none, body⟩ hagrees
    rw [← Reading.program, hresult] at houtcome
    obtain ⟨read, htokens, hderives⟩ := houtcome
    exact ⟨read, ⟨after.rest, htokens.symm⟩, hderives⟩
  · rintro ⟨read, ⟨rest, rfl⟩, hderives⟩
    exact programWithin_of_derives hderives rfl
      (fun token hmem => hagrees token (List.mem_append_left rest hmem)) rest none

/-- Where a beginning derives a program, only the limit can keep the program from being read. -/
theorem cause_of_derives (hagrees : ∀ token ∈ body, token.Agrees) {room : ℕ∞} {read : List Token}
    {program : Program} (h : Derives room read program) (hread : read <+: body)
    {refusal : Refusal} (hrefusal : Reading.program ⟨none, body⟩ = .error refusal) :
    refusal.cause = .tooDeeplyNested nestingLimit := by
  obtain ⟨least, hleast⟩ := exists_programWithin_of_derives h hagrees hread
  obtain ⟨after, hafter⟩ := hleast (max nestingLimit least) (Nat.le_max_right _ _)
  have hparallel := (parallel_programWithin rfl (Nat.le_max_left nestingLimit least)).follows
    ⟨none, body⟩ ⟨none, body⟩ (alike_refl body)
  rw [← Reading.program, hrefusal, hafter] at hparallel
  by_contra hcause
  obtain ⟨refusal', hother, -⟩ := hparallel (Nat.zero_le _) hcause
  cases hother

end

/-- Parsing gives a program if and only if a beginning of the tokens derives it with at most 256
levels open at once. All derivations from beginnings derive the same program. If they all need more
levels, the fault is that of the limit. -/
theorem parse_exact {tokens : List Token} (h : TokenList.Proper tokens) :
    (∀ program, (∃ ignored, parse tokens = .ok ⟨program, ignored⟩) ↔
      ∃ read, read <+: tokens ∧ Grammar.Derives 256 read program) ∧
    (∀ room room' read read' program program', read <+: tokens → read' <+: tokens →
      Grammar.Derives room read program → Grammar.Derives room' read' program' →
        program = program') ∧
    ((∃ read program, read <+: tokens ∧ Grammar.Derives ⊤ read program) →
      (¬ ∃ read program, read <+: tokens ∧ Grammar.Derives 256 read program) →
        ∃ fault, parse tokens = .error fault ∧ fault.cause = .tooDeeplyNested 256) := by
  obtain ⟨hagrees, body, stop, rfl, hstop, hbody⟩ := h
  have hagrees : ∀ token ∈ body, token.Agrees := fun token hmem =>
    hagrees token (List.mem_append_left _ hmem)
  -- No derivation uses the token for the end, so all of this is about the tokens before it.
  refine ⟨fun program => ⟨?_, ?_⟩, ?_, ?_⟩
  · rintro ⟨ignored, hparse⟩
    cases hresult : Reading.program ⟨none, body⟩ with
    | error refusal =>
      rw [parse_of_error hstop hbody hresult] at hparse
      cases hparse
    | ok pair =>
      rw [parse_of_ok hstop hbody hresult] at hparse
      obtain ⟨read, hread, hderives⟩ := (program_ok_iff hagrees).mp ⟨pair.2, hresult⟩
      simp only [Except.ok.injEq, Parsed.mk.injEq] at hparse
      exact ⟨read, hread.trans (List.prefix_append body [stop]), hparse.1 ▸ hderives⟩
  · rintro ⟨read, hread, hderives⟩
    obtain ⟨after, hresult⟩ :=
      (program_ok_iff hagrees).mpr ⟨read, hderives.before_end hstop hread, hderives⟩
    exact ⟨after.rest.length, parse_of_ok hstop hbody hresult⟩
  · intro room room' read read' program program' hread hread' hderives hderives'
    exact eq_of_derives hagrees hderives (hderives.before_end hstop hread) hderives'
      (hderives'.before_end hstop hread')
  · rintro ⟨read, program, hread, hderives⟩ hnone
    have hread := hderives.before_end hstop hread
    cases hresult : Reading.program ⟨none, body⟩ with
    | error refusal =>
      exact ⟨_, parse_of_error hstop hbody hresult,
        cause_of_derives hagrees hderives hread hresult⟩
    | ok pair =>
      obtain ⟨read, hread, hderives⟩ := (program_ok_iff hagrees).mp ⟨pair.2, hresult⟩
      exact absurd ⟨read, pair.1, hread.trans (List.prefix_append body [stop]), hderives⟩ hnone

/-- A program that prints the negation of a truth value, with a colon after its first keyword. -/
theorem parse_exact_print :
    ∃ ignored,
      parse ([.start, .colon, .print, .not, .boolean, .finish, .eof].map Token.Kind.sample) =
        .ok ⟨⟨[.print (.unary .not (.boolean true ⟨0, 0⟩) ⟨0, 0⟩) ⟨0, 0⟩]⟩, ignored⟩ := by
  have hproper : TokenList.Proper
      ([.start, .colon, .print, .not, .boolean, .finish, .eof].map Token.Kind.sample) :=
    ⟨by decide, [.start, .colon, .print, .not, .boolean, .finish].map Token.Kind.sample,
      Token.Kind.eof.sample, rfl, rfl, by decide⟩
  refine ((parse_exact hproper).1 _).mpr
    ⟨[.start, .colon, .print, .not, .boolean, .finish].map Token.Kind.sample, ⟨_, rfl⟩, ?_⟩
  have hoperand : Grammar.Joined [] 255 [Token.Kind.boolean.sample] (.boolean true ⟨0, 0⟩) :=
    .boolean rfl rfl
  have hnegation : Grammar.Joined [] (255 + 1) ([.not, .boolean].map Token.Kind.sample)
      (.unary .not (.boolean true ⟨0, 0⟩) ⟨0, 0⟩) := .unary rfl hoperand
  have hvalue : Grammar.Expression 256 ([.not, .boolean].map Token.Kind.sample)
      (.unary .not (.boolean true ⟨0, 0⟩) ⟨0, 0⟩) :=
    .tighter (.tighter (.tighter (.tighter (.tighter (.tighter hnegation)))))
  have hbody : Grammar.Statements 256 ([.print, .not, .boolean].map Token.Kind.sample)
      [.print (.unary .not (.boolean true ⟨0, 0⟩) ⟨0, 0⟩) ⟨0, 0⟩] :=
    .more .none (.print rfl .absent hvalue)
  exact .program rfl (.present rfl) hbody rfl .absent

end LineScript
