import LineScript.Proofs.Grammar.Exact

/-!
# Faults are found at the first wrong token

Where reading a program is refused, what was read before can still be completed to a program, and
with the token there it cannot. This is about the grammar without a limit on nesting, so refusals
for want of levels are left aside.
-/

namespace LineScript

open Grammar Reading

/-- What was read before a refusal is not continued to a program by tokens that begin as those there
do. The refusal does not depend on what comes later, so it would be met again. -/
theorem not_derives_of_refusal {room : ℕ∞} {read rest more : List Token} {program : Program}
    {refusal : Refusal} (hrefusal : Reading.program ⟨none, read ++ rest⟩ = .error refusal)
    (hrest : refusal.cursor.rest = rest) (hcause : refusal.cause ≠ .tooDeeplyNested nestingLimit)
    (hhead : rest.head?.map Token.face = more.head?.map Token.face)
    (hagrees : ∀ token ∈ read ++ more, token.Agrees) :
    ¬ Derives room (read ++ more) program := by
  intro hderives
  obtain ⟨least, hleast⟩ :=
    exists_programWithin_of_derives hderives hagrees (List.prefix_refl (read ++ more))
  obtain ⟨after, hafter⟩ := hleast (max nestingLimit least) (Nat.le_max_right _ _)
  have hparallel := (parallel_programWithin hhead (Nat.le_max_left nestingLimit least)).follows
    ⟨none, read ++ rest⟩ ⟨none, read ++ more⟩ (alike_append read)
  rw [← Reading.program, hrefusal, hafter] at hparallel
  obtain ⟨refusal', hother, -⟩ := hparallel (by rw [hrest]) hcause
  cases hother

section

variable {body read : List Token} {stop found : Token} {refusal : Refusal}
  (hagrees : ∀ token ∈ body ++ [stop], token.Agrees) (hstop : stop.kind = .eof)
  (hbody : ∀ token ∈ body, token.kind ≠ .eof)
  (hrefusal : Reading.program ⟨none, body⟩ = .error refusal)
  (hread : body = read ++ refusal.cursor.rest)
  (hfound : (refusal.cursor.rest ++ [stop]).head? = some found)

include hread hfound in
/-- The tokens are those read before the refusal, the one found there, and others. -/
theorem exists_tail_of_found : ∃ tail, body ++ [stop] = read ++ found :: tail := by
  obtain ⟨tail, htail⟩ := List.head?_eq_some_iff.mp hfound
  refine ⟨tail, ?_⟩
  rw [← htail, ← List.append_assoc, ← hread]

include hstop hfound

/-- The token at a refusal is of the kind that the position says. -/
theorem kind_of_found : found.kind = refusal.cursor.kind := by
  unfold Cursor.kind
  cases hrest : refusal.cursor.rest with
  | nil =>
    obtain rfl : stop = found := by simpa [hrest] using hfound
    exact hstop
  | cons head rest =>
    obtain rfl : head = found := by simpa [hrest] using hfound
    rfl

include hagrees hbody hrefusal hread

/-- Nothing that derives a program, even with other tokens for the end, begins with what was read
and the token that was found. -/
theorem not_begins_of_refusal (hcause : refusal.cause ≠ .tooDeeplyNested nestingLimit)
    {sentence : List Token} {program : Program} {last : Token}
    (hderives : Derives ⊤ sentence program) (hlast : last.kind = .eof) :
    ¬ read ++ [found] <+: sentence ++ [last] := by
  intro hbegins
  obtain ⟨tail, htokens⟩ := exists_tail_of_found hread hfound
  -- The payloads of the sentence may be taken to agree, and those of its beginning do already.
  obtain ⟨program', hsettled⟩ := hderives.settle
  have hsame : (read ++ [found]).map Token.settled = read ++ [found] := by
    conv_rhs => rw [← List.map_id (read ++ [found])]
    refine List.map_congr_left fun token hmem => Token.settled_of_agrees (hagrees token ?_)
    rw [htokens, List.append_cons]
    exact List.mem_append_left tail hmem
  have hbegins' : read ++ [found] <+: sentence.map Token.settled ++ [last.settled] := by
    have hmap := hbegins.map Token.settled
    rwa [hsame, List.map_append] at hmap
  have hsentence : ∀ token ∈ sentence.map Token.settled, token.Agrees := by
    intro token hmem
    obtain ⟨original, -, rfl⟩ := List.mem_map.mp hmem
    exact original.agrees_settled
  rw [hread] at hrefusal
  rcases List.prefix_concat_iff.mp hbegins' with hwhole | ⟨more, hmore⟩
  · -- The sentence ends with what was read, so the refusal is at the end.
    obtain ⟨hall, hend⟩ := List.append_inj' hwhole rfl
    have hkind : found.kind = .eof := by
      rw [List.singleton_inj.mp hend, Token.kind_settled, hlast]
    have hrest : refusal.cursor.rest = [] := by
      cases hcursor : refusal.cursor.rest with
      | nil => rfl
      | cons head rest =>
        obtain rfl : head = found := by simpa [hcursor] using hfound
        exact absurd hkind (hbody head (by simp [hread, hcursor]))
    have hnot : ¬ Derives ⊤ (read ++ []) program' :=
      not_derives_of_refusal hrefusal rfl hcause (by rw [hrest]) (by simpa [hall] using hsentence)
    rw [List.append_nil, hall] at hnot
    exact hnot hsettled
  · -- The sentence goes on with the token that was found.
    have hkind : found.kind ≠ .eof := hsettled.kind_ne_eof found (by simp [← hmore])
    rw [← hmore, ← List.append_cons] at hsettled hsentence
    have hhead : refusal.cursor.rest.head?.map Token.face =
        (found :: more).head?.map Token.face := by
      cases hcursor : refusal.cursor.rest with
      | nil =>
        obtain rfl : stop = found := by simpa [hcursor] using hfound
        exact absurd hstop hkind
      | cons head rest =>
        obtain rfl : head = found := by simpa [hcursor] using hfound
        rfl
    exact not_derives_of_refusal hrefusal rfl hcause hhead hsentence hsettled

end

/-- A fault other than that of the limit is found at the first wrong token, the one with index `k`:
what comes before it is the beginning of a list that derives a program, no such list begins with
what comes before it and the token itself (which at the end stands for the end of that list), and
the fault names the kind of the token. -/
theorem parse_fault_at_first_wrong_token {tokens : List Token} (h : TokenList.Proper tokens)
    {fault : Fault} (hfault : parse tokens = .error fault)
    (hcause : fault.cause ≠ .tooDeeplyNested 256) :
    ∃ (refusal : Refusal) (k : Nat) (found : Token),
      Reading.program (TokenList.ofTokens tokens).cursor = .error refusal ∧
      fault = refusal.fault (TokenList.ofTokens tokens).stop ∧
      refusal.cursor.rest = (TokenList.ofTokens tokens).tokens.drop k ∧ tokens[k]? = some found ∧
      (∃ more program, (∀ token ∈ more, token.Agrees) ∧
        Derives ⊤ (tokens.take k ++ more) program) ∧
      (∀ sentence program stop, Derives ⊤ sentence program → stop.kind = .eof →
        ¬ tokens.take (k + 1) <+: sentence ++ [stop]) ∧
      fault.cause.found? = some found.kind := by
  obtain ⟨hagrees, body, stop, rfl, hstop, hbody⟩ := h
  have hbodyAgrees : ∀ token ∈ body, token.Agrees := fun token hmem =>
    hagrees token (List.mem_append_left _ hmem)
  have hlist := TokenList.ofTokens_append hstop hbody
  cases hresult : Reading.program ⟨none, body⟩ with
  | ok pair =>
    rw [parse_of_ok hstop hbody hresult] at hfault
    cases hfault
  | error refusal =>
    rw [parse_of_error hstop hbody hresult] at hfault
    obtain rfl : refusal.fault stop.span = fault := by simpa using hfault
    -- Soundness for the grammar without a limit says what was read and that it can be completed.
    have houtcome := yields_programWithin rooms_top nestingLimit ⟨none, body⟩ hbodyAgrees
    rw [← Reading.program, hresult] at houtcome
    obtain ⟨read, hread, htruthful, hviable⟩ := houtcome
    have hread : body = read ++ refusal.cursor.rest := hread
    -- The refusal stands on a token of the list, which may be the one for its end.
    obtain ⟨found, hfound⟩ : ∃ found, (refusal.cursor.rest ++ [stop]).head? = some found := by
      cases refusal.cursor.rest <;> simp
    obtain ⟨tail, htokens⟩ := exists_tail_of_found hread hfound
    have hbefore : (body ++ [stop]).take read.length = read := by
      rw [htokens, List.take_left]
    have hwith : (body ++ [stop]).take (read.length + 1) = read ++ [found] := by
      rw [htokens, List.append_cons]
      exact List.take_left' (by simp)
    obtain ⟨more, hmore, program, hderives⟩ := hviable trivial
    have hfoundKind := kind_of_found hstop hfound
    refine ⟨refusal, read.length, found, ?_, ?_, ?_, ?_, ⟨more, program, hmore, ?_⟩, ?_, ?_⟩
    · rw [hlist]
      exact hresult
    · rw [hlist]
    · rw [hlist, hread, List.drop_left]
    · rw [htokens, List.getElem?_append_right (Nat.le_refl _)]
      simp
    · rw [hbefore]
      exact hderives
    · intro sentence other last hsentence hlast
      rw [hwith]
      exact not_begins_of_refusal hagrees hstop hbody hresult hread hfound hcause hsentence hlast
    · rw [hfoundKind]
      exact htruthful.resolve_left hcause

/-- A sum without its second operand: the parenthesis after the sign is the first wrong token. -/
theorem parse_fault_at_missing_operand :
    ∃ (k : Nat) (found : Token),
      ([.start, .print, .number, .plus, .rightParen, .finish, .eof].map Token.Kind.sample)[k]? =
        some found ∧ found.kind = .rightParen ∧
      ∀ sentence program stop, Derives ⊤ sentence program → stop.kind = .eof →
        ¬ ([.start, .print, .number, .plus, .rightParen, .finish, .eof].map
          Token.Kind.sample).take (k + 1) <+: sentence ++ [stop] := by
  have hproper : TokenList.Proper
      ([.start, .print, .number, .plus, .rightParen, .finish, .eof].map Token.Kind.sample) :=
    ⟨by decide, [.start, .print, .number, .plus, .rightParen, .finish].map Token.Kind.sample,
      Token.Kind.eof.sample, rfl, rfl, by decide⟩
  have hfault :
      parse ([.start, .print, .number, .plus, .rightParen, .finish, .eof].map Token.Kind.sample) =
        .error ⟨.expectedExpression .expression .rightParen, ⟨0, 0⟩,
          some "'+' needs an expression on both sides."⟩ := by
    cbv
  obtain ⟨-, k, found, -, -, -, htoken, -, hnot, hkind⟩ :=
    parse_fault_at_first_wrong_token hproper hfault (by simp)
  exact ⟨k, found, htoken, (Option.some.inj hkind).symm, hnot⟩

end LineScript
