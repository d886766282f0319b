import LineScript.Reading.Parse

/-!
# Where lists of tokens end

A list of tokens is read up to its first token for the end of the source. Such a token is added if
the last token is none, so there always is a first one.
-/

namespace LineScript

namespace TokenList

variable {tokens body beyond : List Token} {stop : Token}

/-- A list of tokens with its end marked has one, and no more than one token is added. -/
theorem exists_closed_eq (tokens : List Token) :
    ∃ before last extra, closed tokens = before ++ [last] ∧ last.kind = .eof ∧
      before.length ≤ tokens.length ∧ closed tokens = tokens ++ extra := by
  unfold closed
  split
  next hlast =>
    rw [List.getLast?_eq_none_iff.mp hlast]
    exact ⟨[], _, _, rfl, rfl, Nat.zero_le _, rfl⟩
  next last hlast =>
    obtain ⟨before, rfl⟩ := List.getLast?_eq_some_iff.mp hlast
    split
    next hend => exact ⟨before, last, [], rfl, hend, by simp, (List.append_nil _).symm⟩
    next => exact ⟨before ++ [last], _, _, rfl, rfl, Nat.le_refl _, rfl⟩

/-- A list of tokens with its end marked has a first end, which is added if need be. -/
theorem exists_first_end (tokens : List Token) :
    ∃ body stop beyond, closed tokens = body ++ stop :: beyond ∧
      (∀ token ∈ body, token.kind ≠ .eof) ∧ stop.kind = .eof ∧ body.length ≤ tokens.length := by
  obtain ⟨before, last, -, hclosed, hlast, hlength, -⟩ := exists_closed_eq tokens
  have hfound : ((closed tokens).find? (·.kind = .eof)).isSome :=
    List.find?_isSome.mpr ⟨last, by simp [hclosed], by simpa using hlast⟩
  obtain ⟨stop, hfind⟩ := Option.isSome_iff_exists.mp hfound
  obtain ⟨hstop, body, beyond, hsplit, hbody⟩ := List.find?_eq_some_iff_append.mp hfind
  -- The first end is not after the last one.
  have hlengths := congrArg List.length (hsplit.symm.trans hclosed)
  simp only [List.length_append, List.length_cons, List.length_nil] at hlengths
  exact ⟨body, stop, beyond, hsplit, by simpa using hbody, by simpa using hstop, by omega⟩

/-- Where the first end is known, so is what comes before it and how much comes after. -/
theorem ofTokens_of_closed_eq (hclosed : closed tokens = body ++ stop :: beyond)
    (hbody : ∀ token ∈ body, token.kind ≠ .eof) (hstop : stop.kind = .eof) :
    ofTokens tokens = ⟨body, stop.span, beyond.length⟩ := by
  have hall : ∀ token ∈ body, decide (token.kind ≠ .eof) = true := by simpa using hbody
  have hnone : decide (stop.kind ≠ .eof) = false := by simpa using hstop
  simp only [ofTokens, hclosed, List.takeWhile_append_of_pos hall,
    List.dropWhile_append_of_pos hall, List.takeWhile_cons, List.dropWhile_cons, hnone]
  simp

/-- The tokens before an end do not depend on what is beyond it. -/
theorem exists_ofTokens_append (hbody : ∀ token ∈ body, token.kind ≠ .eof)
    (hstop : stop.kind = .eof) (beyond : List Token) :
    ∃ count, ofTokens (body ++ stop :: beyond) = ⟨body, stop.span, count⟩ := by
  obtain ⟨-, -, extra, -, -, -, hclosed⟩ := exists_closed_eq (body ++ stop :: beyond)
  rw [List.append_assoc, List.cons_append] at hclosed
  exact ⟨_, ofTokens_of_closed_eq hclosed hbody hstop⟩

/-- No token before the first end is an end. -/
theorem kind_ne_of_mem {token : Token} (h : token ∈ (ofTokens tokens).tokens) :
    token.kind ≠ .eof := by
  obtain ⟨body, stop, beyond, hclosed, hbody, hstop, -⟩ := exists_first_end tokens
  rw [ofTokens_of_closed_eq hclosed hbody hstop] at h
  exact hbody token h

/-- The tokens before the first end are those that a list begins with. -/
theorem tokens_prefix (tokens : List Token) : (ofTokens tokens).tokens <+: tokens := by
  obtain ⟨body, stop, beyond, hclosed, hbody, hstop, hlength⟩ := exists_first_end tokens
  obtain ⟨-, -, extra, -, -, -, hextra⟩ := exists_closed_eq tokens
  rw [ofTokens_of_closed_eq hclosed hbody hstop]
  exact List.prefix_of_prefix_length_le ⟨_, hclosed.symm⟩ ⟨extra, hextra.symm⟩ hlength

/-- Tokens that a list begins with are before its first end if none of them is an end. -/
theorem exists_tokens_append (hbody : ∀ token ∈ body, token.kind ≠ .eof) (rest : List Token) :
    ∃ more, (ofTokens (body ++ rest)).tokens = body ++ more := by
  obtain ⟨-, -, extra, -, -, -, hclosed⟩ := exists_closed_eq (body ++ rest)
  have hall : ∀ token ∈ body, decide (token.kind ≠ .eof) = true := by simpa using hbody
  rw [ofTokens, hclosed, List.append_assoc]
  exact ⟨_, List.takeWhile_append_of_pos hall⟩

end TokenList

/-- A list of tokens is parsed as a program exactly if the program is read from the tokens before
the first end. -/
theorem parse_ok_iff {tokens : List Token} {program : Program} :
    (∃ ignored, parse tokens = .ok ⟨program, ignored⟩) ↔
      ∃ after, Reading.program (TokenList.ofTokens tokens).cursor = .ok (program, after) := by
  rw [parse]
  constructor
  · rintro ⟨ignored, hparse⟩
    split at hparse
    next => cases hparse
    next program after hresult =>
      cases hparse
      exact ⟨after, hresult⟩
  · rintro ⟨after, hresult⟩
    rw [hresult]
    exact ⟨_, rfl⟩

end LineScript
