import LineScript.Proofs.Grammar.Spans
import LineScript.Proofs.Interpreter.Edits
import LineScript.Proofs.Machine.Sites
import LineScript.Proofs.Reading.Moves

/-!
# Locations of faults

The line of a fault is counted from its first byte back to the beginning of the source. The line of
a token was counted when the source was scanned. Both are the same for the token that a fault is
about (`fault_located`): a fault of reading is about the token at which reading was refused, and one
of running about the first token of a statement or an expression.

No token goes over the end of a line, so it does not matter whether a fault begins where its token
starts or, at the end of the source, where it stops.
-/

namespace LineScript

open Text

/-! ### Lines of bytes -/

/-- The line feeds before a byte are those of the beginning that has as many bytes. -/
theorem lineBreaksBefore_of_begins {before text : List Char} (h : before <+: text) :
    lineBreaksBefore (byteSize before) text = before.count '\n' := by
  induction before generalizing text with
  | nil => cases text <;> simp [lineBreaksBefore]
  | cons c before ih =>
    obtain ⟨rest, rfl⟩ := h
    -- A character takes at least one byte, so the offset is not reached yet.
    have hsize := c.utf8Size_pos
    rw [List.cons_append, lineBreaksBefore, byteSize_cons, if_neg (by omega),
      Nat.add_sub_cancel_left, ih (List.prefix_append before rest), List.count_cons, Nat.add_comm]
    simp

/-- A source has one line more than line feeds. -/
theorem length_lines (text : List Char) : (lines text).length = text.count '\n' + 1 := by
  induction text using lines_induction with
  | single text htext => simp [lines_of_not_mem htext, List.count_eq_zero_of_not_mem htext]
  | more text rest htext ih =>
    simp [lines_append htext, ih, List.count_eq_zero_of_not_mem htext]

theorem length_place (before offset : Nat) (texts : List (List Char)) :
    (Line.place before offset texts).length = texts.length := by
  induction texts generalizing before offset with
  | nil => rfl
  | cons text texts ih => rw [Line.place, List.length_cons, ih, List.length_cons]

section

variable {source : String} {vocabulary : Vocabulary} {token : Token} {fault : Fault}

/-- A fault that begins after some text is on the line after its line feeds. -/
theorem Fault.line_of_begins {before : List Char} (h : before <+: source.toList)
    (hstart : fault.span.start = byteSize before) : fault.line source = before.count '\n' + 1 := by
  rw [line, hstart, lineBreaksBefore_of_begins h]

/-- A token starts and stops on the line that it names. -/
theorem exists_ends_of_mem (h : token ∈ lineTokens source vocabulary) :
    ∃ before slice, token.span.IsOf source.toList before slice ∧
      token.line = before.count '\n' + 1 ∧ token.line = (before ++ slice).count '\n' + 1 := by
  obtain ⟨line, hline, htoken⟩ := List.mem_flatMap.mp h
  obtain ⟨hnumber, before, slice, after, htext, -, -, hspan⟩ := Line.exists_slice htoken
  obtain ⟨passed, rest, hsource, hnewline, -, -, hcount, hoffset⟩ := mem_linesOf_iff.mp hline
  -- All line feeds before the token, and before its end, come before its line.
  have hbefore : before.count '\n' = 0 :=
    List.count_eq_zero_of_not_mem fun hmem => hnewline (by simp [htext, hmem])
  have hslice : slice.count '\n' = 0 :=
    List.count_eq_zero_of_not_mem fun hmem => hnewline (by simp [htext, hmem])
  refine ⟨passed ++ before, slice, ⟨⟨after ++ rest, ?_⟩, ?_⟩, ?_, ?_⟩
  · rw [hsource, htext]
    simp
  · rw [hspan, hoffset]
    simp [Nat.add_assoc]
  · rw [hnumber, hcount, List.count_append, hbefore, Nat.add_zero]
  · rw [hnumber, hcount, List.count_append, List.count_append, hbefore, hslice]

theorem Fault.line_of_start (h : token ∈ lineTokens source vocabulary)
    (hstart : fault.span.start = token.span.start) : fault.line source = token.line := by
  obtain ⟨before, slice, ⟨hbegins, hspan⟩, hline, -⟩ := exists_ends_of_mem h
  rw [hline]
  refine Fault.line_of_begins ((List.prefix_append before slice).trans hbegins) ?_
  rw [hstart, hspan]

theorem Fault.line_of_stop (h : token ∈ lineTokens source vocabulary)
    (hstart : fault.span.start = token.span.stop) : fault.line source = token.line := by
  obtain ⟨before, slice, ⟨hbegins, hspan⟩, -, hline⟩ := exists_ends_of_mem h
  rw [hline]
  refine Fault.line_of_begins hbegins ?_
  rw [hstart, hspan]

/-- A token starts and stops in the source. -/
theorem bounds_of_mem_lineTokens (h : token ∈ lineTokens source vocabulary) :
    token.span.start ≤ byteSize source.toList ∧ token.span.stop ≤ byteSize source.toList := by
  obtain ⟨before, slice, ⟨hbegins, hspan⟩, -⟩ := exists_ends_of_mem h
  rw [hspan]
  exact ⟨byteSize_le_of_begins ((List.prefix_append before slice).trans hbegins),
    byteSize_le_of_begins hbegins⟩

/-- The token for the end names the line on which the source ends. -/
theorem Fault.line_of_end (hstart : fault.span.start = byteSize source.toList) :
    fault.line source = (linesOf source).length := by
  rw [Fault.line_of_begins (List.prefix_refl source.toList) hstart, linesOf, length_place,
    length_lines]

/-! ### Faults of reading -/

/-- The token that is responsible for a refusal at the token with index `k`: the token itself, but
the one before it, if there is one, where the token is that for the end. -/
def responsible? (tokens : List Token) (k : Nat) : Option Token :=
  tokens[k]?.bind fun token => if token.kind = .eof ∧ 0 < k then tokens[k - 1]? else some token

theorem responsible?_of_ne_eof {tokens : List Token} {k : Nat} (h : tokens[k]? = some token)
    (hkind : token.kind ≠ .eof) : responsible? tokens k = some token := by
  simp [responsible?, h, hkind]

theorem responsible?_of_eof {before : List Token} {stop : Token} (hstop : stop.kind = .eof) :
    responsible? (before ++ [token] ++ [stop]) (before ++ [token]).length = some token := by
  simp [responsible?, hstop]

/-- Refusals belong to reading. -/
theorem Refusal.Truthful.phase {refusal : Refusal} (h : refusal.Truthful) :
    refusal.cause.phase = .parse := by
  rcases h with hcause | hfound
  · rw [hcause]
    rfl
  · cases hcause : refusal.cause with
    | missingStart | missingFinish | expected | expectedExpression | unexpectedToken
    | tooDeeplyNested => rfl
    | _ => simp [hcause, Cause.found?] at hfound

/-- A fault has its place in the source, and is on the line of the token that is responsible for a
refusal at the token with index `k`. -/
structure Fault.LocatedAt (source : String) (tokens : List Token) (k : Nat) (fault : Fault) :
    Prop where
  /-- It begins in the source or where the source ends. -/
  start : fault.span.start ≤ byteSize source.toList
  /-- It may cover the byte after the source. -/
  stop : fault.span.stop ≤ byteSize source.toList + 1
  /-- It is on the line of the token. -/
  line : ∃ token, responsible? tokens k = some token ∧ fault.line source = token.line

/-- A refusal at a token that is not the one for the end is about that token. -/
theorem Fault.locatedAt_of_token {read rest : List Token} {stop : Token}
    (htokens : lineTokens source vocabulary = read ++ token :: rest)
    (hspan : fault.span = token.span) :
    fault.LocatedAt source (lineTokens source vocabulary ++ [stop]) read.length := by
  have hmem : token ∈ lineTokens source vocabulary := by simp [htokens]
  have hkind : token.kind ≠ .eof := (lossless_lineTokens source vocabulary).ne_eof token hmem
  obtain ⟨hstart, hstop⟩ := bounds_of_mem_lineTokens hmem
  refine ⟨hspan ▸ hstart, hspan ▸ Nat.le_succ_of_le hstop, token, ?_,
    Fault.line_of_start hmem (by rw [hspan])⟩
  exact responsible?_of_ne_eof (by simp [htokens]) hkind

/-- A refusal at the end is about the byte after the last token. -/
theorem Fault.locatedAt_of_last {before : List Token} {stop : Token} (heof : stop.kind = .eof)
    (htokens : lineTokens source vocabulary = before ++ [token])
    (hspan : fault.span = Span.single token.span.stop) :
    fault.LocatedAt source (lineTokens source vocabulary ++ [stop])
      (before ++ [token]).length := by
  have hmem : token ∈ lineTokens source vocabulary := by simp [htokens]
  obtain ⟨-, hstop⟩ := bounds_of_mem_lineTokens hmem
  refine ⟨hspan ▸ hstop, hspan ▸ Nat.succ_le_succ hstop, token, ?_,
    Fault.line_of_stop hmem (by rw [hspan]; rfl)⟩
  rw [htokens]
  exact responsible?_of_eof heof

/-- A refusal at the end of a source without tokens is about the end. -/
theorem Fault.locatedAt_of_nil
    (hspan : fault.span = ⟨byteSize source.toList, byteSize source.toList⟩) :
    fault.LocatedAt source
      [Token.endOfSource (linesOf source).length (byteSize source.toList)] 0 := by
  refine ⟨hspan ▸ Nat.le_refl _, hspan ▸ Nat.le_succ _, _, rfl, ?_⟩
  exact Fault.line_of_end (by rw [hspan])

/-- A refusal is on the line of the token that is responsible for it. -/
theorem located_of_refusal {refusal : Refusal} {stop : Token}
    (hstop : stop = Token.endOfSource (linesOf source).length (byteSize source.toList))
    (hrefusal : Reading.program ⟨none, lineTokens source vocabulary⟩ = .error refusal)
    (hfault : fault = refusal.fault stop.span) :
    ∃ k, refusal.cursor.rest = (lineTokens source vocabulary).drop k ∧
      fault.LocatedAt source (lineTokens source vocabulary ++ [stop]) k := by
  obtain ⟨read, hread, hlast⟩ : ∃ read, Cursor.Leads ⟨none, lineTokens source vocabulary⟩ read
      refusal.cursor := by
    have hmoved := Reading.moves_programWithin Reading.nestingLimit
      ⟨none, lineTokens source vocabulary⟩
    rw [← Reading.program, hrefusal] at hmoved
    exact hmoved
  have hread : lineTokens source vocabulary = read ++ refusal.cursor.rest := hread
  have hspan : fault.span = refusal.cursor.place stop.span := congrArg Fault.span hfault
  generalize refusal.cursor = cursor at hread hlast hspan ⊢
  obtain ⟨last?, rest⟩ := cursor
  refine ⟨read.length, by rw [hread, List.drop_left], ?_⟩
  cases rest with
  | cons head rest => exact Fault.locatedAt_of_token hread hspan
  | nil =>
    -- The token that was read last is that at the end of what was read.
    rw [List.append_nil] at hread
    rcases List.eq_nil_or_concat read with rfl | ⟨before, token, rfl⟩
    · obtain rfl : last? = none := hlast
      rw [hread, hstop]
      exact Fault.locatedAt_of_nil (by rw [hspan, hstop]; rfl)
    · rw [List.concat_eq_append] at hread hlast ⊢
      obtain rfl : last? = some token := by simpa using hlast
      exact Fault.locatedAt_of_last (congrArg Token.kind hstop) hread hspan

/-! ### Faults of running -/

/-- A fault of a run is on the line of the first token of some node. -/
theorem located_of_run {read : List Token} {program : Program} {room : ℕ∞} {limit : Nat}
    (hread : read <+: lineTokens source vocabulary)
    (hderives : Grammar.Derives room read program)
    (hrun : (Machine.initial.run limit program).1 = .error fault) :
    (fault.span.start ≤ byteSize source.toList ∧
      fault.span.stop ≤ byteSize source.toList + 1) ∧
    ∃ node token, program.Has node ∧ fault.span = node.span ∧
      token ∈ lineTokens source vocabulary ∧ token.span.start = node.span.start ∧
      fault.line source = token.line := by
  obtain ⟨node, hnode, hspan⟩ := (Machine.arisesAt_of_run hrun).span
  obtain ⟨⟨first, hfirst, hstart⟩, ⟨last, hlast, hstop⟩⟩ := hderives.between hnode
  have hfirst := hread.subset hfirst
  have hbegin := (bounds_of_mem_lineTokens hfirst).1
  have hend := (bounds_of_mem_lineTokens (hread.subset hlast)).2
  rw [hspan] at hstart hstop
  refine ⟨⟨by omega, by omega⟩, node, first, hnode, hspan.symm, hfirst, by rw [hstart, hspan], ?_⟩
  exact Fault.line_of_start hfirst hstart.symm

end

/-- A fault of a script has its place in the source, and is on the line that scanning recorded for
the token it is about. A fault of reading is that of a refusal at the token with some index `k`, and
is about the token that is responsible there. A fault of running has the bytes of a node of the
program, and is about the token at which the node starts. -/
theorem fault_located (settings : Settings) (source : String) (fault : Fault)
    (h : (settings.run source).result = .error fault) :
    fault.span.start ≤ byteSize source.toList ∧ fault.span.stop ≤ byteSize source.toList + 1 ∧
    let tokens := (scan source settings.vocabulary).tokens
    ((fault.phase = .parse ∧ ∃ refusal k token,
        Reading.program (TokenList.ofTokens tokens).cursor = .error refusal ∧
        fault = refusal.fault (TokenList.ofTokens tokens).stop ∧
        refusal.cursor.rest = (TokenList.ofTokens tokens).tokens.drop k ∧
        responsible? tokens k = some token ∧ fault.line source = token.line) ∨
      (fault.phase = .runtime ∧ ∃ parsed node token, parse tokens = .ok parsed ∧
        parsed.program.Has node ∧ fault.span = node.span ∧
        token ∈ tokens ∧ token.kind ≠ .eof ∧ token.span.start = node.span.start ∧
        fault.line source = token.line)) := by
  have hbody := (lossless_lineTokens source settings.vocabulary).ne_eof
  have hagrees : ∀ token ∈ lineTokens source settings.vocabulary, token.Agrees :=
    fun token hmem => (proper_scan source settings.vocabulary).agrees token
      (List.mem_append_left _ hmem)
  generalize hstop : Token.endOfSource (linesOf source).length (byteSize source.toList) = stop
  have heof : stop.kind = .eof := hstop ▸ rfl
  have htokens : (scan source settings.vocabulary).tokens =
      lineTokens source settings.vocabulary ++ [stop] := hstop ▸ rfl
  rw [Settings.result_run, htokens] at h
  dsimp only
  rw [htokens, TokenList.ofTokens_append heof hbody]
  cases hresult : Reading.program ⟨none, lineTokens source settings.vocabulary⟩ with
  | error refusal =>
    rw [parse_of_error heof hbody hresult] at h
    obtain rfl : refusal.fault stop.span = fault := Except.error.inj h
    obtain ⟨k, hrest, hstart, hend, token, htoken, hline⟩ :=
      located_of_refusal hstop.symm hresult rfl
    refine ⟨hstart, hend, .inl ⟨?_, refusal, k, token, hresult, rfl, hrest, htoken, hline⟩⟩
    -- What is refused by the readings of programs is never a matter of running them.
    have houtcome := Reading.yields_programWithin Reading.rooms_top Reading.nestingLimit
      ⟨none, lineTokens source settings.vocabulary⟩ hagrees
    rw [← Reading.program, hresult] at houtcome
    obtain ⟨-, -, htruthful, -⟩ := houtcome
    exact htruthful.phase
  | ok pair =>
    obtain ⟨program, after⟩ := pair
    have hparse := parse_of_ok heof hbody hresult
    rw [hparse] at h
    have hrun : (Machine.initial.run settings.maxCallDepth program).1 = .error fault := h
    obtain ⟨read, hread, hderives⟩ := (program_ok_iff hagrees).mp ⟨after, hresult⟩
    obtain ⟨⟨hstart, hend⟩, node, token, hnode, hspan, hmem, hfirst, hline⟩ :=
      located_of_run hread hderives hrun
    exact ⟨hstart, hend, .inr ⟨(Machine.arisesAt_of_run hrun).phase, _, node, token, hparse, hnode,
      hspan, List.mem_append_left _ hmem, hbody token hmem, hfirst, hline⟩⟩

/-- When and where a script failed, if it did. -/
def Run.site? (run : Run) : Option (Phase × Span) :=
  match run.result with
  | .ok _ => none
  | .error fault => some (fault.phase, fault.span)

theorem Run.exists_fault_of_site? {run : Run} {phase : Phase} {span : Span}
    (h : run.site? = some (phase, span)) :
    ∃ fault, run.result = .error fault ∧ fault.phase = phase ∧ fault.span = span := by
  unfold site? at h
  split at h
  next => cases h
  next fault hresult =>
    obtain ⟨hphase, hspan⟩ := Prod.mk.inj (Option.some.inj h)
    exact ⟨fault, hresult, hphase, hspan⟩

/-- A variable without a value, after a line that is left out and a letter of two bytes: its token
was counted on the third line. A program without an end: the fault is one byte behind the last
token, which was counted on the second line, and not on the third, where the source ends. -/
theorem fault_located_third_line :
    (∃ token ∈ (scan "start\n@\nprint 'é' - x\nend" .plain).tokens,
      token.span.start = 21 ∧ token.line = 3) ∧
    ∃ k token, responsible? (scan "start\nprint 1\n" .plain).tokens k = some token ∧
      token.line = 2 := by
  constructor
  · have hsite : ((Settings.mk .plain 10).run "start\n@\nprint 'é' - x\nend").site? =
        some (.runtime, ⟨21, 22⟩) := by decide +kernel
    obtain ⟨fault, hresult, hphase, hspan⟩ := Run.exists_fault_of_site? hsite
    obtain ⟨-, -, ⟨hparse, -⟩ | ⟨-, _, node, token, -, -, hnode, hmem, -, hstart, hline⟩⟩ :=
      fault_located ⟨.plain, 10⟩ _ fault hresult
    · rw [hphase] at hparse
      cases hparse
    · refine ⟨token, hmem, by rw [hstart, ← hnode, hspan], ?_⟩
      rw [← hline, Fault.line, hspan]
      decide
  · have hsite : ((Settings.mk .plain 10).run "start\nprint 1\n").site? =
        some (.parse, ⟨13, 14⟩) := by decide +kernel
    obtain ⟨fault, hresult, hphase, hspan⟩ := Run.exists_fault_of_site? hsite
    obtain ⟨-, -, ⟨-, _, k, token, -, -, -, htoken, hline⟩ | ⟨hrun, -⟩⟩ :=
      fault_located ⟨.plain, 10⟩ _ fault hresult
    · refine ⟨k, token, htoken, ?_⟩
      rw [← hline, Fault.line, hspan]
      decide
    · rw [hphase] at hrun
      cases hrun

end LineScript
