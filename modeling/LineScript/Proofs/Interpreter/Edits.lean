import LineScript.Interpreter
import LineScript.Proofs.Machine.Positions
import LineScript.Proofs.Scan.Lossless

/-!
# Lines that do nothing

Blank lines, comments and lines that are left out add no tokens, so a script may be edited at them
without a change in what it does. The tokens of the edited script stand at other places; they look
the same, and nothing after scanning sees more of them: not the parser (`Reading.gist_of_faces`),
not the machine (`Machine.run_of_strip`), and not the sentence about a fault
(`Settings.report_of_cause`).
-/

namespace LineScript

open Text

/-! ### Places of tokens are not seen -/

namespace Reading

theorem alike_of_faces {tokens tokens' : List Token}
    (h : tokens.map Token.face = tokens'.map Token.face) : Alike [] [] tokens tokens' := by
  induction tokens generalizing tokens' with
  | nil =>
    obtain rfl : tokens' = [] := by simpa using h.symm
    exact .horizon
  | cons token tokens ih =>
    obtain ⟨token', rest, rfl⟩ : ∃ token' rest, tokens' = token' :: rest := by
      cases tokens' with
      | nil => simp at h
      | cons token' rest => exact ⟨token', rest, rfl⟩
    rw [List.map_cons, List.map_cons, List.cons.injEq] at h
    exact .step h.1 (ih h.2)

/-- What is kept of reading a program: its tree without spans, or the cause of a refusal. -/
def gist (outcome : Except Refusal (Program × Cursor)) : Except Cause Program :=
  (outcome.map fun result => result.1.erase).mapError Refusal.cause

/-- Lists that look the same are read the same, unless reading the first runs out of levels. -/
theorem gist_of_faces_of_ne {tokens tokens' : List Token}
    (h : tokens.map Token.face = tokens'.map Token.face)
    (hlevels : gist (program ⟨none, tokens⟩) ≠ .error (.tooDeeplyNested nestingLimit)) :
    gist (program ⟨none, tokens⟩) = gist (program ⟨none, tokens'⟩) := by
  have hparallel : Parallel [] [] Program.erase program program :=
    parallel_programWithin rfl (Nat.le_refl nestingLimit)
  -- The horizon is the end of both lists, so nothing that is read lies beyond it.
  have hfollows := hparallel.follows ⟨none, tokens⟩ ⟨none, tokens'⟩ (alike_of_faces h)
  generalize program ⟨none, tokens⟩ = outcome at hfollows hlevels ⊢
  match outcome with
  | .ok (read, after) =>
    obtain ⟨read', after', hread, hsame, -⟩ := hfollows (Nat.zero_le _)
    rw [hread]
    exact congrArg Except.ok hsame
  | .error refusal =>
    obtain ⟨refusal', hrefusal, hcause, -⟩ :=
      hfollows (Nat.zero_le _) fun hcause => hlevels (congrArg Except.error hcause)
    rw [hrefusal]
    exact congrArg Except.error hcause

/-- Lists that look the same are read the same. -/
theorem gist_of_faces {tokens tokens' : List Token}
    (h : tokens.map Token.face = tokens'.map Token.face) :
    gist (program ⟨none, tokens⟩) = gist (program ⟨none, tokens'⟩) := by
  by_cases hlevels : gist (program ⟨none, tokens⟩) = .error (.tooDeeplyNested nestingLimit)
  · -- If the second did not run out of levels, the first would do as the second does.
    by_contra hne
    exact hne (gist_of_faces_of_ne h.symm fun hlevels' => hne (hlevels.trans hlevels'.symm)).symm
  · exact gist_of_faces_of_ne h hlevels

end Reading

/-- What is kept of parsing: the tree without spans, or the cause of the fault. -/
def Parsed.gist (outcome : Except Fault Parsed) : Except Cause Program :=
  (outcome.map fun parsed => parsed.program.erase).mapError Fault.cause

/-- Parsing up to the end of a source is reading what comes before the end. -/
theorem gist_parse {body : List Token} {stop : Token} (hstop : stop.kind = .eof)
    (hbody : ∀ token ∈ body, token.kind ≠ .eof) :
    Parsed.gist (parse (body ++ [stop])) = Reading.gist (Reading.program ⟨none, body⟩) := by
  cases houtcome : Reading.program ⟨none, body⟩ with
  | ok result =>
    rw [parse_of_ok hstop hbody houtcome]
    rfl
  | error refusal =>
    rw [parse_of_error hstop hbody houtcome]
    rfl

/-- The sentence about a fault depends on its cause alone. -/
theorem Fault.localize_of_cause {fault fault' : Fault} (h : fault.cause = fault'.cause)
    (vocabulary : Vocabulary) : fault.localize vocabulary = fault'.localize vocabulary := by
  -- Some sentences quote the message, which names the phase and the cause and nothing else.
  have hmessage : fault.message = fault'.message := by
    rw [message, message, phase, phase, h]
  rw [localize, localize, category, category, h, hmessage]

namespace Settings

variable (settings : Settings)

/-- The user sees no more of a fault than its cause. -/
theorem report_of_cause {result result' : Except Fault (List String)}
    (h : result.mapError Fault.cause = result'.mapError Fault.cause) :
    settings.report result = settings.report result' := by
  obtain ⟨lines, rfl, rfl⟩ | ⟨fault, fault', rfl, rfl, hcause⟩ := cases_of_mapError h
  · rfl
  · rw [report, report, Fault.localize_of_cause hcause]

/-- What a script does, from what is read. -/
theorem result_run (source : String) :
    (settings.run source).result = (parse (scan source settings.vocabulary).tokens).bind
      fun parsed => (Machine.initial.run settings.maxCallDepth parsed.program).1 := by
  rw [run]
  cases parse (scan source settings.vocabulary).tokens <;> rfl

/-- Running is the same where parsing is. -/
theorem cause_of_gist (limit : Nat) {outcome outcome' : Except Fault Parsed}
    (h : Parsed.gist outcome = Parsed.gist outcome') :
    (outcome.bind fun parsed => (Machine.initial.run limit parsed.program).1).mapError Fault.cause =
      (outcome'.bind fun parsed =>
        (Machine.initial.run limit parsed.program).1).mapError Fault.cause := by
  cases outcome with
  | ok parsed =>
    cases outcome' with
    | ok parsed' =>
      -- Trees that differ in their spans alone are run alike.
      have herase : parsed.program.erase = parsed'.program.erase := Except.ok.inj h
      have hrun := Machine.run_of_strip limit (Program.strip_of_erase herase)
        (rfl : Machine.initial.strip = Machine.initial.strip)
      exact mapError_cause_of_erase hrun.1
    | error fault' => cases h
  | error fault =>
    cases outcome' with
    | ok parsed' => cases h
    | error fault' => exact congrArg Except.error (Except.error.inj h)

/-- Scripts whose tokens look the same do the same. -/
theorem execute_of_faces {source source' : String}
    (h : (lineTokens source settings.vocabulary).map Token.face =
      (lineTokens source' settings.vocabulary).map Token.face) :
    settings.execute source = settings.execute source' := by
  have hgist (source : String) : Parsed.gist (parse (scan source settings.vocabulary).tokens) =
      Reading.gist (Reading.program ⟨none, lineTokens source settings.vocabulary⟩) :=
    gist_parse rfl (lossless_lineTokens source settings.vocabulary).ne_eof
  have hparsed : Parsed.gist (parse (scan source settings.vocabulary).tokens) =
      Parsed.gist (parse (scan source' settings.vocabulary).tokens) := by
    rw [hgist, hgist, Reading.gist_of_faces h]
  rw [execute, execute]
  apply settings.report_of_cause
  rw [result_run, result_run]
  exact cause_of_gist settings.maxCallDepth hparsed

end Settings

/-! ### What lines look like -/

/-- What the tokens of a line look like; there are none if it is left out. -/
def lineFaces (phrases : List Phrase) (line : List Char) : List (Token.Kind × Token.Payload) :=
  match tokensOfLine phrases line with
  | .ok tokens => tokens.map Token.face
  | .error _ => []

theorem map_face_contribution (phrases : List Phrase) (line : Line) :
    (line.contribution phrases).map Token.face = lineFaces phrases line.text := by
  rw [Line.contribution, Line.tokens, lineFaces]
  cases tokensOfLine phrases line.text with
  | error defect => rfl
  | ok tokens => exact List.map_map

/-- What the tokens of a source look like does not depend on where its lines stand. -/
theorem map_face_place (phrases : List Phrase) (before offset : Nat) (texts : List (List Char)) :
    ((Line.place before offset texts).flatMap (Line.contribution phrases)).map Token.face =
      texts.flatMap (lineFaces phrases) := by
  induction texts generalizing before offset with
  | nil => rfl
  | cons text texts ih =>
    rw [Line.place, List.flatMap_cons, List.map_append, map_face_contribution, ih,
      List.flatMap_cons]

/-- Only the code of a line is looked at. -/
theorem lineFaces_of_codeOf {phrases : List Phrase} {line line' : List Char}
    (h : codeOf line = codeOf line') : lineFaces phrases line = lineFaces phrases line' := by
  rw [lineFaces, lineFaces, tokensOfLine, tokensOfLine, h]

/-! ### Edits -/

/-- A line that does nothing: it is blank, it is nothing but a comment, or it is left out. -/
inductive Idle (phrases : List Phrase) : List Char → Prop
  | blank {line : List Char} : isBlankText line = true → Idle phrases line
  | comment {gap text : List Char} : isBlankText gap = true → Idle phrases (gap ++ '#' :: text)
  | skipped {line : List Char} {defect : Defect} : tokensOfLine phrases line = .error defect →
      Idle phrases line

/-- Lines before and after edits. Lines that do nothing are deleted and inserted, and comments are
replaced and removed. A comment starts at the first sign outside quotations, with all quotations
before it closed. -/
inductive Edited (phrases : List Phrase) : List (List Char) → List (List Char) → Prop
  | done : Edited phrases [] []
  | keep {line : List Char} {lines lines' : List (List Char)} :
      Edited phrases lines lines' → Edited phrases (line :: lines) (line :: lines')
  | delete {line : List Char} {lines lines' : List (List Char)} : Idle phrases line →
      Edited phrases lines lines' → Edited phrases (line :: lines) lines'
  | insert {line : List Char} {lines lines' : List (List Char)} : Idle phrases line →
      Edited phrases lines lines' → Edited phrases lines (line :: lines')
  | replace {code comment comment' : List Char} {lines lines' : List (List Char)} :
      clear (· == '#') none code = true → Edited phrases lines lines' →
      Edited phrases ((code ++ '#' :: comment) :: lines) ((code ++ '#' :: comment') :: lines')
  | remove {code comment : List Char} {lines lines' : List (List Char)} :
      clear (· == '#') none code = true → Edited phrases lines lines' →
      Edited phrases ((code ++ '#' :: comment) :: lines) (code :: lines')

section

variable {phrases : List Phrase} {code comment : List Char}

/-- Where a comment starts, no quotation is open. -/
theorem clear_of_beforeComment {quote : Quote}
    (h : beforeComment quote (code ++ '#' :: comment) = code) :
    clear (· == '#') quote code = true := by
  induction code generalizing quote with
  | nil =>
    cases quote with
    | none => rfl
    | some q => simp [beforeComment, Quote.isOutside] at h
  | cons c code ih =>
    rw [List.cons_append, beforeComment] at h
    split at h
    · cases h
    next hstop =>
      rw [Bool.not_eq_true] at hstop
      rw [clear, hstop, ih (List.cons.inj h).2]
      rfl

/-- A sign starts the comment of its line just if no sign outside quotations is before it and all
quotations before it are closed. -/
theorem codeOf_append_iff :
    codeOf (code ++ '#' :: comment) = code ↔ clear (· == '#') none code = true := by
  constructor
  · exact clear_of_beforeComment
  · intro hclear
    rw [codeOf, beforeComment_append_of_clear hclear]
    simp [beforeComment, Quote.isOutside]

theorem isBlankText_codeOf {line : List Char} (h : isBlankText line = true) :
    isBlankText (codeOf line) = true := by
  obtain ⟨comment, hline⟩ := beforeComment_append none line
  rw [← codeOf] at hline
  rw [hline, isBlankText, List.all_append, Bool.and_eq_true] at h
  exact h.1

theorem lineFaces_of_isBlankText {line : List Char} (h : isBlankText (codeOf line) = true) :
    lineFaces phrases line = [] := by
  rw [lineFaces, tokensOfLine, if_pos h]
  rfl

/-- A line that does nothing has no tokens. -/
theorem Idle.lineFaces_eq {line : List Char} (h : Idle phrases line) :
    lineFaces phrases line = [] := by
  cases h with
  | blank hblank => exact lineFaces_of_isBlankText (isBlankText_codeOf hblank)
  | @comment gap text hgap =>
    apply lineFaces_of_isBlankText
    rwa [codeOf_append_iff.mpr (clear_of_isBlank (List.all_eq_true.mp hgap))]
  | skipped hskipped => rw [lineFaces, hskipped]

/-- Edits leave the tokens as they look. -/
theorem Edited.lineFaces_eq {lines lines' : List (List Char)} (h : Edited phrases lines lines') :
    lines.flatMap (lineFaces phrases) = lines'.flatMap (lineFaces phrases) := by
  induction h with
  | done => rfl
  | keep _ ih => rw [List.flatMap_cons, List.flatMap_cons, ih]
  | delete hidle _ ih => rw [List.flatMap_cons, hidle.lineFaces_eq, List.nil_append, ih]
  | insert hidle _ ih => rw [List.flatMap_cons, hidle.lineFaces_eq, List.nil_append, ih]
  | @replace code comment comment' lines lines' hclear _ ih =>
    have hline : codeOf (code ++ '#' :: comment) = codeOf (code ++ '#' :: comment') := by
      rw [codeOf_append_iff.mpr hclear, codeOf_append_iff.mpr hclear]
    rw [List.flatMap_cons, List.flatMap_cons, lineFaces_of_codeOf hline, ih]
  | @remove code comment lines lines' hclear _ ih =>
    have hline : codeOf (code ++ '#' :: comment) = codeOf code := by
      rw [codeOf_append_iff.mpr hclear, codeOf_of_clear hclear]
    rw [List.flatMap_cons, List.flatMap_cons, lineFaces_of_codeOf hline, ih]

end

/-- Edits at lines that do nothing and at comments do not change what the user of a script sees of
it. -/
theorem execute_of_edited (settings : Settings) {source source' : String}
    (h : Edited settings.vocabulary.keywords.phrases (lines source.toList)
      (lines source'.toList)) : settings.execute source = settings.execute source' := by
  apply settings.execute_of_faces
  rw [lineTokens, lineTokens, linesOf, linesOf, map_face_place, map_face_place]
  exact h.lineFaces_eq

/-- A script with a comment, and the script with another comment, a title, a blank line and a line
that is left out. The sign that both print is in a quotation and starts no comment. -/
theorem execute_of_edited_title :
    (Settings.mk .plain 10).execute "start\nprint '#' # sign\nend" =
        (Settings.mk .plain 10).execute " # title\nstart\n\nprint '#' #\n@\nend" ∧
      ((Settings.mk .plain 10).execute " # title\nstart\n\nprint '#' #\n@\nend").output =
        ["#"] := by
  have hlines : lines "start\nprint '#' # sign\nend".toList =
      ["start".toList, "print '#' ".toList ++ '#' :: " sign".toList, "end".toList] := by decide
  have hlines' : lines " # title\nstart\n\nprint '#' #\n@\nend".toList =
      [" ".toList ++ '#' :: " title".toList, "start".toList, [], "print '#' ".toList ++ '#' :: [],
        ['@'], "end".toList] := by decide
  have hskipped : tokensOfLine Vocabulary.plain.keywords.phrases ['@'] =
      .error (.unexpectedCharacter '@') := by
    have hmunch : Segment.munch none '@' [] = .error (.unexpectedCharacter '@') := rfl
    have hcut : segmentsOf (codeOf ['@']) = .error (.unexpectedCharacter '@') :=
      Segment.cutAll_of_error (by decide) hmunch 0
    rw [tokensOfLine, if_neg (by decide), hcut]
  have hclear : clear (· == '#') none "print '#' ".toList = true := by decide
  have hsame : (Settings.mk .plain 10).execute "start\nprint '#' # sign\nend" =
      (Settings.mk .plain 10).execute " # title\nstart\n\nprint '#' #\n@\nend" := by
    apply execute_of_edited
    rw [hlines, hlines']
    exact .insert (.comment rfl) (.keep (.insert (.blank rfl) (.replace hclear (.insert
      (.skipped hskipped) (.keep .done)))))
  have houtput : ((Settings.mk .plain 10).execute "start\nprint '#' # sign\nend").output =
      ["#"] := by decide +kernel
  exact ⟨hsame, hsame ▸ houtput⟩

end LineScript
