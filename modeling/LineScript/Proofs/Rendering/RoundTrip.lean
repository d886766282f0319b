import LineScript.Interpreter
import LineScript.Proofs.Machine.Positions
import LineScript.Proofs.Rendering.Layouts
import LineScript.Proofs.Rendering.Scan

/-!
# Renderings are read as the program they render

Whatever the vocabulary, the style and the layout, a rendering is read as its program up to spans.
Since running ignores spans, the renderings of a program in the two vocabularies do the same.
-/

namespace LineScript

open Text

variable {program : Program} {style : Style} {vocabulary : Vocabulary} {source : String}

/-- A rendering is read as its program up to spans, and no line of it is left out. -/
theorem Program.Renders.parse (h : program.Renders vocabulary style source)
    (hprintable : program.Printable style) :
    (scan source vocabulary).skipped = [] ∧
      ∃ parsed, parse (scan source vocabulary).tokens = .ok parsed ∧
        parsed.program.erase = program.erase := by
  obtain ⟨layout, hadmissible, hlexemes, hsource⟩ := h
  have hvalid : ∀ lexeme ∈ layout.lexemes, lexeme.Valid vocabulary := by
    rw [hlexemes]
    exact (Program.writable hprintable).valid
  obtain ⟨⟨tokens, stop, htokens, hstop, hread⟩, hskipped⟩ :=
    readAll_scan hadmissible hvalid hsource
  rw [hlexemes] at hread
  refine ⟨hskipped, ?_⟩
  rw [htokens]
  exact Program.parse_of_readAll hprintable hstop hread

/-- Interpreting a rendering does what its program does, up to spans. -/
theorem Program.Renders.run (h : program.Renders vocabulary style source)
    (hprintable : program.Printable style) (limit : Nat) :
    ((Settings.mk vocabulary limit).run source).result.mapError Fault.erase =
      (Machine.initial.run limit program).1.mapError Fault.erase := by
  obtain ⟨-, parsed, hparsed, herase⟩ := h.parse hprintable
  -- The tree that is read differs from the program in its spans, and running does not see them.
  have hrun := Machine.run_of_strip limit (Program.strip_of_erase herase)
    (rfl : Machine.initial.strip = Machine.initial.strip)
  rw [← hrun.1, Settings.run, hparsed]

/-- What the user sees of a script does not depend on spans, except for the text about its fault. -/
theorem report_of_mapError_erase {result result' : Except Fault (List String)}
    (h : result.mapError Fault.erase = result'.mapError Fault.erase)
    (settings settings' : Settings) :
    (settings.report result).success = (settings'.report result').success ∧
      (settings.report result).output = (settings'.report result').output ∧
      result.mapError Fault.cause = result'.mapError Fault.cause := by
  have hcause := mapError_cause_of_erase h
  obtain ⟨lines, rfl, rfl⟩ | ⟨fault, fault', rfl, rfl, -⟩ := cases_of_mapError h
  · exact ⟨rfl, rfl, hcause⟩
  · exact ⟨rfl, rfl, hcause⟩

/-- Every program that can be written has renderings in both vocabularies. Each of them is read as
the program up to spans, and any two of them, one in each vocabulary, are interpreted alike: both
fail or none, they print the same lines, and they fail for the same cause. -/
theorem renderings_round_trip (program : Program) (style : Vocabulary → Style)
    (h : ∀ vocabulary, program.Printable (style vocabulary)) :
    (∀ vocabulary, (∃ source, program.Renders vocabulary (style vocabulary) source) ∧
      ∀ source, program.Renders vocabulary (style vocabulary) source →
        (scan source vocabulary).skipped = [] ∧
          ∃ parsed, parse (scan source vocabulary).tokens = .ok parsed ∧
            parsed.program.erase = program.erase) ∧
    ∀ (limit : Nat) (plain colorful : String),
      program.Renders .plain (style .plain) plain →
      program.Renders .colorful (style .colorful) colorful →
        ((Settings.mk .plain limit).execute plain).success =
            ((Settings.mk .colorful limit).execute colorful).success ∧
          ((Settings.mk .plain limit).execute plain).output =
            ((Settings.mk .colorful limit).execute colorful).output ∧
          ((Settings.mk .plain limit).run plain).result.mapError Fault.cause =
            ((Settings.mk .colorful limit).run colorful).result.mapError Fault.cause := by
  refine ⟨fun vocabulary => ⟨?_, ?_⟩, ?_⟩
  · exact Program.exists_renders vocabulary (h vocabulary)
  · intro source hsource
    exact hsource.parse (h vocabulary)
  · intro limit plain colorful hplain hcolorful
    have hsame := (hplain.run (h .plain) limit).trans (hcolorful.run (h .colorful) limit).symm
    exact report_of_mapError_erase hsame _ _

/-- A program that prints the negation of a comparison. -/
def negatedComparison : Program :=
  ⟨[.assign "x" (.string "a" ⟨0, 0⟩) false ⟨0, 0⟩,
    .print (.unary .not
      (.binary .equal (.identifier "x" ⟨0, 0⟩) (.string "b#" ⟨0, 0⟩) ⟨0, 0⟩) ⟨0, 0⟩) ⟨0, 0⟩]⟩

/-- A style with double quotes, that declares all variables and has one colon. -/
def doubleQuoted : Style where
  literal _ _ := []
  quote _ _ := '"'
  declares _ := true
  printColon _ := false
  startColon := true
  finishColon := false

theorem printable_negatedComparison : negatedComparison.Printable doubleQuoted := by
  have hname : IsName "x" := ⟨by decide +kernel, by decide +kernel⟩
  have hfirst : IsQuotable '"' "a" := ⟨by decide, by decide, by decide⟩
  have hsecond : IsQuotable '"' "b#" := ⟨by decide, by decide, by decide⟩
  exact ⟨⟨⟨hname, hfirst⟩, ⟨hname, hsecond⟩, trivial⟩, by decide⟩

theorem renders_negatedComparison_plain : negatedComparison.Renders .plain doubleQuoted
    "start:\n  x = \"a\"\nprint not(x == \"b#\")\nend" := by
  have hblank : isBlank ' ' = true := by decide
  refine ⟨[
    ⟨[⟨[], .keyword .start⟩, ⟨[], .sign .colon⟩], []⟩,
    ⟨[⟨[' ', ' '], .name "x"⟩, ⟨[' '], .sign .assign⟩, ⟨[' '], .string '"' "a"⟩], []⟩,
    ⟨[⟨[], .keyword .print⟩, ⟨[' '], .sign .not⟩, ⟨[], .sign .leftParen⟩, ⟨[], .name "x"⟩,
      ⟨[' '], .sign .equal⟩, ⟨[' '], .string '"' "b#"⟩, ⟨[], .sign .rightParen⟩], []⟩,
    ⟨[⟨[], .keyword .finish⟩], []⟩], ?_, rfl, by decide +kernel⟩
  simp [Layout.Admissible, Piece.Admissible, Piece.FitsAfter, IsGap, hblank, Lexeme.clashes,
    Lexeme.isWord]

theorem renders_negatedComparison_colorful : negatedComparison.Renders .colorful doubleQuoted
    "sharu: loda ayia nakh x=\"a\" lakh chodya not (x == \"b#\") samaapt" := by
  have hblank : isBlank ' ' = true := by decide
  refine ⟨[
    ⟨[⟨[], .keyword .start⟩, ⟨[], .sign .colon⟩, ⟨[' '], .keyword .declare⟩, ⟨[' '], .name "x"⟩,
      ⟨[], .sign .assign⟩, ⟨[], .string '"' "a"⟩, ⟨[' '], .keyword .print⟩, ⟨[' '], .sign .not⟩,
      ⟨[' '], .sign .leftParen⟩, ⟨[], .name "x"⟩, ⟨[' '], .sign .equal⟩,
      ⟨[' '], .string '"' "b#"⟩, ⟨[], .sign .rightParen⟩, ⟨[' '], .keyword .finish⟩], []⟩],
    ?_, rfl, by decide +kernel⟩
  simp [Layout.Admissible, Piece.Admissible, Piece.FitsAfter, IsGap, hblank, Lexeme.clashes,
    Lexeme.isWord]

/-- The program in both vocabularies, on four lines and on one. -/
theorem renderings_round_trip_negation :
    (∃ parsed, parse (scan "start:\n  x = \"a\"\nprint not(x == \"b#\")\nend" .plain).tokens =
        .ok parsed ∧ parsed.program.erase = negatedComparison.erase) ∧
      ((Settings.mk .plain 10).execute "start:\n  x = \"a\"\nprint not(x == \"b#\")\nend").output =
        ((Settings.mk .colorful 10).execute
          "sharu: loda ayia nakh x=\"a\" lakh chodya not (x == \"b#\") samaapt").output := by
  obtain ⟨hread, halike⟩ := renderings_round_trip negatedComparison (fun _ => doubleQuoted)
    fun _ => printable_negatedComparison
  exact ⟨((hread .plain).2 _ renders_negatedComparison_plain).2,
    (halike 10 _ _ renders_negatedComparison_plain renders_negatedComparison_colorful).2.1⟩

end LineScript
