import LineScript.Proofs.Rendering.Segments

/-!
# Programs that can be written have a rendering

All lexemes of a program that can be written are read as what they stand for, and they have a
layout: all on one line with a blank before each, except before the bracket of an index. It is
enough that such a bracket always follows a name.
-/

namespace LineScript

open Text

variable {vocabulary : Vocabulary} {style : Style}

/-- A lexeme after a blank, or directly after what stands before if it is the bracket of an index.
-/
def Piece.spaced : Lexeme → Piece
  | .sign .leftBracket => ⟨[], .sign .leftBracket⟩
  | lexeme => ⟨[' '], lexeme⟩

theorem Piece.lexeme_spaced (lexeme : Lexeme) : (Piece.spaced lexeme).lexeme = lexeme := by
  unfold spaced
  split <;> rfl

theorem isGap_spaced (lexeme : Lexeme) : IsGap (Piece.spaced lexeme).gap := by
  have hblank : isBlank ' ' = true := by decide
  unfold Piece.spaced
  split <;> simp [IsGap, hblank]

theorem Piece.Admissible.append {first second : List Piece} {previous : Option Lexeme}
    (hfirst : Piece.Admissible previous first)
    (hsecond : ∀ previous, Piece.Admissible previous second) :
    Piece.Admissible previous (first ++ second) := by
  induction first generalizing previous with
  | nil => exact hsecond previous
  | cons piece first ih =>
    obtain ⟨hgap, hfits, hrest⟩ := hfirst
    exact ⟨hgap, hfits, ih hrest⟩

namespace Lexeme

/-- The lexemes can be written with blanks between them, whatever stands before them. -/
structure Writable (vocabulary : Vocabulary) (lexemes : List Lexeme) : Prop where
  /-- Each of them is read as what it stands for. -/
  valid : ∀ lexeme ∈ lexemes, lexeme.Valid vocabulary
  /-- They may follow each other. -/
  admissible : ∀ previous, Piece.Admissible previous (lexemes.map Piece.spaced)

namespace Writable

variable {lexeme : Lexeme} {lexemes first second : List Lexeme}

theorem nil : Writable vocabulary [] :=
  ⟨by simp, fun _ => trivial⟩

theorem cons (hvalid : lexeme.Valid vocabulary) (hbracket : lexeme ≠ .sign .leftBracket)
    (h : Writable vocabulary lexemes) : Writable vocabulary (lexeme :: lexemes) := by
  refine ⟨List.forall_mem_cons.mpr ⟨hvalid, h.valid⟩, fun previous => ?_⟩
  rw [List.map_cons, Piece.Admissible]
  refine ⟨isGap_spaced lexeme, ?_, h.admissible _⟩
  have hspaced : Piece.spaced lexeme = ⟨[' '], lexeme⟩ := by
    unfold Piece.spaced
    split
    · exact absurd rfl hbracket
    · rfl
  rw [hspaced, Piece.FitsAfter]
  split
  · exact absurd ‹_› hbracket
  · exact fun hgap => absurd hgap (by simp)

theorem sign {kind : Token.Kind} (h : Writable vocabulary lexemes)
    (htext : kind.signText ≠ [] := by decide) (hbracket : kind ≠ .leftBracket := by decide) :
    Writable vocabulary (.sign kind :: lexemes) :=
  cons htext (fun heq => hbracket (Lexeme.sign.inj heq)) h

/-- The keywords of a vocabulary are its phrases, and only the one that declares a variable may be
missing. -/
theorem keyword {kind : Token.Kind} (h : Writable vocabulary lexemes)
    (hkind : kind ∈ [.start, .finish, .print, .condition, .consequence, .alternative, .loop, .times,
      .function, .declareList] := by decide) :
    Writable vocabulary (.keyword kind :: lexemes) := by
  have hall : ∀ kind ∈ [Token.Kind.start, .finish, .print, .condition, .consequence, .alternative,
      .loop, .times, .function, .declareList],
      ∃ phrase ∈ vocabulary.keywords.phrases, phrase.kind = kind := by
    cases vocabulary <;> decide +kernel
  exact cons (hall kind hkind) nofun h

/-- The bracket of an index may follow the name it is an index of. -/
theorem index {name : String} (hname : IsName name) (h : Writable vocabulary lexemes) :
    Writable vocabulary (.name name :: .sign .leftBracket :: lexemes) := by
  have hbracket : (Lexeme.sign .leftBracket).Valid vocabulary := List.cons_ne_nil _ _
  refine ⟨?_, fun previous => ?_⟩
  · rw [List.forall_mem_cons, List.forall_mem_cons]
    exact ⟨hname, hbracket, h.valid⟩
  · refine ⟨isGap_spaced _, ?_, isGap_spaced _, ⟨rfl, name, rfl⟩, h.admissible _⟩
    exact fun hgap => absurd hgap (by simp [Piece.spaced])

theorem append (hfirst : Writable vocabulary first) (hsecond : Writable vocabulary second) :
    Writable vocabulary (first ++ second) := by
  refine ⟨List.forall_mem_append.mpr ⟨hfirst.valid, hsecond.valid⟩, fun previous => ?_⟩
  rw [List.map_append]
  exact (hfirst.admissible previous).append hsecond.admissible

theorem grouped (parentheses : Bool) (h : Writable vocabulary lexemes) :
    Writable vocabulary (grouped parentheses lexemes) := by
  cases parentheses with
  | false => exact h
  | true => exact .sign (h.append (.sign nil))

theorem colon (present : Bool) : Writable vocabulary (colon present) := by
  cases present with
  | false => exact nil
  | true => exact .sign nil

theorem separated {items : List (List Lexeme)} (h : ∀ item ∈ items, Writable vocabulary item) :
    Writable vocabulary (separated items) := by
  match items with
  | [] => exact nil
  | [item] => simpa [Lexeme.separated, List.intercalate] using h item (by simp)
  | first :: second :: rest =>
    have hrest : Writable vocabulary (Lexeme.separated (second :: rest)) :=
      separated fun item hmem => h item (List.mem_cons_of_mem first hmem)
    have heq : Lexeme.separated (first :: second :: rest) =
        first ++ Lexeme.sign .comma :: Lexeme.separated (second :: rest) := by
      simp [Lexeme.separated, List.intercalate]
    rw [heq]
    exact (h first (by simp)).append (.sign hrest)

end Writable

end Lexeme

namespace Expr

open Lexeme (Writable)

/-- An expression that can be written has lexemes that can be written. -/
theorem writable (expr : Expr) (least : Nat) (h : expr.Printable style) :
    Writable vocabulary (expr.lexemes style least) := by
  match expr with
  | number value span => exact .cons h nofun .nil
  | string value span => exact .cons h nofun .nil
  | boolean value span => exact .cons trivial nofun .nil
  | array items span =>
    refine .cons (fun item hmem => ?_) nofun .nil
    obtain ⟨expr, hexpr, rfl⟩ := List.mem_map.mp hmem
    exact (h expr hexpr).2
  | identifier name span => exact .cons h nofun .nil
  | index name position span =>
    exact .index h.1 ((writable position 0 h.2).append (.sign .nil))
  | property name key span =>
    exact .cons h.1 nofun (.sign (.cons h.2 nofun .nil))
  | unary operator operand span =>
    -- The operators are signs or words, and none of them is a bracket.
    have hrest := writable operand tightest h
    cases operator <;> exact .sign hrest
  | binary operator left right span =>
    have hleft := writable left operator.level h.1
    have hright := writable right (operator.level + 1) h.2
    refine .grouped _ (hleft.append ?_)
    cases operator <;> exact .sign hright

end Expr

namespace Stmt

open Lexeme (Writable)

theorem writable_declaration (isList : Bool) (span : Span) :
    Writable vocabulary (declarationLexemes vocabulary style isList span) := by
  unfold declarationLexemes
  split
  next => exact .keyword .nil
  next =>
    split
    next hdeclares =>
      have hphrase : vocabulary.keywords.declarationPhrase?.isSome = true →
          ∃ phrase ∈ vocabulary.keywords.phrases, phrase.kind = .declare := by
        cases vocabulary <;> decide +kernel
      rw [Bool.and_eq_true] at hdeclares
      exact .cons (hphrase hdeclares.1) nofun .nil
    next => exact .nil

mutual

/-- A statement that can be written has lexemes that can be written. -/
theorem writable (stmt : Stmt) (h : stmt.Printable style) :
    Writable vocabulary (stmt.lexemes vocabulary style) := by
  match stmt with
  | print value span =>
    rw [lexemes]
    refine .keyword ((Writable.colon _).append ?_)
    exact value.writable 0 h
  | assign name value isList span =>
    rw [lexemes]
    refine (writable_declaration isList span).append (.cons h.1 nofun ?_)
    exact .sign (value.writable 0 h.2)
  | function name params body span =>
    rw [lexemes]
    have hparams : Writable vocabulary
        (Lexeme.separated (params.map fun param => [Lexeme.name param])) := by
      refine .separated fun item hitem => ?_
      obtain ⟨param, hparam, rfl⟩ := List.mem_map.mp hitem
      exact .cons (h.2.1 param hparam) nofun .nil
    have hbody := writableAll body h.2.2
    refine .keyword (.cons h.1 nofun (.sign ?_))
    refine hparams.append (.sign (.sign ?_))
    exact hbody.append (.sign .nil)
  | branch condition consequence alternative span =>
    rw [lexemes]
    have hconsequence := writableAll consequence h.2.1
    have halternative := writableAlternative alternative h.2.2
    refine .keyword (.sign ?_)
    refine (condition.writable 0 h.1).append (.sign ?_)
    refine .keyword (.sign ?_)
    exact hconsequence.append (.sign halternative)
  | loop count body span =>
    rw [lexemes]
    have hbody := writableAll body h.2
    refine .keyword ((count.writable 0 h.1).append ?_)
    refine .keyword (.sign ?_)
    exact hbody.append (.sign .nil)
  | call name args span =>
    rw [lexemes]
    have hargs : Writable vocabulary
        (Lexeme.separated (args.map fun arg => arg.lexemes style 0)) := by
      refine .separated fun item hitem => ?_
      obtain ⟨arg, harg, rfl⟩ := List.mem_map.mp hitem
      exact arg.writable 0 (h.2 arg harg)
    refine .cons h.1 nofun (.sign (hargs.append ?_))
    exact .sign .nil

theorem writableAll (stmts : List Stmt) (h : PrintableAll style stmts) :
    Writable vocabulary (lexemesAll vocabulary style stmts) := by
  match stmts with
  | [] => exact .nil
  | stmt :: stmts =>
    rw [lexemesAll]
    exact (writable stmt h.1).append (writableAll stmts h.2)

theorem writableAlternative (alternative : Option (List Stmt))
    (h : PrintableAlternative style alternative) :
    Writable vocabulary (lexemesAlternative vocabulary style alternative) := by
  match alternative with
  | none => exact .nil
  | some stmts =>
    rw [lexemesAlternative]
    have hstmts := writableAll stmts h
    refine .keyword (.sign ?_)
    exact hstmts.append (.sign .nil)

end

end Stmt

namespace Program

variable {program : Program}

/-- A program that can be written has lexemes that can be written. -/
theorem writable (h : program.Printable style) :
    Lexeme.Writable vocabulary (program.lexemes vocabulary style) := by
  have hbody : Lexeme.Writable vocabulary (Stmt.lexemesAll vocabulary style program.body) :=
    Stmt.writableAll program.body h.body
  rw [lexemes]
  refine .keyword ((Lexeme.Writable.colon _).append (hbody.append ?_))
  exact .keyword (.colon _)

/-- A program that can be written has a rendering. -/
theorem exists_renders (vocabulary : Vocabulary) (h : program.Printable style) :
    ∃ source, program.Renders vocabulary style source := by
  have hwritable : Lexeme.Writable vocabulary (program.lexemes vocabulary style) := writable h
  -- Line ends are not needed: everything fits on one line.
  let line : RenderedLine := ⟨(program.lexemes vocabulary style).map Piece.spaced, []⟩
  refine ⟨String.ofList (Layout.text vocabulary.keywords [line]), [line], ?_, ?_, ?_⟩
  · intro other hother
    obtain rfl : other = line := by simpa using hother
    exact ⟨hwritable.admissible none, by simp [line, IsGap]⟩
  · have hlexemes : Piece.lexeme ∘ Piece.spaced = id := funext Piece.lexeme_spaced
    simp [Layout.lexemes, line, hlexemes]
  · rw [String.toList_ofList]

end Program

end LineScript
