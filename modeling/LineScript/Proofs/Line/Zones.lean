import LineScript.Proofs.Line.Agreement

/-!
# Zones of a line

Blanks separate words and signs, but they are characters like others in quotations, in list literals
and in comments. `Zone` tells character by character which of these a position is part of. Cutting
a line into segments only comes to stand in its code (`Segment.Reached.after_eq`), and what is cut
off there is the same whatever comes after a blank that ends the code (`Segment.settles`).
-/

namespace LineScript

open Text

/-! ### Zones -/

/-- What a position of a line is part of. -/
inductive Zone where
  /-- Words and signs, with the character directly before the position. -/
  | code (previous : Option Char)
  /-- A quotation that the given quote closes. -/
  | quotation (quote : Char)
  /-- A list literal, with the quotation of it that the position is in, and with the number of
  brackets that were opened in it and not closed. -/
  | array (quote : Quote) (depth : Nat)
  /-- A comment. -/
  | comment
deriving DecidableEq, Repr

namespace Zone

/-- The zone after a character. -/
def step : Zone → Char → Zone
  | code previous, c =>
    if isQuote c then quotation c
    else if c == '#' then comment
    -- Directly after a word character, a bracket is a sign: it indexes the word.
    else if c == '[' && !previous.any isWordChar then array none 0
    else code (some c)
  | quotation quote, c => if c = quote then code (some c) else quotation quote
  | array quote depth, c =>
    -- In a quotation of the literal, neither signs nor brackets count.
    if quote.isOutside && c == '#' then comment
    else if quote.isOutside && c == ']' && depth == 0 then code (some c)
    else array (quote.step c) (quote.depthAfter depth c)
  | comment, _ => comment

/-- The zone after a whole text. -/
def after (zone : Zone) (text : List Char) : Zone :=
  text.foldl step zone

example : (code none).after "a[0] = [1, ']'".toList = array none 0 := by decide +kernel

/-- Whether words and signs are read. -/
def isCode : Zone → Bool
  | code _ => true
  | _ => false

/-- The quotation that a position is in, wherever that is. -/
def quote : Zone → Quote
  | quotation quote => some quote
  | array quote _ => quote
  | _ => none

@[simp]
theorem after_nil (zone : Zone) : zone.after [] = zone := rfl

@[simp]
theorem after_cons (zone : Zone) (c : Char) (text : List Char) :
    zone.after (c :: text) = (zone.step c).after text := rfl

theorem after_append (zone : Zone) (left right : List Char) :
    zone.after (left ++ right) = (zone.after left).after right := by
  simp [after]

/-- A comment runs to the end of the line. -/
theorem after_comment (text : List Char) : comment.after text = comment := by
  induction text with
  | nil => rfl
  | cons c text ih => exact ih

variable {zone : Zone} {previous : Option Char} {text : List Char}

theorem ne_comment_of_isCode (h : (zone.after text).isCode = true) : zone ≠ comment := by
  rintro rfl
  rw [after_comment] at h
  cases h

/-- Characters without a meaning of their own go on with the code. -/
theorem after_of_forall (h : ∀ c ∈ text, isQuote c = false ∧ c ≠ '#' ∧ c ≠ '[') :
    (code previous).after text = code (text.getLast?.or previous) := by
  induction text generalizing previous with
  | nil => rfl
  | cons c text ih =>
    obtain ⟨⟨hquote, hcomment, hopen⟩, htext⟩ := List.forall_mem_cons.mp h
    rw [after_cons, step, if_neg (by simp [hquote]), if_neg (by simp [hcomment]),
      if_neg (by simp [hopen]), ih htext, List.getLast?_cons]
    cases text.getLast? <;> rfl

/-- A blank goes on with the code. -/
theorem step_of_isBlank {c : Char} (h : isBlank c = true) :
    (code previous).step c = code (some c) := by
  have hquote : isQuote c = false := by
    by_contra hquote
    have hblank := Quote.isBlank_of_isQuote (by simpa using hquote)
    simp [h] at hblank
  have hcomment : c ≠ '#' := ne_of_isBlank h (by decide)
  have hopen : c ≠ '[' := ne_of_isBlank h (by decide)
  rw [step, if_neg (by simp [hquote]), if_neg (by simp [hcomment]), if_neg (by simp [hopen])]

/-- A run of blanks goes on with it, too. -/
theorem isCode_of_isBlankText {gap : List Char} (h : isBlankText gap = true)
    (previous : Option Char) : ((code previous).after gap).isCode = true := by
  induction gap generalizing previous with
  | nil => rfl
  | cons c gap ih =>
    simp only [isBlankText, List.all_cons, Bool.and_eq_true] at h
    rw [after_cons, step_of_isBlank h.1]
    exact ih h.2 (some c)

/-! ### Comments -/

/-- Unless a comment begins, a character changes the quotation as it does in any text. -/
theorem quote_step {c : Char} (h : zone.step c ≠ comment) :
    (zone.quote.isOutside && c == '#') = false ∧ (zone.step c).quote = zone.quote.step c := by
  cases zone with
  | code previous =>
    rw [step] at h ⊢
    split_ifs at h ⊢ with hquote hcomment hopen
    · have hne : c ≠ '#' := by
        rintro rfl
        cases hquote
      exact ⟨by simp [hne], by simp [quote, Quote.step, hquote]⟩
    · exact absurd rfl h
    · exact ⟨by simp [hcomment], by simp [quote, Quote.step, hquote]⟩
    · exact ⟨by simp [hcomment], by simp [quote, Quote.step, hquote]⟩
  | quotation closing =>
    refine ⟨rfl, ?_⟩
    rw [step, quote, Quote.step]
    split <;> rfl
  | array inner depth =>
    rw [step] at h ⊢
    split_ifs at h ⊢ with hcomment hclose
    · exact absurd rfl h
    · refine ⟨Bool.eq_false_iff.mpr hcomment, ?_⟩
      -- The bracket that closes the literal is outside quotations.
      simp only [Bool.and_eq_true, beq_iff_eq] at hclose
      obtain ⟨⟨houtside, rfl⟩, -⟩ := hclose
      cases inner with
      | none => rfl
      | some quote => cases houtside
    · exact ⟨Bool.eq_false_iff.mpr hcomment, rfl⟩
  | comment => exact absurd rfl h

/-- The comment of a line is what it is of what follows a position in the code. -/
theorem beforeComment_append_of_isCode (h : (zone.after text).isCode = true) (rest : List Char) :
    beforeComment zone.quote (text ++ rest) = text ++ codeOf rest := by
  induction text generalizing zone with
  | nil =>
    cases zone with
    | code previous => rfl
    | _ => cases h
  | cons c text ih =>
    obtain ⟨hcomment, hquote⟩ := quote_step (ne_comment_of_isCode h)
    have hkept : ¬ (zone.quote.isOutside && c == '#') = true := by simp [hcomment]
    rw [List.cons_append, beforeComment, if_neg hkept, ← hquote, ih h, List.cons_append]

end Zone

theorem codeOf_append {text : List Char} (h : ((Zone.code none).after text).isCode = true)
    (rest : List Char) : codeOf (text ++ rest) = text ++ codeOf rest :=
  Zone.beforeComment_append_of_isCode h rest

/-! ### Segments in the code -/

/-- Only a bracket closes a list literal. -/
theorem eq_of_closes {quote : Quote} {depth : Nat} {c : Char}
    (h : (quote.isOutside && c == ']' && depth == 0) = true) : c = ']' := by
  simp only [Bool.and_eq_true, beq_iff_eq] at h
  exact h.1.2

/-- A list literal that ends in the code is closed before, whatever follows. -/
theorem exists_arrayTail_of_isCode {quote : Quote} {depth : Nat} {text : List Char}
    (h : ((Zone.array quote depth).after text).isCode = true) :
    ∃ tail remaining, tail ++ remaining = text ∧ tail.getLast? = some ']' ∧
      (Zone.array quote depth).after text = (Zone.code (some ']')).after remaining ∧
      ∀ more, arrayTail? quote depth (text ++ more) = some (tail, remaining ++ more) := by
  -- The first character closes the literal, or the rest of the text does with other brackets open.
  induction text generalizing quote depth with
  | nil => cases h
  | cons c text ih =>
    have hcomment := (Zone.quote_step (Zone.ne_comment_of_isCode h)).1
    have hcode : ¬ (quote.isOutside && c == '#') = true := by
      rw [Zone.quote] at hcomment
      simp [hcomment]
    rw [Zone.after_cons, Zone.step, if_neg hcode] at h ⊢
    by_cases hclose : (quote.isOutside && c == ']' && depth == 0) = true
    · rw [if_pos hclose]
      obtain rfl := eq_of_closes hclose
      refine ⟨[']'], text, rfl, rfl, rfl, fun more => ?_⟩
      rw [List.cons_append, arrayTail?, if_pos hclose]
    · rw [if_neg hclose] at h ⊢
      obtain ⟨tail, remaining, rfl, hlast, hafter, htail⟩ := ih h
      refine ⟨c :: tail, remaining, rfl, by rw [List.getLast?_cons, hlast]; rfl, hafter,
        fun more => ?_⟩
      rw [List.cons_append, arrayTail?, if_neg hclose]
      exact Option.map_eq_some_iff.mpr ⟨(tail, remaining ++ more), htail more, rfl⟩

/-- A quotation that ends in the code is closed before. -/
theorem exists_close_of_isCode {quote : Char} {text : List Char}
    (h : ((Zone.quotation quote).after text).isCode = true) :
    ∃ value remaining, text = value ++ [quote] ++ remaining ∧ quote ∉ value ∧
      (Zone.quotation quote).after text = (Zone.code (some quote)).after remaining := by
  induction text with
  | nil => cases h
  | cons c text ih =>
    rw [Zone.after_cons, Zone.step] at h ⊢
    by_cases hclose : c = quote
    · subst hclose
      rw [if_pos rfl]
      exact ⟨[], text, rfl, List.not_mem_nil, rfl⟩
    · rw [if_neg hclose] at h ⊢
      obtain ⟨value, remaining, rfl, hvalue, hafter⟩ := ih h
      refine ⟨c :: value, remaining, rfl, ?_, hafter⟩
      simpa [Ne.symm hclose] using hvalue

namespace Segment

variable {previous : Option Char} {c : Char} {rest : List Char}

/-- What is cut off before `rest` ends does not depend on what follows, if that begins with a blank:
a segment that leaves the code after it, or the same defect. -/
inductive Settles (previous : Option Char) (c : Char) (rest : List Char) : Prop
  | segment (shape : Shape) (tail : List Char) {remaining : List Char} :
      tail ++ remaining = rest →
      (Zone.code previous).after (c :: rest) =
        (Zone.code (c :: tail).getLast?).after remaining →
      (∀ more, Begins isBlank more →
        munch previous c (rest ++ more) = .ok (shape, tail, remaining ++ more)) →
      Settles previous c rest
  | defect (defect : Defect) :
      (∀ more, Begins isBlank more → munch previous c (rest ++ more) = .error defect) →
      Settles previous c rest

/-- The characters of a word have no other meaning. -/
theorem plain_of_continues {d : Char} (h : continues c d = true) :
    isQuote d = false ∧ d ≠ '#' ∧ d ≠ '[' := by
  rcases cases_of_continues h with hword | rfl
  · exact ⟨isQuote_of_isWordChar hword, ne_of_isWordChar hword (by decide),
      ne_of_isWordChar hword (by decide)⟩
  · decide

/-- A blank ends a word. -/
theorem continues_of_isBlank {d : Char} (h : isBlank d = true) : continues c d = false := by
  have hpoint : d ≠ '.' := ne_of_isBlank h (by decide)
  simp [continues, isWordChar_of_isBlank h, hpoint]

/-- A word opens nothing. -/
theorem after_word {tail : List Char} (hc : isWordChar c = true)
    (htail : ∀ d ∈ tail, continues c d = true) (previous : Option Char) :
    (Zone.code previous).after (c :: tail) = Zone.code (c :: tail).getLast? := by
  have hself : continues c c = true := by simp [continues, hc]
  rw [Zone.after_of_forall (List.forall_mem_cons.mpr
    ⟨plain_of_continues hself, fun d hd => plain_of_continues (htail d hd)⟩), List.getLast?_cons]
  rfl

theorem settles_word (hc : isWordChar c = true) : Settles previous c rest := by
  have hsplit : rest.takeWhile (continues c) ++ rest.dropWhile (continues c) = rest :=
    List.takeWhile_append_dropWhile
  have htail : ∀ d ∈ rest.takeWhile (continues c), continues c d = true := fun _ hd =>
    List.mem_takeWhile_imp hd
  refine .segment .word _ hsplit ?_ fun more hmore => ?_
  · conv_lhs => rw [← hsplit, ← List.cons_append, Zone.after_append, after_word hc htail]
  · conv_lhs => rw [← hsplit, List.append_assoc]
    refine munch_word hc htail fun d hd => ?_
    cases hdrop : rest.dropWhile (continues c) with
    | nil =>
      rw [hdrop] at hd
      simp [continues_of_isBlank (hmore d hd)]
    | cons stop remaining =>
      have hstop := List.head?_dropWhile_not (continues c) rest
      rw [hdrop] at hd hstop
      obtain rfl : stop = d := by simpa using hd
      simpa using hstop

theorem settles_quoted (hquote : isQuote c = true)
    (h : ((Zone.code previous).after (c :: rest)).isCode = true) : Settles previous c rest := by
  have hstep : (Zone.code previous).step c = .quotation c := by rw [Zone.step, if_pos hquote]
  rw [Zone.after_cons, hstep] at h
  obtain ⟨value, remaining, rfl, hvalue, hafter⟩ := exists_close_of_isCode h
  refine .segment .quoted (value ++ [c]) rfl ?_ fun more _ => ?_
  · rw [Zone.after_cons, hstep, hafter, ← List.cons_append, List.getLast?_concat]
  · rw [List.append_assoc]
    exact munch_quoted hquote hvalue

theorem settles_array (hopen : (c == '[' && !previous.any isWordChar) = true)
    (h : ((Zone.code previous).after (c :: rest)).isCode = true) : Settles previous c rest := by
  obtain rfl : c = '[' := by
    simp only [Bool.and_eq_true, beq_iff_eq] at hopen
    exact hopen.1
  have hquote : ¬ isQuote '[' = true := by decide
  have hstep : (Zone.code previous).step '[' = .array none 0 := by
    rw [Zone.step, if_neg hquote, if_neg (by decide), if_pos hopen]
  rw [Zone.after_cons, hstep] at h
  obtain ⟨tail, remaining, hsplit, hlast, hafter, htail⟩ := exists_arrayTail_of_isCode h
  refine .segment .array tail hsplit ?_ fun more _ => ?_
  · rw [Zone.after_cons, hstep, hafter, List.getLast?_cons, hlast]
    rfl
  · rw [munch, if_neg hquote, if_pos hopen, htail more]

/-- A sign is one character or two, or no sign at all. -/
theorem settles_sign (hquote : ¬ isQuote c = true)
    (hopen : ¬ (c == '[' && !previous.any isWordChar) = true) (hword : ¬ isWordChar c = true)
    (h : ((Zone.code previous).after (c :: rest)).isCode = true) : Settles previous c rest := by
  have hstep : (Zone.code previous).step c = .code (some c) := by
    rw [Zone.step, if_neg hquote, if_neg, if_neg hopen]
    intro hcomment
    rw [Zone.after_cons, Zone.step, if_neg hquote, if_pos hcomment, Zone.after_comment] at h
    cases h
  by_cases hdouble : (c = '=' ∨ c = '!') ∧ rest.head? = some '='
  · obtain ⟨hc, hhead⟩ := hdouble
    obtain ⟨remaining, rfl⟩ := List.head?_eq_some_iff.mp hhead
    refine .segment .mark ['='] rfl ?_ fun more _ => munch_double hc
    rw [Zone.after_cons, hstep]
    rfl
  -- The second character would have to come after a blank.
  have hsingle {more : List Char} (hmore : Begins isBlank more) :
      ¬ ((c == '=' || c == '!') && (rest ++ more).head? == some '=') = true := by
    simp only [Bool.and_eq_true, Bool.or_eq_true, beq_iff_eq]
    rintro ⟨hc, hhead⟩
    cases rest with
    | nil => exact absurd rfl (ne_of_isBlank (hmore '=' hhead) (by decide))
    | cons d rest => exact hdouble ⟨hc, hhead⟩
  by_cases hmark : isMark c = true
  · refine .segment .mark [] rfl (by rw [Zone.after_cons, hstep]; rfl) fun more hmore => ?_
    rw [munch, if_neg hquote, if_neg hopen, if_neg hword, if_neg (hsingle hmore), if_pos hmark]
  · refine .defect (.unexpectedCharacter c) fun more hmore => ?_
    rw [munch, if_neg hquote, if_neg hopen, if_neg hword, if_neg (hsingle hmore), if_neg hmark]

/-- What ends in the code is settled there. -/
theorem settles (h : ((Zone.code previous).after (c :: rest)).isCode = true) :
    Settles previous c rest := by
  by_cases hquote : isQuote c = true
  · exact settles_quoted hquote h
  by_cases hopen : (c == '[' && !previous.any isWordChar) = true
  · exact settles_array hopen h
  by_cases hword : isWordChar c = true
  · exact settles_word hword
  · exact settles_sign hquote hopen hword h

variable {more : List Char}

/-- A segment that leaves the code after it stays what it is. -/
theorem munch_append_of_ok {shape : Shape} {tail remaining : List Char}
    (h : ((Zone.code previous).after (c :: rest)).isCode = true)
    (hmunch : munch previous c rest = .ok (shape, tail, remaining)) (hmore : Begins isBlank more) :
    munch previous c (rest ++ more) = .ok (shape, tail, remaining ++ more) ∧
      (Zone.code previous).after (c :: rest) =
        (Zone.code (c :: tail).getLast?).after remaining := by
  have hnil : Begins isBlank [] := fun _ hd => by cases hd
  rcases settles h with ⟨shape', tail', -, hafter, hmunch'⟩ | ⟨defect, hmunch'⟩
  · have hboth := hmunch' [] hnil
    rw [List.append_nil, List.append_nil, hmunch] at hboth
    cases hboth
    exact ⟨hmunch' more hmore, hafter⟩
  · have hboth := hmunch' [] hnil
    rw [List.append_nil, hmunch] at hboth
    cases hboth

/-- So does a defect. -/
theorem munch_append_of_error {defect : Defect}
    (h : ((Zone.code previous).after (c :: rest)).isCode = true)
    (hmunch : munch previous c rest = .error defect) (hmore : Begins isBlank more) :
    munch previous c (rest ++ more) = .error defect := by
  have hnil : Begins isBlank [] := fun _ hd => by cases hd
  rcases settles h with ⟨shape', tail', -, -, hmunch'⟩ | ⟨defect', hmunch'⟩
  · have hboth := hmunch' [] hnil
    rw [List.append_nil, hmunch] at hboth
    cases hboth
  · have hboth := hmunch' [] hnil
    rw [List.append_nil, hmunch] at hboth
    cases hboth
    exact hmunch' more hmore

/-! ### Places in the code -/

/-- A list literal without a comment in it is left at its last bracket. -/
theorem after_of_arrayTail? {quote : Quote} {depth : Nat} {text tail remaining : List Char}
    (h : arrayTail? quote depth text = some (tail, remaining))
    (hcomment : '#' ∉ Quote.bare quote tail) :
    (Zone.array quote depth).after tail = Zone.code tail.getLast? := by
  induction text generalizing quote depth tail with
  | nil => cases h
  | cons c text ih =>
    rw [arrayTail?] at h
    split at h
    next hclose =>
      obtain ⟨rfl, rfl⟩ := Prod.mk.inj (Option.some.inj h)
      obtain rfl := eq_of_closes hclose
      rw [Zone.after_cons, Zone.step, if_neg (by simp), if_pos hclose]
      rfl
    next hopen =>
      obtain ⟨⟨inner, after⟩, hinner, hpair⟩ := Option.map_eq_some_iff.mp h
      obtain ⟨rfl, rfl⟩ := Prod.mk.inj hpair
      have hsign : ¬ (quote.isOutside && c == '#') = true := by
        intro hsign
        simp only [Bool.and_eq_true, beq_iff_eq] at hsign
        rw [Quote.bare, if_pos hsign.1, hsign.2] at hcomment
        exact hcomment List.mem_cons_self
      have hrest : '#' ∉ Quote.bare (quote.step c) inner := by
        rw [Quote.bare] at hcomment
        split at hcomment
        · exact fun hmem => hcomment (List.mem_cons_of_mem c hmem)
        · exact hcomment
      obtain ⟨d, others, rfl⟩ := List.exists_cons_of_ne_nil (ne_nil_of_arrayTail? hinner)
      rw [Zone.after_cons, Zone.step, if_neg hsign, if_neg hopen, List.getLast?_cons_cons]
      exact ih hinner hrest

/-- A quotation is left at its last quote. -/
theorem after_quotation {quote : Char} {value : List Char} (h : quote ∉ value) :
    (Zone.quotation quote).after (value ++ [quote]) = Zone.code (some quote) := by
  induction value with
  | nil => rw [List.nil_append, Zone.after_cons, Zone.step, if_pos rfl, Zone.after_nil]
  | cons c value ih =>
    obtain ⟨hne, hvalue⟩ := List.ne_and_not_mem_of_not_mem_cons h
    rw [List.cons_append, Zone.after_cons, Zone.step, if_neg (Ne.symm hne), ih hvalue]

/-- A bracket opens a list literal unless it follows a word character. -/
theorem shape_of_bracket {shape : Shape} {tail remaining : List Char}
    (h : munch previous '[' rest = .ok (shape, tail, remaining)) :
    shape = .array ∧ previous.any isWordChar = false ∨
      shape = .mark ∧ previous.any isWordChar = true := by
  cases hprevious : previous.any isWordChar with
  | true =>
    have hmark : munch previous '[' ([] ++ rest) = .ok (.mark, [], rest) :=
      munch_mark (by decide) (fun _ => hprevious) nofun
    rw [List.nil_append, h] at hmark
    cases hmark
    exact .inr ⟨rfl, rfl⟩
  | false =>
    rw [munch, if_neg (by decide), if_pos (by simp [hprevious])] at h
    split at h
    · cases h
    · cases h
      exact .inl ⟨rfl, rfl⟩

/-- A sign opens nothing, unless it is a bracket that does. -/
theorem after_mark (hmark : isMark c = true)
    (hbracket : c = '[' → previous.any isWordChar = true) :
    (Zone.code previous).step c = Zone.code (some c) := by
  have hall : (!isQuote c && c != '#') = true :=
    forall_isMark (p := fun c => !isQuote c && c != '#') (by decide) hmark
  simp only [Bool.and_eq_true, Bool.not_eq_true', bne_iff_ne] at hall
  have hopen : ¬ (c == '[' && !previous.any isWordChar) = true := by
    simpa using hbracket
  rw [Zone.step, if_neg (by simp [hall.1]), if_neg (by simp [hall.2]), if_neg hopen]

/-- What is cut off without a comment leads from the code to the code. -/
theorem after_of_munch {shape : Shape} {tail remaining : List Char}
    (h : munch previous c rest = .ok (shape, tail, remaining))
    (hcomment : '#' ∉ Quote.bare none (c :: tail)) :
    (Zone.code previous).after (c :: tail) = Zone.code (c :: tail).getLast? := by
  have hformed := (formed_of_munch h).1
  cases hformed with
  | word hword =>
    obtain ⟨d, tail', heq, hd, htail⟩ := hword
    rw [heq]
    exact after_word hd htail previous
  | quoted hquote hvalue =>
    rw [Zone.after_cons, Zone.step, if_pos hquote, after_quotation hvalue, ← List.cons_append,
      List.getLast?_concat]
  | array =>
    obtain ⟨-, htail⟩ := array_of_munch h
    rcases shape_of_bracket h with ⟨-, hprevious⟩ | ⟨hshape, -⟩
    · rw [Zone.after_cons, Zone.step, if_neg (by decide), if_neg (by decide),
        if_pos (by simp [hprevious]), after_of_arrayTail? htail ?_, List.getLast?_cons_cons]
      exact fun hmem => hcomment (List.mem_cons_of_mem '[' hmem)
    · cases hshape
  | mark hmark =>
    refine after_mark hmark ?_
    rintro rfl
    rcases shape_of_bracket h with ⟨hshape, -⟩ | ⟨-, hprevious⟩
    · cases hshape
    · exact hprevious
  | double hc => rcases hc with rfl | rfl <;> rfl

/-- Cutting the code of a line only comes to stand in the code. -/
theorem Reached.after_eq {line passed : List Char} (h : Reached (codeOf line) passed rest) :
    (Zone.code none).after passed = Zone.code passed.getLast? := by
  have hclear := (Quote.beforeComment_cases none line).1
  rw [← codeOf] at hclear
  generalize hcode : codeOf line = code at h hclear
  induction h with
  | start => rfl
  | blank _ hblank ih =>
    rw [Zone.after_append, ih, Zone.after_cons, Zone.step_of_isBlank hblank, List.getLast?_concat]
    rfl
  | @segment passed rest tail remaining c shape hreached hblank hmunch ih =>
    have hsegment : '#' ∉ Quote.bare none (c :: tail) := by
      intro hmem
      refine hclear ?_
      rw [← (IsCut.intro hreached hblank hmunch).append_eq, Quote.bare_append, hreached.outside,
        Quote.bare_append]
      exact List.mem_append_right _ (List.mem_append_left _ hmem)
    rw [Zone.after_append, ih, after_of_munch hmunch hsegment, List.getLast?_append_cons]

end Segment

end LineScript
