import LineScript.Line.Quote

/-!
# Texts without stops outside quotations

Comments, list literals and the items of a list are cut at certain characters outside quotations. A
text that has none of them there, and that closes its quotations, is never cut: whatever follows it
is cut as if it stood alone.
-/

namespace LineScript

/-- No character with the property `stop` is outside quotations, and all quotations are closed. -/
def clear (stop : Char → Bool) (quote : Quote) : List Char → Bool
  | [] => quote.isOutside
  | c :: rest => !(quote.isOutside && stop c) && clear stop (quote.step c) rest

variable {stop : Char → Bool} {quote : Quote} {left right : List Char}

theorem clear_append (hleft : clear stop quote left = true)
    (hright : clear stop none right = true) : clear stop quote (left ++ right) = true := by
  induction left generalizing quote with
  | nil =>
    cases quote with
    | none => exact hright
    | some q => cases hleft
  | cons c left ih =>
    simp only [clear, Bool.and_eq_true] at hleft
    simp only [List.cons_append, clear, Bool.and_eq_true]
    exact ⟨hleft.1, ih hleft.2⟩

/-- A text without quotes and stops is clear. -/
theorem clear_of_forall {text : List Char}
    (h : ∀ c ∈ text, isQuote c = false ∧ stop c = false) : clear stop none text = true := by
  induction text with
  | nil => rfl
  | cons c text ih =>
    obtain ⟨hquote, hstop⟩ := h c List.mem_cons_self
    have hrest := ih fun d hd => h d (List.mem_cons_of_mem c hd)
    simpa [clear, Quote.isOutside, Quote.step, hquote, hstop] using hrest

/-- A quotation is clear, whatever it holds. -/
theorem clear_quotation {q : Char} {value : List Char} (hquote : isQuote q = true)
    (hstop : stop q = false) (hvalue : q ∉ value) :
    clear stop none (q :: (value ++ [q])) = true := by
  have hinside : clear stop (some q) (value ++ [q]) = true := by
    clear hstop
    induction value with
    | nil => simp [clear, Quote.isOutside, Quote.step]
    | cons c value ih =>
      have hne : c ≠ q := fun heq => hvalue (by simp [heq])
      have hrest := ih fun hmem => hvalue (List.mem_cons_of_mem c hmem)
      simpa [clear, Quote.isOutside, Quote.step, hne] using hrest
  simpa [clear, Quote.isOutside, Quote.step, hquote, hstop] using hinside

theorem clear_intercalate {separator : List Char} {items : List (List Char)}
    (hseparator : clear stop none separator = true)
    (hitems : ∀ item ∈ items, clear stop none item = true) :
    clear stop none (separator.intercalate items) = true := by
  match items with
  | [] => rfl
  | [item] => simpa [List.intercalate] using hitems item (by simp)
  | first :: second :: rest =>
    have htail : clear stop none (separator.intercalate (second :: rest)) = true :=
      clear_intercalate hseparator fun item hmem => hitems item (List.mem_cons_of_mem first hmem)
    have heq : separator.intercalate (first :: second :: rest) =
        first ++ (separator ++ separator.intercalate (second :: rest)) := by
      simp [List.intercalate]
    rw [heq]
    exact clear_append (hitems first (by simp)) (clear_append hseparator htail)

/-! ### Cutting after a clear text -/

/-- No comment starts in a text that is clear of comment signs. -/
theorem beforeComment_append_of_clear {rest : List Char}
    (h : clear (· == '#') quote left = true) :
    beforeComment quote (left ++ rest) = left ++ beforeComment none rest := by
  induction left generalizing quote with
  | nil =>
    cases quote with
    | none => rfl
    | some q => cases h
  | cons c left ih =>
    simp only [clear, Bool.and_eq_true, Bool.not_eq_true'] at h
    rw [List.cons_append, beforeComment, h.1, if_neg Bool.false_ne_true, ih h.2, List.cons_append]

/-- A text that is clear of brackets is passed over until the closing one. -/
theorem arrayTail?_of_clear {rest : List Char}
    (h : clear (fun c => c == '[' || c == ']') quote left = true) :
    arrayTail? quote 0 (left ++ ']' :: rest) = some (left ++ [']'], rest) := by
  induction left generalizing quote with
  | nil =>
    cases quote with
    | none => rfl
    | some q => cases h
  | cons c left ih =>
    simp only [clear, Bool.and_eq_true, Bool.not_eq_true', Bool.and_eq_false_iff,
      Bool.or_eq_false_iff] at h
    rw [List.cons_append, arrayTail?]
    have hclose : ¬ (quote.isOutside && c == ']' && (0 == 0)) = true := by
      rcases h.1 with houtside | ⟨-, hbracket⟩
      · simp [houtside]
      · simp [hbracket]
    have hdepth : (if (quote.isOutside && c == '[') = true then 0 + 1
        else if (quote.isOutside && c == ']') = true then 0 - 1 else 0) = 0 := by
      rcases h.1 with houtside | ⟨hopen, -⟩
      · simp [houtside]
      · simp [hopen]
    rw [if_neg hclose]
    dsimp only
    rw [hdepth, ih h.2]
    rfl

/-- A text that is clear of commas stays with the item it is part of. -/
theorem cutItems_append_of_clear {rest : List Char} (h : clear (· == ',') quote left = true) :
    cutItems quote (left ++ rest) = (left ++ (cutItems none rest).1, (cutItems none rest).2) := by
  induction left generalizing quote with
  | nil =>
    cases quote with
    | none => rfl
    | some q => cases h
  | cons c left ih =>
    simp only [clear, Bool.and_eq_true, Bool.not_eq_true'] at h
    rw [List.cons_append, cutItems, ih h.2]
    dsimp only
    rw [h.1, if_neg Bool.false_ne_true, List.cons_append]

/-- Items with a comma and a blank between them are cut apart, each with the blank before it. -/
theorem cutItems_intercalate {item : List Char} {items : List (List Char)}
    (h : ∀ piece ∈ item :: items, clear (· == ',') none piece = true) :
    cutItems none ([',', ' '].intercalate (item :: items)) = (item, items.map (' ' :: ·)) := by
  induction items generalizing item with
  | nil =>
    have hitem : cutItems none (item ++ []) = (item ++ [], []) :=
      cutItems_append_of_clear (h item (by simp))
    simpa [List.intercalate] using hitem
  | cons next items ih =>
    have heq : [',', ' '].intercalate (item :: next :: items) =
        item ++ ',' :: ' ' :: [',', ' '].intercalate (next :: items) := by
      simp [List.intercalate]
    have hcomma (text : List Char) : cutItems none (',' :: ' ' :: text) =
        ([], (' ' :: (cutItems none text).1) :: (cutItems none text).2) := rfl
    rw [heq, cutItems_append_of_clear (h item (by simp)), hcomma,
      ih fun piece hmem => h piece (List.mem_cons_of_mem item hmem)]
    simp

end LineScript
