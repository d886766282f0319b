import LineScript.Proofs.Line.Places

/-!
# Quotations and the scans that pass over them

The automaton `Quote.step` passes a text in stretches inside quotations (`Quote.IsStretch`), with
characters outside between them (`Quote.bare`). Stretches are quotations (`Quote.isStretch_iff`),
and they are the same for a scan that starts afresh at a place outside
(`Quote.isStretch_append_iff`). Comments, list literals and items are cut at characters outside
(`Quote.beforeComment_cases`, `Quote.arrayTail?_eq_some_iff`, `Quote.itemized_itemsOf`).
-/

namespace LineScript

open Text

namespace Quote

/-! ### Stretches -/

/-- A slice of a text, which comes after `before`, is a stretch that the automaton passes inside
quotations, with its two quotes: it is outside before and after the slice, and inside between. -/
structure IsStretch (before stretch : List Char) : Prop where
  /-- There are two quotes. -/
  long : 2 ≤ stretch.length
  /-- It is outside before the first of them. -/
  opens : after none before = none
  /-- It is inside at all places between. -/
  inside : ∀ left right, left ≠ [] → right ≠ [] → left ++ right = stretch →
    after none (before ++ left) ≠ none
  /-- It is outside after the last. -/
  closes : after none (before ++ stretch) = none

theorem isBlank_of_isQuote {c : Char} (h : isQuote c = true) : isBlank c = false := by
  simp only [isQuote, Bool.or_eq_true, beq_iff_eq] at h
  rcases h with rfl | rfl <;> decide

/-- A quotation goes on until its quote comes. -/
theorem after_of_not_mem {quote : Char} {text : List Char} (h : quote ∉ text) :
    after (some quote) text = some quote := by
  induction text with
  | nil => rfl
  | cons c text ih =>
    obtain ⟨hne, hrest⟩ := List.ne_and_not_mem_of_not_mem_cons h
    rw [after_cons, step, if_neg (Ne.symm hne)]
    exact ih hrest

/-- A text without quotes changes nothing outside quotations. -/
theorem after_of_forall {text : List Char} (h : ∀ c ∈ text, isQuote c = false) :
    after none text = none := by
  induction text with
  | nil => rfl
  | cons c text ih =>
    obtain ⟨hc, htext⟩ := List.forall_mem_cons.mp h
    rw [after_cons, step, hc, if_neg Bool.false_ne_true]
    exact ih htext

/-- Reading from a place outside quotations is reading afresh. -/
theorem after_append_of_outside {before : List Char} (h : after none before = none)
    (text : List Char) : after none (before ++ text) = after none text := by
  rw [after_append, h]

/-- A quotation with its quotes is read from outside to outside. -/
theorem after_quotation {quote : Char} {value : List Char} (hquote : isQuote quote = true)
    (hvalue : quote ∉ value) : after none (quote :: (value ++ [quote])) = none := by
  rw [after_cons, step, if_pos hquote, after_append, after_of_not_mem hvalue]
  simp [step]

/-- Stretches are quotations: a quote, characters other than it, and the quote again. -/
theorem isStretch_iff {before stretch : List Char} :
    IsStretch before stretch ↔ after none before = none ∧
      ∃ quote value, isQuote quote = true ∧ quote ∉ value ∧
        stretch = quote :: (value ++ [quote]) := by
  constructor
  · rintro ⟨hlong, hopens, hinside, hcloses⟩
    refine ⟨hopens, ?_⟩
    simp only [after_append_of_outside hopens] at hinside hcloses
    obtain ⟨quote, rest, rfl⟩ := List.exists_cons_of_length_pos (by omega : 0 < stretch.length)
    obtain ⟨value, last, rfl⟩ : ∃ value last, rest = value ++ [last] :=
      (List.eq_nil_or_concat' rest).resolve_left fun hnil => by simp [hnil] at hlong
    -- The first character opens a quotation, since the automaton is inside after it.
    have hquote : isQuote quote = true := by
      by_contra hnot
      have hopen := hinside [quote] (value ++ [last]) (by simp) (by simp) rfl
      simp [step, hnot] at hopen
    have hstep : step none quote = some quote := if_pos hquote
    -- If the quote came up before the end, the automaton would be outside after it.
    have hvalue : quote ∉ value := by
      intro hmem
      obtain ⟨left, right, rfl, hleft⟩ := List.eq_append_cons_of_mem hmem
      refine hinside (quote :: (left ++ [quote])) (right ++ [last]) (by simp) (by simp) (by simp) ?_
      exact after_quotation hquote hleft
    refine ⟨quote, value, hquote, hvalue, ?_⟩
    rw [after_cons, hstep, after_append, after_of_not_mem hvalue] at hcloses
    by_contra hne
    have hlast : last ≠ quote := fun heq => hne (by rw [heq])
    simp [step, hlast] at hcloses
  · rintro ⟨hopens, quote, value, hquote, hvalue, rfl⟩
    refine ⟨by simp, hopens, fun left right hleft hright heq => ?_, ?_⟩
    · rw [after_append_of_outside hopens]
      obtain ⟨c, left, rfl⟩ := List.exists_cons_of_ne_nil hleft
      rw [List.cons_append, List.cons.injEq] at heq
      obtain ⟨rfl, heq⟩ := heq
      obtain ⟨more, rfl⟩ : ∃ more, value = left ++ more := by
        obtain ⟨right, last, rfl⟩ := (List.eq_nil_or_concat' right).resolve_left hright
        rw [← List.append_assoc] at heq
        exact ⟨right, (List.append_inj' heq rfl).1.symm⟩
      rw [after_cons, step, if_pos hquote,
        after_of_not_mem fun hmem => hvalue (List.mem_append_left more hmem)]
      exact Option.some_ne_none c
    · rw [after_append_of_outside hopens]
      exact after_quotation hquote hvalue

/-- A scan that starts afresh outside quotations passes the same stretches. -/
theorem isStretch_append_iff {passed : List Char} (h : after none passed = none)
    {before stretch : List Char} :
    IsStretch (passed ++ before) stretch ↔ IsStretch before stretch := by
  rw [isStretch_iff, isStretch_iff, after_append_of_outside h]

/-- A stretch does not go over a place outside quotations. -/
theorem IsStretch.cases_of_outside {passed rest before stretch right : List Char}
    (h : IsStretch before stretch) (hpassed : after none passed = none)
    (heq : passed ++ rest = before ++ (stretch ++ right)) :
    (∃ more, passed = before ++ (stretch ++ more)) ∨
      ∃ left, before = passed ++ left ∧ rest = left ++ (stretch ++ right) := by
  rcases List.append_eq_append_iff.mp heq with ⟨left, rfl, hrest⟩ | ⟨more, rfl, hmore⟩
  · exact .inr ⟨left, rfl, hrest⟩
  rcases List.append_eq_append_iff.mp hmore with ⟨tail, rfl, -⟩ | ⟨tail, rfl, htail⟩
  · exact .inl ⟨tail, rfl⟩
  · -- The place is in the stretch, so it is one of its ends.
    by_cases hnil : more = []
    · exact .inr ⟨[], by simp [hnil], by simpa [hnil] using htail⟩
    by_cases hend : tail = []
    · exact .inl ⟨[], by simp [hend]⟩
    · exact absurd hpassed (h.inside more tail hnil hend rfl)

/-! ### Characters outside quotations -/

/-- The characters of a text that stand outside quotations. -/
def bare (quote : Quote) : List Char → List Char
  | [] => []
  | c :: rest =>
    if quote.isOutside then c :: bare (quote.step c) rest else bare (quote.step c) rest

example : bare none "a '[' # b".toList = "a ' # b".toList := by decide

theorem bare_append (quote : Quote) (left right : List Char) :
    bare quote (left ++ right) = bare quote left ++ bare (quote.after left) right := by
  induction left generalizing quote with
  | nil => rfl
  | cons c left ih =>
    rw [List.cons_append, bare, bare, ih, after_cons]
    split <;> rfl

/-- Of a quotation only the quote that opens it stands outside. -/
theorem bare_quotation {quote : Char} {value : List Char} (hquote : isQuote quote = true)
    (hvalue : quote ∉ value) : bare none (quote :: (value ++ [quote])) = [quote] := by
  have hinside : bare (some quote) value = [] := by
    induction value with
    | nil => rfl
    | cons c value ih =>
      obtain ⟨hne, hrest⟩ := List.ne_and_not_mem_of_not_mem_cons hvalue
      rw [bare, isOutside, if_neg Bool.false_ne_true, step, if_neg (Ne.symm hne)]
      exact ih hrest
  rw [bare, isOutside, if_pos rfl, step, if_pos hquote, bare_append, hinside,
    after_of_not_mem hvalue]
  rfl

/-- What is inside a quotation does not count as outside. -/
theorem IsStretch.bare_append {before stretch : List Char} (h : IsStretch before stretch)
    (rest : List Char) : bare none (before ++ (stretch ++ rest)) =
      bare none before ++ (stretch.take 1 ++ bare none rest) := by
  obtain ⟨hopens, quote, value, hquote, hvalue, rfl⟩ := isStretch_iff.mp h
  rw [Quote.bare_append, hopens, Quote.bare_append, bare_quotation hquote hvalue,
    after_quotation hquote hvalue]
  rfl

/-- A stretch of a text in which another one lies is that one. -/
theorem IsStretch.eq_nil_of_append {passed before stretch rest : List Char}
    (h : IsStretch passed (before ++ (stretch ++ rest)))
    (hstretch : IsStretch (passed ++ before) stretch) : before = [] ∧ rest = [] := by
  have hne : stretch ≠ [] := List.ne_nil_of_length_pos (Nat.lt_of_lt_of_le two_pos hstretch.long)
  constructor
  · by_contra hbefore
    exact h.inside before (stretch ++ rest) hbefore (by simp [hne]) rfl hstretch.opens
  · by_contra hrest
    refine h.inside (before ++ stretch) rest (by simp [hne]) hrest (by simp) ?_
    rw [← List.append_assoc]
    exact hstretch.closes

/-! ### Comments -/

/-- What is kept of a line has no comment sign outside quotations, and a comment that is left out
starts with one. -/
theorem beforeComment_cases (quote : Quote) (line : List Char) :
    '#' ∉ bare quote (beforeComment quote line) ∧ (beforeComment quote line = line ∨
      ∃ comment, line = beforeComment quote line ++ '#' :: comment ∧
        quote.after (beforeComment quote line) = none) := by
  induction line generalizing quote with
  | nil => exact ⟨List.not_mem_nil, .inl rfl⟩
  | cons c rest ih =>
    rw [beforeComment]
    split
    next hcomment =>
      simp only [Bool.and_eq_true, beq_iff_eq] at hcomment
      obtain ⟨houtside, rfl⟩ := hcomment
      refine ⟨List.not_mem_nil, .inr ⟨rest, rfl, ?_⟩⟩
      cases quote with
      | none => rfl
      | some quote => cases houtside
    next hcode =>
      obtain ⟨hclear, hline⟩ := ih (quote.step c)
      refine ⟨?_, hline.imp (congrArg (c :: ·)) ?_⟩
      · rw [bare]
        split
        next houtside =>
          have hne : c ≠ '#' := by simpa [houtside] using hcode
          simpa [Ne.symm hne] using hclear
        next => exact hclear
      · rintro ⟨comment, hcomment, hafter⟩
        exact ⟨comment, congrArg (c :: ·) hcomment, hafter⟩

/-! ### List literals -/

/-- A text ends with the bracket that closes one more than the `depth` brackets that were opened
before it, and no earlier. Brackets in quotations do not count. -/
structure Closes (quote : Quote) (depth : Nat) (text : List Char) : Prop where
  /-- The last bracket closes. -/
  closed : (bare quote text).count ']' = (bare quote text).count '[' + depth + 1
  /-- None does before. -/
  unclosed : ∀ before rest, rest ≠ [] → before ++ rest = text →
    (bare quote before).count ']' ≤ (bare quote before).count '[' + depth

/-- How many brackets are open after a character, if `depth` of them were before. -/
def depthAfter (quote : Quote) (depth : Nat) (c : Char) : Nat :=
  if quote.isOutside && c == '[' then depth + 1
  else if quote.isOutside && c == ']' then depth - 1
  else depth

/-- A bracket outside quotations counts as what it does to the brackets that are open. -/
theorem count_bare_cons {quote : Quote} {depth : Nat} {c : Char}
    (hopen : (quote.isOutside && c == ']' && depth == 0) = false) (text : List Char) :
    (bare quote (c :: text)).count ']' + (bare (quote.step c) text).count '[' +
        depthAfter quote depth c =
      (bare (quote.step c) text).count ']' + (bare quote (c :: text)).count '[' + depth := by
  rw [bare, depthAfter]
  cases hquote : quote.isOutside with
  | false =>
    simp only [Bool.false_and, Bool.false_eq_true, if_false]
  | true =>
    simp only [Bool.true_and, if_true, List.count_cons]
    by_cases hleft : c = '['
    · subst hleft
      simp
      omega
    by_cases hright : c = ']'
    · subst hright
      have hdepth : depth ≠ 0 := by simpa [hquote] using hopen
      simp
      omega
    · simp [hleft, hright]

/-- Any character but the bracket that closes only changes how many brackets are open. -/
theorem closes_cons_iff {quote : Quote} {depth : Nat} {c : Char} {text : List Char}
    (hopen : (quote.isOutside && c == ']' && depth == 0) = false) :
    Closes quote depth (c :: text) ↔ Closes (quote.step c) (depthAfter quote depth c) text := by
  have hcount := count_bare_cons hopen
  constructor
  · rintro ⟨hclosed, hunclosed⟩
    refine ⟨?_, fun before rest hrest heq => ?_⟩
    · have htext := hcount text
      omega
    · have hbefore := hcount before
      have hle := hunclosed (c :: before) rest hrest (by rw [List.cons_append, heq])
      omega
  · rintro ⟨hclosed, hunclosed⟩
    refine ⟨?_, fun before rest hrest heq => ?_⟩
    · have htext := hcount text
      omega
    · cases before with
      | nil => simp [bare]
      | cons d before =>
        rw [List.cons_append, List.cons.injEq] at heq
        obtain ⟨rfl, heq⟩ := heq
        have hbefore := hcount before
        have hle := hunclosed before rest hrest heq
        omega

/-- The bracket that closes is the last character. -/
theorem closes_bracket_iff {quote : Quote} (houtside : quote.isOutside = true) {text : List Char} :
    Closes quote 0 (']' :: text) ↔ text = [] := by
  constructor
  · rintro ⟨-, hunclosed⟩
    by_contra hne
    have hle := hunclosed [']'] text hne rfl
    simp [bare, houtside] at hle
  · rintro rfl
    refine ⟨by simp [bare, houtside], fun before rest hrest heq => ?_⟩
    rcases List.append_eq_singleton_iff.mp heq with ⟨rfl, -⟩ | ⟨-, hnil⟩
    · simp [bare]
    · exact absurd hnil hrest

theorem not_closes_nil {quote : Quote} {depth : Nat} : ¬ Closes quote depth [] := by
  rintro ⟨hclosed, -⟩
  simp [bare] at hclosed

/-- What is cut off as the rest of a list literal is what closes it. -/
theorem arrayTail?_eq_some_iff {quote : Quote} {depth : Nat} {text tail remaining : List Char} :
    arrayTail? quote depth text = some (tail, remaining) ↔
      Closes quote depth tail ∧ tail ++ remaining = text := by
  -- Along the text: its first character is the one that closes, or the first of what does.
  induction text generalizing quote depth tail with
  | nil =>
    refine iff_of_false (by simp [arrayTail?]) ?_
    rintro ⟨hcloses, hnil⟩
    rw [(List.append_eq_nil_iff.mp hnil).1] at hcloses
    exact not_closes_nil hcloses
  | cons c rest ih =>
    rw [arrayTail?]
    split
    next hclose =>
      simp only [Bool.and_eq_true, beq_iff_eq] at hclose
      obtain ⟨⟨houtside, rfl⟩, rfl⟩ := hclose
      constructor
      · rintro ⟨⟩
        exact ⟨(closes_bracket_iff houtside).mpr rfl, rfl⟩
      · rintro ⟨hcloses, heq⟩
        cases tail with
        | nil => exact absurd hcloses not_closes_nil
        | cons d tail =>
          rw [List.cons_append, List.cons.injEq] at heq
          obtain ⟨rfl, rfl⟩ := heq
          rw [(closes_bracket_iff houtside).mp hcloses, List.nil_append]
    next hopen =>
      have hcons (tail : List Char) : Closes quote depth (c :: tail) ↔ _ :=
        closes_cons_iff (by simpa using hopen)
      constructor
      · intro h
        obtain ⟨⟨inner, after⟩, hinner, hpair⟩ := Option.map_eq_some_iff.mp h
        obtain ⟨rfl, rfl⟩ := Prod.mk.inj hpair
        obtain ⟨hcloses, rfl⟩ := ih.mp hinner
        exact ⟨(hcons inner).mpr hcloses, rfl⟩
      · rintro ⟨hcloses, heq⟩
        cases tail with
        | nil => exact absurd hcloses not_closes_nil
        | cons d tail =>
          rw [List.cons_append, List.cons.injEq] at heq
          obtain ⟨rfl, heq⟩ := heq
          refine Option.map_eq_some_iff.mpr ⟨(tail, remaining), ?_, rfl⟩
          exact ih.mpr ⟨(hcons tail).mp hcloses, heq⟩

/-- The bracket that closes stands outside quotations. -/
theorem Closes.exists_content {quote : Quote} {depth : Nat} {text : List Char}
    (h : Closes quote depth text) : ∃ content, text = content ++ [']'] ∧
      quote.after content = none := by
  obtain ⟨content, last, rfl⟩ : ∃ content last, text = content ++ [last] :=
    (List.eq_nil_or_concat' text).resolve_left fun hnil => not_closes_nil (hnil ▸ h)
  have hle := h.unclosed content [last] (by simp) rfl
  have hclosed := h.closed
  rw [bare_append] at hclosed
  -- Only a closing bracket outside quotations makes the difference.
  cases hquote : quote.after content with
  | some q => simp [hquote, bare, isOutside] at hclosed; omega
  | none =>
    refine ⟨content, ?_, hquote⟩
    by_contra hne
    have hlast : last ≠ ']' := fun heq => hne (by rw [heq])
    simp [hquote, bare, isOutside, List.count_cons, hlast] at hclosed
    omega

/-- A text is one list literal with its brackets: those outside quotations are balanced at its end,
and at no place before. -/
structure IsBracketed (text : List Char) : Prop where
  /-- The first bracket is closed at the end. -/
  balanced : (bare none text).count ']' = (bare none text).count '['
  /-- It is open until then. -/
  unbalanced : ∀ before rest, before ≠ [] → rest ≠ [] → before ++ rest = text →
    (bare none before).count ']' < (bare none before).count '['

/-- A list literal is an opening bracket and what closes it. -/
theorem isBracketed_cons_iff {tail : List Char} :
    IsBracketed ('[' :: tail) ↔ Closes none 0 tail := by
  have hbare (text : List Char) : bare none ('[' :: text) = '[' :: bare none text := rfl
  have hleft (text : List Char) : (bare none ('[' :: text)).count '[' =
      (bare none text).count '[' + 1 := by
    rw [hbare, List.count_cons_self]
  have hright (text : List Char) : (bare none ('[' :: text)).count ']' =
      (bare none text).count ']' := by
    rw [hbare, List.count_cons_of_ne (by decide)]
  constructor
  · rintro ⟨hbalanced, hunbalanced⟩
    refine ⟨by rw [← hright, hbalanced, hleft], fun before rest hrest heq => ?_⟩
    have hlt := hunbalanced ('[' :: before) rest (by simp) hrest (by rw [List.cons_append, heq])
    rw [hleft, hright] at hlt
    omega
  · rintro ⟨hclosed, hunclosed⟩
    refine ⟨by rw [hleft, hright, hclosed], fun before rest hbefore hrest heq => ?_⟩
    obtain ⟨c, before, rfl⟩ := List.exists_cons_of_ne_nil hbefore
    rw [List.cons_append, List.cons.injEq] at heq
    obtain ⟨rfl, heq⟩ := heq
    have hle := hunclosed before rest hrest heq
    rw [hleft, hright]
    omega

/-! ### Items -/

/-- A text is cut into items at its commas outside quotations, and nowhere else. -/
inductive Itemized : Quote → List Char → List (List Char) → Prop
  | last {quote : Quote} {item : List Char} : ',' ∉ bare quote item → Itemized quote item [item]
  | more {quote : Quote} {item rest : List Char} {items : List (List Char)} :
      ',' ∉ bare quote item → quote.after item = none → Itemized none rest items →
      Itemized quote (item ++ ',' :: rest) (item :: items)

theorem itemized_cutItems (quote : Quote) (text : List Char) :
    Itemized quote text ((cutItems quote text).1 :: (cutItems quote text).2) := by
  induction text generalizing quote with
  | nil => exact .last List.not_mem_nil
  | cons c rest ih =>
    rw [cutItems]
    dsimp only
    have hrest := ih (quote.step c)
    split
    next hcomma =>
      simp only [Bool.and_eq_true, beq_iff_eq] at hcomma
      obtain ⟨houtside, rfl⟩ := hcomma
      obtain rfl : quote = none := by
        cases quote with
        | none => rfl
        | some quote => cases houtside
      have hnone : ',' ∉ bare none [] := List.not_mem_nil
      exact Itemized.more hnone rfl hrest
    next hkept =>
      -- The character joins the first item of the rest.
      have hbare {item : List Char} (h : ',' ∉ bare (quote.step c) item) :
          ',' ∉ bare quote (c :: item) := by
        rw [bare]
        split
        next houtside =>
          have hne : c ≠ ',' := by simpa [houtside] using hkept
          simpa [Ne.symm hne] using h
        next => exact h
      generalize (cutItems (quote.step c) rest).1 = item at hrest ⊢
      generalize (cutItems (quote.step c) rest).2 = items at hrest ⊢
      cases hrest with
      | last hitem => exact .last (hbare hitem)
      | more hitem hafter hothers => exact .more (hbare hitem) hafter hothers

/-- The items of a list literal are cut at its commas outside quotations. -/
theorem itemized_itemsOf (text : List Char) : Itemized none text (itemsOf text) :=
  itemized_cutItems none text

/-- An item starts outside quotations, and ends there if the whole does. -/
theorem Itemized.exists_place {text : List Char} {items : List (List Char)}
    (h : Itemized none text items) (htext : after none text = none) :
    ∀ item ∈ items, after none item = none ∧ ∃ before rest, text = before ++ (item ++ rest) ∧
      after none before = none := by
  generalize hquote : (none : Quote) = quote at h
  induction h with
  | last =>
    obtain rfl := hquote
    exact List.forall_mem_singleton.mpr ⟨htext, [], [], by simp, rfl⟩
  | @more _ first rest items _ hfirst _ ih =>
    obtain rfl := hquote
    have hcomma : after none (first ++ [',']) = none := by
      rw [after_append, hfirst]
      rfl
    have hrest : after none rest = none := by
      rwa [List.append_cons, after_append_of_outside hcomma] at htext
    refine List.forall_mem_cons.mpr
      ⟨⟨hfirst, [], ',' :: rest, rfl, rfl⟩, fun item hmem => ?_⟩
    obtain ⟨hitem, before, later, rfl, hbefore⟩ := ih hrest rfl item hmem
    refine ⟨hitem, first ++ [','] ++ before, later, by simp, ?_⟩
    rw [after_append_of_outside hcomma, hbefore]

/-- A stretch does not go over the end of an item. -/
theorem Itemized.exists_item_of_isStretch {text : List Char} {items : List (List Char)}
    (h : Itemized none text items) {before stretch rest : List Char}
    (htext : text = before ++ (stretch ++ rest)) (hstretch : IsStretch before stretch) :
    ∃ left item right inside outside, items = left ++ item :: right ∧
      item = inside ++ (stretch ++ outside) ∧ before = left.flatMap (· ++ [',']) ++ inside := by
  generalize hquote : (none : Quote) = quote at h
  induction h generalizing before with
  | @last _ item => exact ⟨[], item, [], before, rest, rfl, htext, rfl⟩
  | @more _ first later items _ hfirst _ ih =>
    obtain rfl := hquote
    rcases hstretch.cases_of_outside hfirst htext with ⟨outside, rfl⟩ | ⟨inside, rfl, hlater⟩
    · exact ⟨[], _, items, before, outside, rfl, rfl, rfl⟩
    -- The stretch begins with a quote, so it comes after the comma.
    rcases List.cons_eq_append_iff.mp hlater with ⟨-, hopen⟩ | ⟨inside, rfl, hrest⟩
    · obtain ⟨-, quote, value, hquote, -, rfl⟩ := isStretch_iff.mp hstretch
      rw [List.cons_append, List.cons.injEq] at hopen
      rw [hopen.1] at hquote
      cases hquote
    · have hcomma : after none (first ++ [',']) = none := by
        rw [after_append, hfirst]
        rfl
      rw [List.append_cons, isStretch_append_iff hcomma] at hstretch
      obtain ⟨left, item, right, inside, outside, rfl, hitem, rfl⟩ := ih hrest hstretch rfl
      exact ⟨first :: left, item, right, inside, outside, rfl, hitem, by simp⟩

end Quote

end LineScript
