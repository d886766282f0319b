import LineScript.Text.Pieces

/-!
# Quotes within a line

A double or single quote opens a quotation that the next quote of the same kind closes. Comments,
list literals and the items of a list are all cut at characters outside quotations, and all follow
the one automaton `Quote.step`.
-/

namespace LineScript

/-- Whether a character delimits quotations. -/
def isQuote (c : Char) : Bool :=
  c == '"' || c == '\''

/-- Where a position in a line stands: outside quotations, or inside one that the given quote
closes. -/
abbrev Quote := Option Char

namespace Quote

/-- The standing after a character. -/
def step : Quote → Char → Quote
  | none, c => if isQuote c then some c else none
  | some q, c => if c = q then none else some q

/-- Whether a position is outside quotations. -/
def isOutside : Quote → Bool
  | none => true
  | some _ => false

/-- The standing after a whole text. -/
def after (quote : Quote) (text : List Char) : Quote :=
  text.foldl step quote

@[simp]
theorem after_nil (quote : Quote) : quote.after [] = quote := rfl

@[simp]
theorem after_cons (quote : Quote) (c : Char) (text : List Char) :
    quote.after (c :: text) = (quote.step c).after text := rfl

/-- Reading two texts one after the other is reading their concatenation. -/
theorem after_append (quote : Quote) (left right : List Char) :
    quote.after (left ++ right) = (quote.after left).after right := by
  simp [after]

end Quote

/-- The part of a text before the first `#` outside quotations. -/
def beforeComment (quote : Quote) : List Char → List Char
  | [] => []
  | c :: rest =>
    if quote.isOutside && c == '#' then [] else c :: beforeComment (quote.step c) rest

/-- A line without its comment. -/
def codeOf (line : List Char) : List Char :=
  beforeComment none line

/-- The code of a line is its beginning. -/
theorem beforeComment_append (quote : Quote) (line : List Char) :
    ∃ comment, line = beforeComment quote line ++ comment := by
  induction line generalizing quote with
  | nil => exact ⟨[], rfl⟩
  | cons c rest ih =>
    rw [beforeComment]
    split
    · exact ⟨c :: rest, rfl⟩
    · obtain ⟨comment, h⟩ := ih (quote.step c)
      exact ⟨comment, congrArg (c :: ·) h⟩

/-- The characters up to and including the bracket that closes a list literal, and what follows it.
The text starts after the opening bracket; `depth` counts the brackets opened since. Brackets inside
quotations do not count. -/
def arrayTail? (quote : Quote) (depth : Nat) : List Char → Option (List Char × List Char)
  | [] => none
  | c :: rest =>
    if quote.isOutside && c == ']' && depth == 0 then
      some ([c], rest)
    else
      let inner :=
        if quote.isOutside && c == '[' then depth + 1
        else if quote.isOutside && c == ']' then depth - 1
        else depth
      (arrayTail? (quote.step c) inner rest).map fun (tail, remaining) => (c :: tail, remaining)

/-- Cutting off a list literal loses nothing. -/
theorem arrayTail?_append {quote : Quote} {depth : Nat} {text tail remaining : List Char}
    (h : arrayTail? quote depth text = some (tail, remaining)) : tail ++ remaining = text := by
  induction text generalizing quote depth tail with
  | nil => simp [arrayTail?] at h
  | cons c rest ih =>
    rw [arrayTail?] at h
    split at h
    · obtain ⟨rfl, rfl⟩ := Prod.mk.inj (Option.some.inj h)
      rfl
    · obtain ⟨⟨inner, after⟩, hinner, hpair⟩ := Option.map_eq_some_iff.mp h
      obtain ⟨rfl, rfl⟩ := Prod.mk.inj hpair
      rw [List.cons_append, ih hinner]

/-- The first of the pieces of a text between commas outside quotations, and the others. -/
def cutItems (quote : Quote) : List Char → List Char × List (List Char)
  | [] => ([], [])
  | c :: rest =>
    let (item, items) := cutItems (quote.step c) rest
    if quote.isOutside && c == ',' then ([], item :: items) else (c :: item, items)

/-- The pieces of a text between commas outside quotations; there is always at least one. -/
def itemsOf (text : List Char) : List (List Char) :=
  (cutItems none text).1 :: (cutItems none text).2

end LineScript
