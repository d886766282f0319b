import LineScript.Line.Defect
import LineScript.Line.Quote
import LineScript.Span

/-!
# Segments of a line

The code of a line is cut into segments: words, quotations, list literals and signs, with blanks
between them. The main facts are that cutting off a segment loses nothing (`tail_append_of_munch`)
and hence that what remains is never longer, which is why cutting ends.
-/

namespace LineScript

open Text

namespace Segment

/-- What a segment looks like. -/
inductive Shape where
  /-- A run of word characters. -/
  | word
  /-- A quotation with its quotes. -/
  | quoted
  /-- A list literal with its brackets. -/
  | array
  /-- A sign. -/
  | mark
deriving DecidableEq, Repr

end Segment

/-- A part of a line that is read as one unit. -/
structure Segment where
  /-- What the segment looks like. -/
  shape : Segment.Shape
  /-- Its characters. -/
  text : List Char
  /-- The byte of the line at which it starts. -/
  start : Nat
deriving DecidableEq, Repr

namespace Segment

/-- The byte of the line after a segment. -/
def stop (segment : Segment) : Nat :=
  segment.start + byteSize segment.text

/-- The bytes of the line that a segment covers. -/
def span (segment : Segment) : Span :=
  ⟨segment.start, segment.stop⟩

/-- Whether a segment is the given word. -/
def isWord (segment : Segment) (word : List Char) : Bool :=
  segment.shape = .word && segment.text = word

/-- Whether a character is a sign of its own. -/
def isMark (c : Char) : Bool :=
  ['=', '{', '}', '(', ')', '[', ']', ',', '+', '-', '*', '/', '>', '<', ':', '.'].contains c

/-- Whether `d` continues a word that starts with `c`: a word that starts with a digit may be a
number and keeps its points. -/
def continues (c d : Char) : Bool :=
  isWordChar d || (c.isDigit && d == '.')

/-- Cuts off the segment that starts with `c`: its shape, its other characters and what remains. A
bracket directly after a word character indexes that word; anywhere else it opens a list literal. -/
def munch (previous : Option Char) (c : Char) (rest : List Char) :
    Except Defect (Shape × List Char × List Char) :=
  if isQuote c then
    -- A quotation runs to the next quote of its kind; there is no way to escape one.
    match rest.dropWhile (· != c) with
    | [] => .error .unterminatedString
    | close :: remaining => .ok (.quoted, rest.takeWhile (· != c) ++ [close], remaining)
  else if c == '[' && !previous.any isWordChar then
    match arrayTail? none 0 rest with
    | none => .error .unterminatedArray
    | some (tail, remaining) => .ok (.array, tail, remaining)
  else if isWordChar c then
    .ok (.word, rest.takeWhile (continues c), rest.dropWhile (continues c))
  else if (c == '=' || c == '!') && rest.head? == some '=' then
    .ok (.mark, rest.take 1, rest.drop 1)
  else if isMark c then
    .ok (.mark, [], rest)
  else
    .error (.unexpectedCharacter c)

/-- Cutting off a segment loses nothing. -/
theorem tail_append_of_munch {previous : Option Char} {c : Char} {rest : List Char} {shape : Shape}
    {tail remaining : List Char} (h : munch previous c rest = .ok (shape, tail, remaining)) :
    tail ++ remaining = rest := by
  have hsplit (p : Char → Bool) : rest.takeWhile p ++ rest.dropWhile p = rest :=
    List.takeWhile_append_dropWhile
  unfold munch at h
  split at h
  · split at h
    · simp at h
    · next close after hdrop =>
      obtain ⟨-, rfl, rfl⟩ : _ ∧ _ ∧ _ := by simpa using h
      rw [List.append_assoc, List.singleton_append, ← hdrop, hsplit]
  · split at h
    · split at h
      · simp at h
      · next tail' remaining' htail =>
        obtain ⟨-, rfl, rfl⟩ : _ ∧ _ ∧ _ := by simpa using h
        exact arrayTail?_append htail
    · split at h
      · obtain ⟨-, rfl, rfl⟩ : _ ∧ _ ∧ _ := by simpa using h
        exact hsplit _
      · split at h
        · obtain ⟨-, rfl, rfl⟩ : _ ∧ _ ∧ _ := by simpa using h
          simpa using List.take_append_drop 1 rest
        · split at h
          · obtain ⟨-, rfl, rfl⟩ : _ ∧ _ ∧ _ := by simpa using h
            rfl
          · simp at h

/-- What remains after a segment is no longer than what followed its first character. -/
theorem length_remaining_of_munch {previous : Option Char} {c : Char} {rest : List Char}
    {shape : Shape} {tail remaining : List Char}
    (h : munch previous c rest = .ok (shape, tail, remaining)) :
    remaining.length ≤ rest.length := by
  rw [← tail_append_of_munch h, List.length_append]
  exact Nat.le_add_left _ _

/-- The segments of a text that starts at byte `offset` of its line, directly after the character
`previous`. -/
def cutAll (previous : Option Char) (offset : Nat) (text : List Char) :
    Except Defect (List Segment) :=
  match text with
  | [] => .ok []
  | c :: rest =>
    if isBlank c then
      cutAll (some c) (offset + c.utf8Size) rest
    else
      match h : munch previous c rest with
      | .error defect => .error defect
      | .ok (shape, tail, remaining) =>
        have := length_remaining_of_munch h
        (cutAll (c :: tail).getLast? (offset + byteSize (c :: tail)) remaining).map
          (⟨shape, c :: tail, offset⟩ :: ·)
termination_by text.length

end Segment

/-- The segments of the code of a line. -/
def segmentsOf (code : List Char) : Except Defect (List Segment) :=
  Segment.cutAll none 0 code

end LineScript
