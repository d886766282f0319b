import LineScript.Text.Blank

/-!
# Pieces of a text

Texts are lists of characters; offsets into them count the bytes of their UTF-8 form. Here are the
cuts the rest of the library uses: lines, blank-separated words, and the text between its outer
blanks.
-/

namespace LineScript.Text

/-- The number of bytes of the UTF-8 form of a text. -/
def byteSize (text : List Char) : Nat :=
  text.foldr (fun c size => c.utf8Size + size) 0

@[simp]
theorem byteSize_nil : byteSize [] = 0 := rfl

@[simp]
theorem byteSize_cons (c : Char) (text : List Char) :
    byteSize (c :: text) = c.utf8Size + byteSize text := by
  simp [byteSize]

@[simp]
theorem byteSize_append (left right : List Char) :
    byteSize (left ++ right) = byteSize left + byteSize right := by
  induction left with
  | nil => simp
  | cons c rest ih => rw [List.cons_append, byteSize_cons, byteSize_cons, ih, Nat.add_assoc]

/-- A text without its leading blanks. -/
def trimLeft (text : List Char) : List Char :=
  text.dropWhile isBlank

/-- A text without its trailing blanks. -/
def trimRight (text : List Char) : List Char :=
  (text.reverse.dropWhile isBlank).reverse

/-- A text without the blanks at its two ends. -/
def trim (text : List Char) : List Char :=
  trimRight (trimLeft text)

/-- Whether a text holds nothing but blanks. -/
def isBlankText (text : List Char) : Bool :=
  text.all isBlank

/-- The part of a text before its first cut character, and the parts between and after the cuts. -/
def cut (isCut : Char → Bool) (text : List Char) : List Char × List (List Char) :=
  text.foldr
    (fun c (piece, pieces) => if isCut c then ([], piece :: pieces) else (c :: piece, pieces))
    ([], [])

/-- The pieces of a text between its cut characters; there is always at least one. -/
def split (isCut : Char → Bool) (text : List Char) : List (List Char) :=
  (cut isCut text).1 :: (cut isCut text).2

@[simp]
theorem split_nil (isCut : Char → Bool) : split isCut [] = [[]] := rfl

/-- A cut character starts a new piece. -/
theorem split_cons_of_cut {isCut : Char → Bool} {c : Char} (h : isCut c = true)
    (text : List Char) : split isCut (c :: text) = [] :: split isCut text := by
  simp [split, cut, h]

/-- Any other character joins the piece that follows it. -/
theorem split_cons_of_not_cut {isCut : Char → Bool} {c : Char} (h : isCut c = false)
    (text : List Char) :
    split isCut (c :: text) = (c :: (cut isCut text).1) :: (cut isCut text).2 := by
  simp [split, cut, h]

/-- The lines of a text. Only a line feed ends a line, so a final one starts an empty last line. -/
def lines (text : List Char) : List (List Char) :=
  split (· == '\n') text

/-- How many line feeds a text holds before a byte offset. -/
def lineBreaksBefore (offset : Nat) : List Char → Nat
  | [] => 0
  | c :: rest =>
    if offset = 0 then 0
    else (if c = '\n' then 1 else 0) + lineBreaksBefore (offset - c.utf8Size) rest

/-- The blank-separated words of a text. -/
def words (text : List Char) : List (List Char) :=
  (split isBlank text).filter (!·.isEmpty)

/-- What follows the given beginning of a text, if the text has that beginning. -/
def after? : List Char → List Char → Option (List Char)
  | [], text => some text
  | _ :: _, [] => none
  | c :: start, d :: text => if c = d then after? start text else none

/-- A beginning is what precedes the rest. -/
theorem append_of_after? {start text rest : List Char} (h : after? start text = some rest) :
    start ++ rest = text := by
  induction start generalizing text with
  | nil => exact (Option.some.inj h).symm
  | cons c start ih =>
    cases text with
    | nil => simp [after?] at h
    | cons d text =>
      rw [after?] at h
      split at h
      · next heq => rw [List.cons_append, ih h, heq]
      · simp at h

end LineScript.Text
