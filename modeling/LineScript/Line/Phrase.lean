import LineScript.Line.Segment
import LineScript.Token
import LineScript.Vocabulary

/-!
# Keyword phrases

A keyword may be spelled by several words. It is recognised when these words stand one after the
other, whatever blanks are between them, and of all phrases that fit at a place the longest is
meant.
-/

namespace LineScript

/-- A keyword as a sequence of words, of which there is at least one. -/
structure Phrase where
  /-- The first word. -/
  first : List Char
  /-- The words after the first. -/
  others : List (List Char)
  /-- The kind of token that the phrase makes. -/
  kind : Token.Kind
deriving DecidableEq, Repr

namespace Phrase

/-- The phrase that a spelling stands for. A blank spelling is no phrase. -/
def ofSpelling? (spelling : String) (kind : Token.Kind) : Option Phrase :=
  match Text.words spelling.toList with
  | [] => none
  | first :: others => some ⟨first, others, kind⟩

/-- All words of a phrase. -/
def words (phrase : Phrase) : List (List Char) :=
  phrase.first :: phrase.others

/-- The words of a phrase with one blank between them. -/
def text (phrase : Phrase) : String :=
  String.ofList ([' '].intercalate phrase.words)

/-- Whether the first segments are the given words. -/
def wordsFit : List (List Char) → List Segment → Bool
  | [], _ => true
  | _ :: _, [] => false
  | word :: words, segment :: segments => segment.isWord word && wordsFit words segments

/-- Whether a phrase stands at the beginning of the segments. -/
def fits (phrase : Phrase) (segments : List Segment) : Bool :=
  wordsFit phrase.words segments

/-- The longest of the phrases that fit; of equally long ones the first. -/
def longest? (phrases : List Phrase) (segments : List Segment) : Option Phrase :=
  phrases.foldl
    (fun best phrase =>
      if phrase.fits segments && best.all (·.words.length < phrase.words.length) then
        some phrase
      else
        best)
    none

end Phrase

/-- The phrases of a set of keywords. The comment sign is no word, and a declaration may have no
phrase. -/
def Keywords.phrases (keywords : Keywords) : List Phrase :=
  let spellings : List (String × Token.Kind) :=
    [(keywords.start, .start), (keywords.finish, .finish), (keywords.print, .print),
     (keywords.condition, .condition), (keywords.consequence, .consequence),
     (keywords.alternative, .alternative), (keywords.loop, .loop), (keywords.times, .times),
     (keywords.function, .function), (keywords.declareList, .declareList)]
  let declaration := keywords.declarationPhrase?.toList.map fun spelling => (spelling, .declare)
  (spellings ++ declaration).filterMap fun (spelling, kind) => Phrase.ofSpelling? spelling kind

end LineScript
