import LineScript.Vocabulary

/-!
# Sample programs

A few programs that come with the language, each written in both vocabularies, with the lines they
print.
-/

namespace LineScript

/-- A named program in both vocabularies. -/
structure Sample where
  /-- The name it is asked for by. -/
  name : String
  /-- The lines of the program in a vocabulary. -/
  lines : Vocabulary → List String
  /-- The lines that the program prints in a vocabulary. -/
  printed : Vocabulary → List String

namespace Sample

/-- The text of a sample in a vocabulary. -/
def source (sample : Sample) (vocabulary : Vocabulary) : String :=
  "\n".intercalate (sample.lines vocabulary)

/-- Prints one line. -/
def hello : Sample where
  name := "hello"
  lines
    | .plain =>
      [
        "start:",
        "  print: \"Kem cho bhai!\"",
        "end:"]
    | .colorful =>
      [
        "sharu:",
        "  lakh chodya: \"Kem cho loda!\"",
        "samaapt:"]
  printed
    | .plain => ["Kem cho bhai!"]
    | .colorful => ["Kem cho loda!"]

/-- Chooses between two blocks. -/
def conditional : Sample where
  name := "conditional"
  lines
    | .plain =>
      [
        "start:",
        "  umar = 25",
        "  jo (umar > 18) to \x7b",
        "    print: \"Tame adult cho\"",
        "  \x7d nahi to \x7b",
        "    print: \"Tame balak cho\"",
        "  \x7d",
        "end:"]
    | .colorful =>
      [
        "sharu:",
        "  loda ayia nakh umar = 25",
        "  jo (umar > 18) to \x7b",
        "    lakh chodya: \"Bhos, tame mota cho\"",
        "  \x7d nahi to \x7b",
        "    lakh chodya: \"Chodya balak\"",
        "  \x7d",
        "samaapt:"]
  printed
    | .plain => ["Tame adult cho"]
    | .colorful => ["Bhos, tame mota cho"]

/-- Prints a line five times. -/
def loop : Sample where
  name := "loop"
  lines
    | .plain =>
      [
        "start:",
        "  repeat 5 vaar \x7b",
        "    print: \"Maja ma che\"",
        "  \x7d",
        "end:"]
    | .colorful =>
      [
        "sharu:",
        "  repeat 5 vaar \x7b",
        "    lakh chodya: \"Maja avi gai chodya\"",
        "  \x7d",
        "samaapt:"]
  printed
    | .plain => List.replicate 5 "Maja ma che"
    | .colorful => List.replicate 5 "Maja avi gai chodya"

/-- Defines a function and calls it. -/
def function : Sample where
  name := "function"
  lines
    | .plain =>
      [
        "start:",
        "  function bolavo(naam) \x7b",
        "    print: \"Kem cho \" + naam",
        "  \x7d",
        "  bolavo(\"Bhai\")",
        "end:"]
    | .colorful =>
      [
        "sharu:",
        "  function loda_bolavo(naam) \x7b",
        "    lakh chodya: \"Kem cho loda \" + naam",
        "  \x7d",
        "  loda_bolavo(\"Bhai\")",
        "samaapt:"]
  printed
    | .plain => ["Kem cho Bhai"]
    | .colorful => ["Kem cho loda Bhai"]

/-- Indexes a list and takes its length. -/
def array : Sample where
  name := "array"
  lines
    | .plain =>
      [
        "start:",
        "  list mitro = [\"Ram\", \"Shyam\", \"Mohan\"]",
        "  print: mitro[0]",
        "  print: \"Total mitro: \" + mitro.length",
        "end:"]
    | .colorful =>
      [
        "sharu:",
        "  loda ayia nakh list lodo = [\"Ram\", \"Shyam\", \"Mohan\"]",
        "  lakh chodya: lodo[0]",
        "  lakh chodya: \"Total lodo: \" + lodo.length",
        "samaapt:"]
  printed
    | .plain => ["Ram", "Total mitro: 3"]
    | .colorful => ["Ram", "Total lodo: 3"]

/-- All samples, in the order in which they are listed. -/
def all : List Sample :=
  [hello, conditional, loop, function, array]

/-- The names of all samples. -/
def names : List String :=
  all.map Sample.name

/-- The sample of a given name. -/
def find? (name : String) : Option Sample :=
  all.find? fun sample => sample.name == name

end Sample

end LineScript
