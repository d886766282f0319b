import LineScript.Text.Pieces

/-!
# Folders

What stands in a folder, and where the paths that start in it lead. A path is a list of moves, each
from a folder to what stands in or around it, so nothing is found beyond a file, and a folder
that is not there cannot be left again either.
-/

namespace LineScript.CommandLine

/-- What stands at a path. -/
inductive Entry where
  | file (bytes : ByteArray)
  | directory

/-- One move along a path. -/
inductive Move where
  | stay
  | up
  | down (name : List Char)
  deriving DecidableEq

namespace Move

/-- The move that a part of a path between slashes asks for. -/
def ofPart : List Char → Move
  | [] => .stay
  | ['.'] => .stay
  | ['.', '.'] => .up
  | name => .down name

/-- The name of what the move enters. -/
def name? : Move → Option (List Char)
  | .down name => some name
  | _ => none

/-- The moves of a path. -/
def ofPath (path : String) : List Move :=
  (Text.split (· == '/') path.toList).map ofPart

end Move

/-- Where a path has led. -/
inductive Place where
  | file (bytes : ByteArray)
  /-- The folder that these names lead to from the folder where paths start. -/
  | inside (names : List (List Char))
  /-- A folder that holds the one where paths start. Nothing else in it is known. -/
  | around

/-- What stands at a place. -/
def Place.entry : Place → Entry
  | .file bytes => .file bytes
  | _ => .directory

/-- A folder with what stands in it. -/
structure Folder where
  /-- Entries by name; the parts of a name are divided by slashes. -/
  entries : List (String × Entry)

namespace Folder

/-- The place that names lead to. A folder is there also if only something in it is. -/
def place? (folder : Folder) (names : List (List Char)) : Option Place :=
  let parts (name : String) := (Move.ofPath name).filterMap Move.name?
  match folder.entries.find? fun (name, _) => parts name = names with
  | some (_, .file bytes) => some (.file bytes)
  | some (_, .directory) => some (.inside names)
  | none =>
    if folder.entries.any fun (name, _) => names.isPrefixOf (parts name) then some (.inside names)
    else none

/-- Makes a move from a place. -/
def move? (folder : Folder) : Place → Move → Option Place
  | .file _, _ => none
  | .around, .down _ => none
  | .around, _ => some .around
  | .inside names, .stay => some (.inside names)
  | .inside names, .up => some (if names.isEmpty then .around else .inside names.dropLast)
  | .inside names, .down name => folder.place? (names ++ [name])

/-- The number of bytes that no path reaches. -/
def pathLimit : Nat := 4096

/-- What stands at a path from inside the folder. A path with a slash in front starts at the
outermost folder. -/
def find? (folder : Folder) (path : String) : Option Entry :=
  if path.isEmpty || pathLimit ≤ path.utf8ByteSize then none
  else
    let start := if path.toList.head? = some '/' then .around else .inside []
    ((Move.ofPath path).foldlM folder.move? start).map Place.entry

/-- Names that lead to a folder lead to the folder of those names. -/
theorem eq_of_place?_eq_inside {folder : Folder} {names names' : List (List Char)}
    (h : folder.place? names = some (.inside names')) : names' = names := by
  simp only [place?] at h
  split at h
  · simp at h
  · simpa using h.symm
  · split at h
    · simpa using h.symm
    · simp at h

/-- Going up leads back out of a folder that was entered. -/
theorem move?_up_of_move?_down {folder : Folder} {names names' : List (List Char)}
    {name : List Char} (h : folder.move? (.inside names) (.down name) = some (.inside names')) :
    folder.move? (.inside names') .up = some (.inside names) := by
  rw [move?] at h
  rw [eq_of_place?_eq_inside h]
  simp [move?]

end Folder

end LineScript.CommandLine
