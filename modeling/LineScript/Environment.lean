import LineScript.Value

/-!
# Environments

Variables live in frames. One frame holds the variables of the program, and each active call has a
frame of its own. A name is looked up from the innermost frame outwards and given a value in the
innermost one, so a call never changes the variables of its caller.
-/

namespace LineScript

/-- Entries by name. Operations keep at most one entry for each name. -/
abbrev Table (α : Type) := List (String × α)

namespace Table

variable {α : Type}

/-- The entry of a name. -/
def get? (table : Table α) (name : String) : Option α :=
  table.lookup name

/-- Gives a name an entry, in the place of the one it may have. -/
def insert (table : Table α) (name : String) (value : α) : Table α :=
  match table with
  | [] => [(name, value)]
  | (key, old) :: rest =>
    if key = name then (name, value) :: rest else (key, old) :: insert rest name value

/-- The table of a list of entries, of which a later one replaces an earlier one of its name. -/
def ofEntries (entries : List (String × α)) : Table α :=
  entries.foldl (fun table (name, value) => table.insert name value) []

/-- A name that was given an entry has it. -/
@[simp]
theorem get?_insert_self (table : Table α) (name : String) (value : α) :
    (table.insert name value).get? name = some value := by
  induction table with
  | nil => simp [insert, get?]
  | cons entry rest ih =>
    obtain ⟨key, old⟩ := entry
    by_cases h : key = name
    · simp [insert, get?, h]
    · have hne : (name == key) = false := by simpa using Ne.symm h
      simpa [insert, get?, h, List.lookup_cons, hne] using ih

/-- Giving a name an entry leaves those of all others. -/
theorem get?_insert_of_ne (table : Table α) {name other : String} (h : other ≠ name) (value : α) :
    (table.insert name value).get? other = table.get? other := by
  have hother : (other == name) = false := by simpa using h
  induction table with
  | nil => simp [insert, get?, List.lookup_cons, hother]
  | cons entry rest ih =>
    obtain ⟨key, old⟩ := entry
    by_cases hkey : key = name
    · simp [insert, get?, hkey, List.lookup_cons, hother]
    · have ih' : List.lookup other (insert rest name value) = List.lookup other rest := ih
      simp [insert, get?, hkey, List.lookup_cons, ih']

end Table

/-- The variables of a program or a call. -/
abbrev Frame := Table Value

/-- All variables: those of the program, and those of each active call, the innermost first. -/
structure Environment where
  /-- The variables of the program. -/
  globals : Frame
  /-- The variables of the active calls, the innermost first. -/
  calls : List Frame
deriving Inhabited

namespace Environment

/-- The environment without variables or calls. -/
def empty : Environment :=
  ⟨[], []⟩

/-- All frames, the innermost first. -/
def frames (env : Environment) : List Frame :=
  env.calls ++ [env.globals]

/-- The value of a name: that in the innermost frame which has one. -/
def get? (env : Environment) (name : String) : Option Value :=
  match env.calls.findSome? (·.get? name) with
  | some value => some value
  | none => env.globals.get? name

/-- Gives a name a value in the innermost frame. -/
def define (env : Environment) (name : String) (value : Value) : Environment :=
  match env.calls with
  | [] => { env with globals := env.globals.insert name value }
  | frame :: outer => { env with calls := frame.insert name value :: outer }

/-- Enters a call with the given variables. -/
def push (env : Environment) (frame : Frame) : Environment :=
  { env with calls := frame :: env.calls }

/-- Leaves the innermost call. The frame of the program stays. -/
def pop (env : Environment) : Environment :=
  { env with calls := env.calls.tail }

/-- The number of active calls. -/
def callDepth (env : Environment) : Nat :=
  env.calls.length

/-- A name is looked up in all frames, the innermost first. -/
theorem get?_eq_findSome?_frames (env : Environment) (name : String) :
    env.get? name = env.frames.findSome? (·.get? name) := by
  rw [get?, frames, List.findSome?_append]
  cases env.calls.findSome? (·.get? name) <;> simp

/-- Leaving a call that was just entered changes nothing. -/
@[simp]
theorem pop_push (env : Environment) (frame : Frame) : (env.push frame).pop = env := rfl

/-- Giving a name a value is not entering a call. -/
@[simp]
theorem callDepth_define (env : Environment) (name : String) (value : Value) :
    (env.define name value).callDepth = env.callDepth := by
  unfold define
  split <;> simp_all [callDepth]

/-- A name has the value it was given last. -/
@[simp]
theorem get?_define_self (env : Environment) (name : String) (value : Value) :
    (env.define name value).get? name = some value := by
  unfold define
  split <;> simp_all [get?]

end Environment

end LineScript
