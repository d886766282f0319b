import LineScript.Proofs.Machine.Evaluation
import LineScript.Proofs.Machine.Lines
import LineScript.Proofs.Number.Value
import LineScript.Proofs.Value.Equality

/-!
# Where undefined values are from

Only a parameter that is given no argument is undefined. In particular an item of a list is not
undefined because there is none at its position: indexing has a value only for positions at which
there is an item. So if every call that is entered has enough arguments, then no value in a run is
undefined or holds, at whatever depth, an item that is: no variable has such a value, no expression,
and no line is the text of one.

The invariant is `Machine.LacksUndefined`. A step keeps it unless it enters a call that has too few
arguments (`Config.lacksUndefined_next?`).
-/

namespace LineScript

/-! ### Values -/

namespace Value

/-- A value that neither is undefined nor holds an undefined item, at whatever depth. -/
def LacksUndefined (value : Value) : Prop :=
  ¬value.Holds .undefined

theorem lacksUndefined_of_ne {value : Value} (hlist : ∀ items, value ≠ list items)
    (hundefined : value ≠ undefined) : value.LacksUndefined :=
  fun h => hundefined (h.eq_of_not_list hlist).symm

theorem lacksUndefined_number (n : Float) : (number n).LacksUndefined :=
  lacksUndefined_of_ne (by simp) (by simp)

theorem lacksUndefined_string (text : String) : (string text).LacksUndefined :=
  lacksUndefined_of_ne (by simp) (by simp)

theorem lacksUndefined_boolean (truth : Bool) : (boolean truth).LacksUndefined :=
  lacksUndefined_of_ne (by simp) (by simp)

/-- A list holds an undefined item only if one of its items is or holds one. -/
theorem lacksUndefined_list {items : List Value} :
    (list items).LacksUndefined ↔ ∀ item ∈ items, item.LacksUndefined := by
  constructor
  · intro h item hmem hitem
    exact h (hitem.of_item hmem)
  · intro h hlist
    obtain hself | ⟨item, hmem, hitem⟩ := hlist.eq_or_exists
    · cases hself
    · exact h item hmem hitem

variable {value : Value} {span : Span}

/-- An item that is found is one of the list, at the position that is asked for. -/
theorem itemAt_eq_ok_iff {name : String} {items : List Value} {position : Value} :
    itemAt name items position span = .ok value ↔
      ∃ n k, position = .number n ∧ toNat? n = some k ∧ items[k]? = some value := by
  have hitem : itemAt name items position span = .ok value ↔
      itemAt? items position = some value := by
    unfold itemAt
    cases itemAt? items position <;> simp
  rw [hitem]
  cases position with
  | number n =>
    rw [itemAt?, Option.bind_eq_some_iff]
    exact ⟨fun ⟨k, hk, hvalue⟩ => ⟨n, k, rfl, hk, hvalue⟩, fun ⟨_, k, hn, hk, hvalue⟩ =>
      ⟨k, number.inj hn ▸ hk, hvalue⟩⟩
  | string | boolean | list | undefined => simp [itemAt?]

theorem lacksUndefined_property {of : Value} {key : String}
    (h : of.property key span = .ok value) : value.LacksUndefined := by
  unfold property at h
  split at h
  · cases h
    exact lacksUndefined_number _
  · cases h
    exact lacksUndefined_number _
  · cases h

theorem lacksUndefined_applyUnary {operator : UnaryOperator} {operand : Value}
    (h : applyUnary operator operand span = .ok value) : value.LacksUndefined := by
  unfold applyUnary at h
  split at h
  · cases h
    exact lacksUndefined_boolean _
  · cases h
    exact lacksUndefined_number _
  · cases h

/-- Operators give numbers, texts and truth values, whatever their operands are. -/
theorem lacksUndefined_applyBinary {operator : BinaryOperator} {left right : Value}
    (h : applyBinary operator left right span = .ok value) : value.LacksUndefined := by
  cases operator with
  | add =>
    unfold applyBinary at h
    dsimp only at h
    split at h
    · cases h
      exact lacksUndefined_number _
    · cases h
      exact lacksUndefined_string _
  | subtract | multiply =>
    unfold applyBinary at h
    dsimp only at h
    split at h
    · cases h
      exact lacksUndefined_number _
    · cases h
  | divide =>
    unfold applyBinary at h
    dsimp only at h
    split at h
    · split at h
      · cases h
      · cases h
        exact lacksUndefined_number _
    · cases h
  | equal | notEqual | less | greater | and | or =>
    cases h
    exact lacksUndefined_boolean _

end Value

/-! ### Environments -/

/-- No variable of a frame has a value that is undefined or holds an undefined item. -/
def Frame.LacksUndefined (frame : Frame) : Prop :=
  ∀ entry ∈ frame, entry.2.LacksUndefined

namespace Frame.LacksUndefined

theorem insert {frame : Frame} (h : frame.LacksUndefined) (name : String) {value : Value}
    (hvalue : value.LacksUndefined) : Frame.LacksUndefined (Table.insert frame name value) := by
  induction frame with
  | nil => exact List.forall_mem_singleton.mpr hvalue
  | cons entry frame ih =>
    obtain ⟨hentry, hframe⟩ := List.forall_mem_cons.mp h
    rw [Table.insert]
    split
    · exact List.forall_mem_cons.mpr ⟨hvalue, hframe⟩
    · exact List.forall_mem_cons.mpr ⟨hentry, ih hframe⟩

/-- A table of entries has no values but those of the entries. -/
theorem ofEntries {entries : List (String × Value)}
    (h : ∀ entry ∈ entries, entry.2.LacksUndefined) :
    Frame.LacksUndefined (Table.ofEntries entries) :=
  List.foldlRecOn entries _ (fun _ hentry => nomatch hentry)
    fun _ hframe entry hmem => insert hframe entry.1 (h entry hmem)

end Frame.LacksUndefined

/-- The values of parameters are arguments, if there are enough of these. -/
theorem Procedure.lacksUndefined_frame (procedure : Procedure) {values : List Value}
    (hlength : procedure.params.length ≤ values.length)
    (hvalues : ∀ value ∈ values, value.LacksUndefined) :
    Frame.LacksUndefined (procedure.frame values) := by
  refine Frame.LacksUndefined.ofEntries ?_
  -- Parameters and arguments are taken side by side, and the arguments do not run out first.
  generalize procedure.params = params at hlength
  induction params generalizing values with
  | nil => exact fun _ hentry => nomatch hentry
  | cons param params ih =>
    cases values with
    | nil => exact absurd hlength (Nat.not_succ_le_zero _)
    | cons value values =>
      obtain ⟨hvalue, hvalues⟩ := List.forall_mem_cons.mp hvalues
      exact List.forall_mem_cons.mpr ⟨hvalue, ih hvalues (Nat.le_of_succ_le_succ hlength)⟩

namespace Environment

/-- No variable has a value that is undefined or holds an undefined item. -/
def LacksUndefined (env : Environment) : Prop :=
  ∀ frame ∈ env.frames, Frame.LacksUndefined frame

/-- The item at a position of the list that a variable holds, which is undefined if there is no list
or no such item. -/
def itemAt (env : Environment) (name : String) (position : Nat) : Value :=
  match env.get? name with
  | some (.list items) => items.getD position .undefined
  | _ => .undefined

/-- Where there is an item, it is found. -/
theorem itemAt_of_lt {env : Environment} {name : String} {items : List Value} {position : Nat}
    (hname : env.get? name = some (.list items)) (h : position < items.length) :
    env.itemAt name position = items[position] := by
  rw [itemAt, hname]
  exact List.getD_eq_getElem items _ h

theorem lacksUndefined_empty : empty.LacksUndefined :=
  List.forall_mem_singleton.mpr fun _ hentry => nomatch hentry

theorem LacksUndefined.get? {env : Environment} (h : env.LacksUndefined) {name : String}
    {value : Value} (hvalue : env.get? name = some value) : value.LacksUndefined := by
  rw [get?_eq_findSome?_frames] at hvalue
  obtain ⟨frame, hframe, hfound⟩ := List.exists_of_findSome?_eq_some hvalue
  obtain ⟨before, after, hsplit, -⟩ := List.lookup_eq_some_iff.mp hfound
  exact h frame hframe (name, value) (hsplit ▸ by simp)

theorem LacksUndefined.define {env : Environment} (h : env.LacksUndefined) (name : String)
    {value : Value} (hvalue : value.LacksUndefined) : (env.define name value).LacksUndefined := by
  obtain ⟨globals, calls⟩ := env
  cases calls with
  | nil => exact List.forall_mem_singleton.mpr ((h globals (.head _)).insert name hvalue)
  | cons frame outer =>
    obtain ⟨hframe, houter⟩ := List.forall_mem_cons.mp h
    exact List.forall_mem_cons.mpr ⟨hframe.insert name hvalue, houter⟩

theorem LacksUndefined.push {env : Environment} (h : env.LacksUndefined) {frame : Frame}
    (hframe : Frame.LacksUndefined frame) : (env.push frame).LacksUndefined :=
  List.forall_mem_cons.mpr ⟨hframe, h⟩

theorem LacksUndefined.pop {env : Environment} (h : env.LacksUndefined) :
    env.pop.LacksUndefined := by
  obtain ⟨globals, calls⟩ := env
  cases calls with
  | nil => exact h
  | cons frame outer => exact (List.forall_mem_cons.mp h).2

end Environment

/-! ### Expressions -/

theorem Environment.lookup_eq_ok_iff {env : Environment} {name : String} {span : Span}
    {value : Value} : env.lookup name span = .ok value ↔ env.get? name = some value := by
  rw [lookup]
  cases env.get? name <;> simp

namespace Expr

variable {env : Environment}

/-- Indexing has a value if and only if the variable holds a list, the position is a natural number,
and there is an item at that position, which is the value then. -/
theorem eval_index_eq_ok_iff {name : String} {position : Expr} {span : Span} {value : Value} :
    (index name position span).eval env = .ok value ↔
      ∃ items n k, env.get? name = some (.list items) ∧ position.eval env = .ok (.number n) ∧
        toNat? n = some k ∧ items[k]? = some value := by
  rw [eval_index]
  constructor
  · intro h
    obtain ⟨found, hfound, hvalue⟩ := exists_of_bind_eq_ok h
    cases found with
    | list items =>
      obtain ⟨place, hplace, hitem⟩ := exists_of_bind_eq_ok hvalue
      obtain ⟨n, k, rfl, hk, hitem⟩ := Value.itemAt_eq_ok_iff.mp hitem
      exact ⟨items, n, k, Environment.lookup_eq_ok_iff.mp hfound, hplace, hk, hitem⟩
    | number | string | boolean | undefined => cases hvalue
  · rintro ⟨items, n, k, hname, hposition, hk, hitem⟩
    rw [Environment.lookup_eq_ok_iff.mpr hname]
    show (position.eval env).bind _ = _
    rw [hposition]
    exact Value.itemAt_eq_ok_iff.mpr ⟨n, k, rfl, hk, hitem⟩

mutual

/-- No expression makes an undefined value of others. -/
theorem lacksUndefined_eval (henv : env.LacksUndefined) {expr : Expr} {value : Value}
    (h : expr.eval env = .ok value) : value.LacksUndefined := by
  match expr with
  | number n _ =>
    cases h
    exact Value.lacksUndefined_number n
  | string text _ =>
    cases h
    exact Value.lacksUndefined_string text
  | boolean truth _ =>
    cases h
    exact Value.lacksUndefined_boolean truth
  | array items _ =>
    rw [eval_array] at h
    obtain ⟨values, hvalues, hvalue⟩ := exists_of_bind_eq_ok h
    cases hvalue
    exact Value.lacksUndefined_list.mpr (lacksUndefined_evalAll henv hvalues)
  | identifier name span => exact henv.get? (Environment.lookup_eq_ok_iff.mp h)
  | index name position span =>
    obtain ⟨items, n, k, hname, -, -, hitem⟩ := eval_index_eq_ok_iff.mp h
    exact Value.lacksUndefined_list.mp (henv.get? hname) value (List.mem_of_getElem? hitem)
  | property name key span =>
    rw [eval_property] at h
    obtain ⟨found, -, hvalue⟩ := exists_of_bind_eq_ok h
    exact Value.lacksUndefined_property hvalue
  | unary operator operand span =>
    rw [eval_unary] at h
    obtain ⟨found, -, hvalue⟩ := exists_of_bind_eq_ok h
    exact Value.lacksUndefined_applyUnary hvalue
  | binary operator left right span =>
    rw [eval_binary] at h
    obtain ⟨l, -, hrest⟩ := exists_of_bind_eq_ok h
    obtain ⟨r, -, hvalue⟩ := exists_of_bind_eq_ok hrest
    exact Value.lacksUndefined_applyBinary hvalue

theorem lacksUndefined_evalAll (henv : env.LacksUndefined) {exprs : List Expr}
    {values : List Value} (h : evalAll env exprs = .ok values) :
    ∀ value ∈ values, value.LacksUndefined := by
  match exprs with
  | [] =>
    cases h
    exact fun _ hmem => nomatch hmem
  | expr :: exprs =>
    rw [evalAll_cons] at h
    obtain ⟨first, hfirst, hrest⟩ := exists_of_bind_eq_ok h
    obtain ⟨others, hothers, hvalues⟩ := exists_of_bind_eq_ok hrest
    cases hvalues
    exact List.forall_mem_cons.mpr
      ⟨lacksUndefined_eval henv hfirst, lacksUndefined_evalAll henv hothers⟩

end

end Expr

/-! ### Runs -/

/-- If the statement is a call that is entered, it has an argument for each parameter. -/
def Stmt.SuppliesArguments (limit : Nat) (machine : Machine) : Stmt → Prop
  | call name args _ =>
    ∀ procedure values, machine.functions.get? name = some procedure →
      machine.env.callDepth < limit → Expr.evalAll machine.env args = .ok values →
        procedure.params.length ≤ values.length
  | _ => True

namespace Config

variable {limit : Nat} {machine : Machine} {rest : List Task}

/-- If the next step enters a call, it has an argument for each parameter. -/
def SuppliesArguments (limit : Nat) (config : Config) : Prop :=
  match config.tasks, config.fault? with
  | .statement stmt :: _, none => stmt.SuppliesArguments limit config.machine
  | _, _ => True

theorem lacksUndefined_proceed (h : machine.env.LacksUndefined) {expr : Expr}
    {next : Value → Config}
    (hnext : ∀ value, value.LacksUndefined → (next value).machine.env.LacksUndefined) :
    (machine.proceed expr rest next).machine.env.LacksUndefined := by
  rw [Machine.proceed]
  cases heval : expr.eval machine.env with
  | error fault => exact h
  | ok value => exact hnext value (Expr.lacksUndefined_eval h heval)

/-- The step that begins a statement makes no undefined value, unless it enters a call with too few
arguments. -/
theorem lacksUndefined_begin (h : machine.env.LacksUndefined) {stmt : Stmt}
    (hargs : stmt.SuppliesArguments limit machine) :
    (stmt.begin limit machine rest).machine.env.LacksUndefined := by
  cases stmt with
  | print value span => exact lacksUndefined_proceed h fun _ _ => h
  | assign name value isList span =>
    refine lacksUndefined_proceed h fun value hvalue => ?_
    show ((machine.noteDeclaration name isList value).env.define name value).LacksUndefined
    rw [Machine.env_noteDeclaration]
    exact h.define name hvalue
  | function name params body span => exact h
  | branch condition consequence alternative span => exact lacksUndefined_proceed h fun _ _ => h
  | loop count body span =>
    refine lacksUndefined_proceed h fun value _ => ?_
    split <;> exact h
  | call name args span =>
    rw [Stmt.begin, Machine.beginCall]
    split
    next => exact h
    next procedure hfound =>
      split
      next => exact h
      next hdepth =>
        split
        next => exact h
        next values hvalues =>
          -- The call is entered, and its frame is the only new one.
          show ((machine.noteArguments name procedure values).env.push _).LacksUndefined
          rw [Machine.env_noteArguments]
          exact h.push (procedure.lacksUndefined_frame
            (hargs procedure values hfound (Nat.lt_of_not_le hdepth) hvalues)
            (Expr.lacksUndefined_evalAll h hvalues))

/-- A step makes no undefined value, unless it enters a call with too few arguments. -/
theorem lacksUndefined_next? {config after : Config} (h : config.machine.env.LacksUndefined)
    (hargs : config.SuppliesArguments limit) (hnext : config.next? limit = some after) :
    after.machine.env.LacksUndefined := by
  cases step_of_next? hnext with
  | leave => exact Environment.LacksUndefined.pop h
  | statement => exact lacksUndefined_begin h hargs
  | drop | done | round => exact h

/-- A line is printed only by a print statement, and is the text of a value. -/
theorem exists_of_line?_eq_some {config : Config} {line : String} (h : config.line? = some line) :
    ∃ expr span rest value, config.tasks = .statement (.print expr span) :: rest ∧
      expr.eval config.machine.env = .ok value ∧ line = value.display := by
  unfold line? at h
  split at h
  next stmt rest htasks _ =>
    cases stmt with
    | print expr span =>
      rw [Stmt.line?] at h
      cases hvalue : expr.eval config.machine.env with
      | error fault =>
        rw [hvalue] at h
        cases h
      | ok value =>
        rw [hvalue] at h
        exact ⟨expr, span, rest, value, htasks, hvalue, (Option.some.inj h).symm⟩
    | assign | function | branch | loop | call => cases h
  next => cases h

/-- A run makes no undefined value, unless it enters a call with too few arguments on its way. -/
theorem lacksUndefined_of_reaches {config after : Config} (h : config.machine.env.LacksUndefined)
    (hargs : ∀ between, Reaches limit config between → between.SuppliesArguments limit)
    (hreaches : Reaches limit config after) : after.machine.env.LacksUndefined := by
  induction hreaches with
  | refl => exact h
  | tail hbetween hnext ih => exact lacksUndefined_next? ih (hargs _ hbetween) hnext

end Config

namespace Machine

variable {limit : Nat}

/-- A configuration occurs when programs are run on a machine one after the other, whichever of them
fail. -/
inductive Occurs (limit : Nat) : Machine → List Program → Config → Prop
  | here {machine : Machine} {program : Program} {programs : List Program} {config : Config} :
      Config.Reaches limit (.start machine program.body) config →
        Occurs limit machine (program :: programs) config
  | later {machine : Machine} {program : Program} {programs : List Program} {config : Config} :
      Occurs limit (machine.run limit program).2 programs config →
        Occurs limit machine (program :: programs) config

theorem Occurs.lacksUndefined {machine : Machine} {programs : List Program} {config : Config}
    (hoccurs : Occurs limit machine programs config) (h : machine.env.LacksUndefined)
    (hargs : ∀ config, Occurs limit machine programs config → config.SuppliesArguments limit) :
    config.machine.env.LacksUndefined := by
  induction hoccurs with
  | here hreaches =>
    exact Config.lacksUndefined_of_reaches h (fun _ hbetween => hargs _ (.here hbetween)) hreaches
  | @later machine program programs config _ ih =>
    -- The machine that the first program leaves is the one that its last configuration has.
    have hstart : (Config.start machine program.body).machine.env.LacksUndefined := h
    have hends := Config.reaches_machine_execAll limit program.body machine
    refine ih ?_ fun _ hlater => hargs _ (.later hlater)
    rw [env_run]
    exact Config.lacksUndefined_of_reaches hstart (fun _ hbetween => hargs _ (.here hbetween)) hends

end Machine

/-- Indexing is exact: it has a value if and only if the variable holds a list and the position is a
number whose exact value is a natural number below the length. The value is the item there, which is
also what the variable gives when it is looked up again after the position was evaluated. So only
missing arguments make undefined values. Let programs be run one after the other, from the
beginning, in such a way that every call that is entered has an argument for each parameter. Then at
no time a variable in any frame, the value of an expression, or the value whose text is printed is
undefined or holds an item that is. -/
theorem undefined_of_missing_arguments (limit : Nat) (programs : List Program) :
    (∀ (env : Environment) (name : String) (position : Expr) (span : Span) (value : Value),
      (Expr.index name position span).eval env = .ok value ↔
        ∃ (items : List Value) (n : Float) (k : Nat), env.get? name = some (.list items) ∧
          position.eval env = .ok (.number n) ∧ n.isFinite = true ∧ exactValue n = k ∧
          ∃ _ : k < items.length, value = items[k] ∧ value = env.itemAt name k) ∧
    ((∀ config, Machine.initial.Occurs limit programs config → config.SuppliesArguments limit) →
      ∀ config, Machine.initial.Occurs limit programs config →
        config.machine.env.LacksUndefined ∧
        (∀ (expr : Expr) value, expr.eval config.machine.env = .ok value → value.LacksUndefined) ∧
        ∀ line, config.line? = some line → ∃ expr span rest value,
          config.tasks = .statement (.print expr span) :: rest ∧
            expr.eval config.machine.env = .ok value ∧ value.LacksUndefined ∧
              line = value.display) := by
  constructor
  · intro env name position span value
    rw [Expr.eval_index_eq_ok_iff]
    constructor
    · rintro ⟨items, n, k, hname, hposition, hk, hitem⟩
      obtain ⟨hfinite, hvalue⟩ := toNat?_eq_some_iff.mp hk
      obtain ⟨hlt, rfl⟩ := List.getElem?_eq_some_iff.mp hitem
      refine ⟨items, n, k, hname, hposition, hfinite, hvalue, hlt, rfl, ?_⟩
      exact (Environment.itemAt_of_lt hname hlt).symm
    · rintro ⟨items, n, k, hname, hposition, hfinite, hvalue, hlt, rfl, -⟩
      exact ⟨items, n, k, hname, hposition, toNat?_eq_some_iff.mpr ⟨hfinite, hvalue⟩,
        List.getElem?_eq_getElem hlt⟩
  · intro hargs config hoccurs
    have hlacks := hoccurs.lacksUndefined Environment.lacksUndefined_empty hargs
    have hvalues : ∀ (expr : Expr) value, expr.eval config.machine.env = .ok value →
        value.LacksUndefined := fun _ _ => Expr.lacksUndefined_eval hlacks
    refine ⟨hlacks, hvalues, fun line hline => ?_⟩
    obtain ⟨expr, span, rest, value, htasks, hvalue, rfl⟩ := Config.exists_of_line?_eq_some hline
    exact ⟨expr, span, rest, value, htasks, hvalue, hvalues expr value hvalue, rfl⟩

/-- A function that prints the first item of what it is given, called with a list. -/
def printsFirst : Program where
  body :=
    [.function "first" ["items"]
      [.print (.index "items" (.number 0 ⟨32, 33⟩) ⟨26, 34⟩) ⟨20, 34⟩] ⟨0, 36⟩,
      .call "first" [.array [.string "tea" ⟨44, 49⟩] ⟨43, 50⟩] ⟨37, 51⟩]

/-- The call has an argument for its parameter, so nothing in the run is undefined. The function
prints an item that is there. -/
theorem undefined_of_missing_arguments_first :
    (∀ config, Machine.initial.Occurs 1 [printsFirst] config → config.SuppliesArguments 1) ∧
    (∀ config, Machine.initial.Occurs 1 [printsFirst] config →
      config.machine.env.LacksUndefined) ∧
    Machine.handedOut (Machine.initial.run 1 printsFirst).1 = ["tea"] := by
  have hsupplied : ∀ config, Machine.initial.Occurs 1 [printsFirst] config →
      config.SuppliesArguments 1 := by
    intro config hoccurs
    cases hoccurs with
    | later hlater => cases hlater
    | here hreaches =>
      -- The run has five configurations, and the call is entered from the second.
      obtain rfl | ⟨_, hnext, hreaches⟩ := Relation.ReflTransGen.cases_head hreaches
      · trivial
      cases hnext
      obtain rfl | ⟨_, hnext, hreaches⟩ := Relation.ReflTransGen.cases_head hreaches
      · intro procedure values hfound _ hvalues
        cases hfound
        cases hvalues
        exact Nat.le_refl 1
      cases hnext
      obtain rfl | ⟨_, hnext, hreaches⟩ := Relation.ReflTransGen.cases_head hreaches
      · trivial
      cases hnext
      obtain rfl | ⟨_, hnext, hreaches⟩ := Relation.ReflTransGen.cases_head hreaches
      · trivial
      cases hnext
      obtain rfl | ⟨_, hnext, hreaches⟩ := Relation.ReflTransGen.cases_head hreaches
      · trivial
      cases hnext
  refine ⟨hsupplied, fun config hoccurs => ?_, by decide +kernel⟩
  exact ((undefined_of_missing_arguments 1 [printsFirst]).2 hsupplied config hoccurs).1

end LineScript
