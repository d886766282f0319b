import LineScript.Proofs.Machine.Frames
import Mathlib.Data.List.Induction

/-!
# What an environment keeps of its history

An environment is changed by giving names values and by entering and leaving calls, in any order. A
history of changes is cut at the pushes that no pop undoes (`History.IsOf`), and the frames that are
left are those of its parts (`frames_of_isOf`): each holds what was defined while it was the
innermost one. What follows a push in the history is read from its end, so whether the push is
undone is decided by `surplus`, without a stack.
-/

namespace LineScript.Environment

/-! ### Changes -/

/-- A change of an environment. -/
inductive Change where
  /-- A name is given a value. -/
  | define (name : String) (value : Value)
  /-- A call is entered. -/
  | push (frame : Frame)
  /-- A call is left, if there is one. -/
  | pop

/-- An environment after a change. -/
def apply (env : Environment) : Change → Environment
  | .define name value => env.define name value
  | .push frame => env.push frame
  | .pop => env.pop

/-- An environment after some changes. -/
def replay (env : Environment) (changes : List Change) : Environment :=
  changes.foldl apply env

theorem replay_append (env : Environment) (first second : List Change) :
    env.replay (first ++ second) = (env.replay first).replay second :=
  List.foldl_append

/-! ### Frames under changes -/

/-- A stack of frames after a change, the innermost frame first. The last one is not taken away. -/
def Change.onFrames (frames : List Frame) : Change → List Frame
  | .define name value => frames.modifyHead (·.insert name value)
  | .push frame => frame :: frames
  | .pop => if 1 < frames.length then frames.tail else frames

/-- The frames of an environment are such a stack. -/
theorem frames_apply (env : Environment) (change : Change) :
    (env.apply change).frames = change.onFrames env.frames := by
  obtain ⟨globals, calls⟩ := env
  cases change with
  | define name value => cases calls <;> rfl
  | push frame => rfl
  | pop =>
    cases calls with
    | nil => rfl
    | cons first rest => simp [apply, pop, frames, Change.onFrames]

theorem frames_replay_eq (env : Environment) (changes : List Change) :
    (env.replay changes).frames = changes.foldl Change.onFrames env.frames := by
  induction changes generalizing env with
  | nil => rfl
  | cons change changes ih =>
    rw [List.foldl_cons, ← frames_apply]
    exact ih (env.apply change)

/-- The frame of the program is always there. -/
theorem length_frames (env : Environment) : env.frames.length = env.callDepth + 1 := by
  rw [frames, List.length_append, callDepth, List.length_singleton]

variable {env : Environment} {frame : Frame} {outer : List Frame}

theorem frames_define (h : env.frames = frame :: outer) (name : String) (value : Value) :
    (env.define name value).frames = frame.insert name value :: outer := by
  have hdefine := frames_apply env (.define name value)
  rw [h] at hdefine
  exact hdefine

/-- The frame of the program is never left. -/
theorem pop_of_frames (h : env.frames = [frame]) : env.pop = env := by
  obtain ⟨globals, calls⟩ := env
  cases calls with
  | nil => rfl
  | cons first rest => simp [frames] at h

theorem frames_pop {next : Frame} (h : env.frames = frame :: next :: outer) :
    env.pop.frames = next :: outer := by
  have hpop := frames_apply env .pop
  rw [h] at hpop
  exact hpop

/-! ### Undone pushes -/

/-- The pops of a list of changes that undo no push of it. -/
def surplus : List Change → Nat
  | [] => 0
  | .define _ _ :: later => surplus later
  -- A push is undone by the first pop of what follows it that undoes no push there.
  | .push _ :: later => surplus later - 1
  | .pop :: later => surplus later + 1

/-- The pushes of a list of changes that no pop of it undoes. -/
def standing : List Change → Nat
  | [] => 0
  | .push _ :: later => (if surplus later = 0 then 1 else 0) + standing later
  | .define _ _ :: later | .pop :: later => standing later

/-- Every pop undoes a push, and every push is undone. -/
structure Balanced (changes : List Change) : Prop where
  /-- No pop is left over. -/
  surplus_eq : surplus changes = 0
  /-- No push is left over. -/
  standing_eq : standing changes = 0

/-- Of two lists of changes, pops of the second undo pushes of the first as far as there are any. -/
theorem counts_append (first second : List Change) :
    surplus (first ++ second) = surplus first + (surplus second - standing first) ∧
      standing (first ++ second) = standing second + (standing first - surplus second) := by
  induction first with
  | nil => simp [surplus, standing]
  | cons change first ih =>
    obtain ⟨hsurplus, hstanding⟩ := ih
    cases change with
    | define name value => exact ⟨hsurplus, hstanding⟩
    | pop =>
      simp only [List.cons_append, surplus, standing]
      omega
    | push frame =>
      simp only [List.cons_append, surplus, standing]
      -- The push is undone in the first list, or by the second, or not at all.
      split <;> split <;> omega

/-- A call that is entered and left, with a balanced list of changes in between. -/
theorem Balanced.call {body : List Change} (h : Balanced body) (frame : Frame) :
    Balanced (.push frame :: (body ++ [.pop])) := by
  obtain ⟨hsurplus, hstanding⟩ := counts_append body [.pop]
  rw [h.surplus_eq, h.standing_eq] at hsurplus
  rw [h.standing_eq] at hstanding
  refine ⟨?_, ?_⟩
  · rw [surplus, hsurplus]
    rfl
  · rw [standing, hsurplus, hstanding]
    rfl

/-! ### What a frame holds -/

/-- What is defined outside all calls that are entered meanwhile, if `depth` of them are active at
the beginning. -/
def definitions (depth : Nat) : List Change → List (String × Value)
  | [] => []
  | .define name value :: later =>
    if depth = 0 then (name, value) :: definitions depth later else definitions depth later
  | .push _ :: later => definitions (depth + 1) later
  | .pop :: later => definitions (depth - 1) later

/-- A frame after more definitions. -/
def fill (frame : Frame) (entries : List (String × Value)) : Frame :=
  entries.foldl (fun table entry => table.insert entry.1 entry.2) frame

/-- Names have in a frame what they were given last, and otherwise what they had before. -/
theorem get?_fill (frame : Frame) (entries : List (String × Value)) (name : String) :
    (fill frame entries).get? name = (entries.reverse.lookup name).or (frame.get? name) := by
  induction entries generalizing frame with
  | nil => rfl
  | cons entry entries ih =>
    obtain ⟨key, value⟩ := entry
    have hfill : fill frame ((key, value) :: entries) = fill (frame.insert key value) entries := rfl
    rw [hfill, ih, List.reverse_cons, List.lookup_append, Option.or_assoc]
    congr 1
    by_cases hname : name = key
    · subst hname
      simp
    · have hbeq : (name == key) = false := by simpa using hname
      rw [Table.get?_insert_of_ne _ hname]
      simp [List.lookup_cons, hbeq]

/-- Changes fill a frame with what is defined outside the calls entered above it, as long as it is
not taken away. There are as many frames above it as pushes that were not undone. -/
theorem frames_replay {changes : List Change} (inner : List Frame)
    (h : env.frames = inner ++ frame :: outer)
    (hkept : surplus changes ≤ inner.length ∨ outer = []) :
    ∃ above, above.length = standing changes + (inner.length - surplus changes) ∧
      (env.replay changes).frames =
        above ++ fill frame (definitions inner.length changes) :: outer := by
  induction changes generalizing env inner frame with
  | nil => exact ⟨inner, by simp [standing, surplus], h⟩
  | cons change later ih =>
    cases change with
    | define name value =>
      -- The definition goes into the frame itself or into the first one above it.
      cases inner with
      | nil => exact ih [] (frames_define h name value) hkept
      | cons first inner =>
        exact ih (first.insert name value :: inner) (frames_define h name value) hkept
    | push pushed =>
      have hpushed : (env.push pushed).frames = pushed :: inner ++ frame :: outer :=
        congrArg (pushed :: ·) h
      simp only [surplus] at hkept
      obtain ⟨above, hlength, hframes⟩ := ih (pushed :: inner) hpushed (hkept.imp_left fun hle => by
        rw [List.length_cons]
        omega)
      refine ⟨above, ?_, hframes⟩
      rw [hlength, List.length_cons]
      simp only [standing, surplus]
      split <;> omega
    | pop =>
      simp only [surplus] at hkept
      cases inner with
      | cons first inner =>
        have hpopped : env.pop.frames = inner ++ frame :: outer := by
          cases inner with
          | nil => exact frames_pop h
          | cons next inner => exact frames_pop h
        obtain ⟨above, hlength, hframes⟩ := ih inner hpopped (hkept.imp_left Nat.le_of_succ_le_succ)
        refine ⟨above, ?_, hframes⟩
        rw [hlength, List.length_cons]
        simp only [standing, surplus]
        omega
      | nil =>
        -- Only the frame of the program has no frame above it that is left instead.
        obtain rfl : outer = [] := hkept.resolve_left (by simp)
        obtain ⟨above, hlength, hframes⟩ := ih [] h (.inr rfl)
        have hpop : env.pop = env := pop_of_frames h
        refine ⟨above, ?_, ?_⟩
        · simp only [List.length_nil] at hlength ⊢
          simp only [standing, surplus]
          omega
        · show (env.pop.replay later).frames = _
          rw [hpop]
          exact hframes

/-- Balanced changes fill the innermost frame. -/
theorem frames_replay_of_balanced {changes : List Change} (hchanges : Balanced changes)
    (h : env.frames = frame :: outer) :
    (env.replay changes).frames = fill frame (definitions 0 changes) :: outer := by
  obtain ⟨above, hlength, hframes⟩ :=
    frames_replay [] h (.inl (Nat.le_of_eq hchanges.surplus_eq))
  rw [hchanges.standing_eq, List.length_nil, Nat.zero_sub, List.length_eq_zero_iff] at hlength
  rwa [hlength] at hframes

/-- A call brings back the environment in which it was entered, whatever is defined in it and in the
calls that it makes. -/
theorem replay_call {body : List Change} (h : Balanced body) (env : Environment) (frame : Frame) :
    env.replay (.push frame :: (body ++ [.pop])) = env := by
  have hbody : ((env.push frame).replay body).frames =
      fill frame (definitions 0 body) :: env.frames := frames_replay_of_balanced h rfl
  have hlast : env.replay (.push frame :: (body ++ [.pop])) =
      ((env.push frame).replay body).pop := replay_append (env.push frame) body [.pop]
  rw [hlast]
  exact pop_of_tail_frames (congrArg List.tail hbody)

/-! ### Histories -/

/-- A push that is not undone, and what is done before the next such push. -/
structure Layer where
  /-- The variables that it brings. -/
  frame : Frame
  /-- The changes that follow it. -/
  changes : List Change

namespace Layer

/-- The frame that is left of a layer. -/
def filled (layer : Layer) : Frame :=
  fill layer.frame (definitions 0 layer.changes)

/-- The most recent binding of a name in a layer, if there is one: the last definition outside the
calls in it, or else what the push has brought. -/
def binding? (layer : Layer) (name : String) : Option Value :=
  ((definitions 0 layer.changes).reverse.lookup name).or (layer.frame.get? name)

theorem get?_filled (layer : Layer) (name : String) :
    layer.filled.get? name = layer.binding? name :=
  get?_fill _ _ _

end Layer

/-- A history of changes, cut at the pushes that are not undone. -/
structure History where
  /-- What is done before the first such push. -/
  ground : List Change
  /-- The pushes with what follows each of them, the last one first. -/
  layers : List Layer

namespace History

/-- The changes of a history in their order. -/
def changes (history : History) : List Change :=
  history.layers.foldr (fun layer earlier => earlier ++ .push layer.frame :: layer.changes)
    history.ground

/-- A history is one of the given changes. All pushes on the ground are undone there, where there
may be pops that undo nothing, and what follows each of the other pushes is balanced. -/
structure IsOf (history : History) (changes : List Change) : Prop where
  /-- It consists of the changes. -/
  changes_eq : history.changes = changes
  /-- No push on the ground is left over. -/
  ground : standing history.ground = 0
  /-- No push and no pop of a layer is left over. -/
  layers : ∀ layer ∈ history.layers, Balanced layer.changes

/-- The parts of a history that have left a frame, the innermost first. -/
def present (history : History) : List Layer :=
  history.layers ++ [⟨[], history.ground⟩]

/-- A history with more changes after its last push. -/
def extend (history : History) (more : List Change) : History :=
  match history.layers with
  | [] => ⟨history.ground ++ more, []⟩
  | layer :: outer => ⟨history.ground, ⟨layer.frame, layer.changes ++ more⟩ :: outer⟩

theorem IsOf.extend {history : History} {changes more : List Change} (h : history.IsOf changes)
    (hground : history.layers = [] → standing more = 0)
    (hlayers : history.layers ≠ [] → Balanced more) :
    (history.extend more).IsOf (changes ++ more) := by
  obtain ⟨ground, layers⟩ := history
  obtain ⟨rfl, hsettled, hbalanced⟩ := h
  cases layers with
  | nil =>
    refine ⟨rfl, ?_, hbalanced⟩
    have hmore := hground rfl
    show standing (ground ++ more) = 0
    rw [(counts_append ground more).2, hmore, show standing ground = 0 from hsettled, Nat.zero_sub]
  | cons layer outer =>
    obtain ⟨hlayer, houter⟩ := List.forall_mem_cons.mp hbalanced
    have hmore := hlayers (List.cons_ne_nil _ _)
    have hchanges : History.changes ⟨ground, ⟨layer.frame, layer.changes ++ more⟩ :: outer⟩ =
        History.changes ⟨ground, layer :: outer⟩ ++ more :=
      (List.append_assoc _ (.push layer.frame :: layer.changes) more).symm
    refine ⟨hchanges, hsettled, List.forall_mem_cons.mpr ⟨?_, houter⟩⟩
    obtain ⟨hsurplus, hstanding⟩ := counts_append layer.changes more
    refine ⟨?_, ?_⟩
    · rw [hsurplus, hlayer.surplus_eq, hmore.surplus_eq, Nat.zero_sub]
    · rw [hstanding, hlayer.standing_eq, hmore.standing_eq, Nat.zero_sub]

/-- Every list of changes has a history. -/
theorem exists_isOf (changes : List Change) : ∃ history : History, history.IsOf changes := by
  -- Each change is one more at the end of a history: a push starts a layer, and a pop joins the
  -- last layer, as a call, to the one before it.
  induction changes using List.reverseRecOn with
  | nil => exact ⟨⟨[], []⟩, rfl, rfl, fun _ hmem => absurd hmem List.not_mem_nil⟩
  | append_singleton changes change ih =>
    obtain ⟨history, h⟩ := ih
    cases change with
    | define name value => exact ⟨_, h.extend (fun _ => rfl) fun _ => ⟨rfl, rfl⟩⟩
    | push frame =>
      refine ⟨⟨history.ground, ⟨frame, []⟩ :: history.layers⟩, ?_, h.ground, ?_⟩
      · exact congrArg (· ++ [.push frame]) h.changes_eq
      · exact List.forall_mem_cons.mpr ⟨⟨rfl, rfl⟩, h.layers⟩
    | pop =>
      obtain ⟨ground, layers⟩ := history
      cases layers with
      | nil => exact ⟨_, h.extend (fun _ => rfl) fun hne => absurd rfl hne⟩
      | cons layer outer =>
        obtain ⟨hlayer, houter⟩ := List.forall_mem_cons.mp h.layers
        have hearlier : IsOf ⟨ground, outer⟩ (History.changes ⟨ground, outer⟩) :=
          ⟨rfl, h.ground, houter⟩
        have hcall : Balanced (.push layer.frame :: (layer.changes ++ [.pop])) :=
          hlayer.call layer.frame
        have hextend := hearlier.extend (fun _ => hcall.standing_eq) fun _ => hcall
        have hchanges : History.changes ⟨ground, outer⟩ ++
            .push layer.frame :: (layer.changes ++ [.pop]) = changes ++ [.pop] := by
          rw [← h.changes_eq, ← List.cons_append, ← List.append_assoc]
          rfl
        rw [hchanges] at hextend
        exact ⟨_, hextend⟩

/-- The frames of an environment are those that its history has left. -/
theorem frames_of_isOf {history : History} {changes : List Change} (h : history.IsOf changes) :
    (empty.replay changes).frames = history.present.map Layer.filled := by
  obtain ⟨ground, layers⟩ := history
  obtain ⟨rfl, hground, hlayers⟩ := h
  induction layers with
  | nil =>
    obtain ⟨above, hlength, hframes⟩ :=
      frames_replay [] (show empty.frames = [] ++ [[]] from rfl) (.inr rfl)
    rw [show standing ground = 0 from hground, List.length_nil, Nat.zero_sub,
      List.length_eq_zero_iff] at hlength
    rwa [hlength] at hframes
  | cons layer outer ih =>
    obtain ⟨hlayer, houter⟩ := List.forall_mem_cons.mp hlayers
    have hchanges : History.changes ⟨ground, layer :: outer⟩ =
        History.changes ⟨ground, outer⟩ ++ .push layer.frame :: layer.changes := rfl
    rw [hchanges, replay_append]
    refine (frames_replay_of_balanced hlayer rfl).trans ?_
    exact congrArg (layer.filled :: ·) (ih hground houter)

/-- The value of a name by a history: the most recent binding in the innermost of its frames that
has one. -/
def value? (history : History) (name : String) : Option Value :=
  history.present.findSome? fun layer => layer.binding? name

end History

/-- What an environment keeps of the changes since it had no variables. -/
structure Accounts (env : Environment) (changes : List Change) : Prop where
  /-- Its frames are a stack of which the last frame is never taken away. -/
  stack : env.frames = changes.foldl Change.onFrames [[]]
  nonempty : env.frames ≠ []
  length : env.frames.length = env.callDepth + 1
  /-- The depth is the number of pushes that were not undone. -/
  depth : env.callDepth = standing changes
  /-- A pop outside calls does nothing. -/
  pop_ground : env.callDepth = 0 → env.pop = env
  /-- The changes can be cut at the pushes that were not undone. -/
  history : ∃ history : History, history.IsOf changes
  /-- There is a layer for each of these pushes. -/
  layers : ∀ history : History, history.IsOf changes → history.layers.length = standing changes
  /-- A name has its most recent binding in the innermost frame that is left and has one. -/
  get : ∀ history : History, history.IsOf changes → ∀ name, env.get? name = history.value? name
  /-- A call that is entered now leaves no trace. -/
  call : ∀ frame body, Balanced body → env.replay (.push frame :: (body ++ [.pop])) = env

/-- An environment accounts for every history of changes, pops outside calls included. -/
theorem replay_accounts (changes : List Change) : Accounts (empty.replay changes) changes := by
  have hlength := length_frames (empty.replay changes)
  have hdepth : (empty.replay changes).callDepth = standing changes := by
    obtain ⟨above, habove, hframes⟩ :=
      frames_replay [] (show empty.frames = [] ++ [[]] from rfl) (.inr rfl)
    rw [List.length_nil, Nat.zero_sub, Nat.add_zero] at habove
    rw [hframes, List.length_append, List.length_singleton, habove] at hlength
    exact (Nat.succ.inj hlength).symm
  refine
    { stack := frames_replay_eq empty changes
      nonempty := List.ne_nil_of_length_eq_add_one hlength
      length := hlength
      depth := hdepth
      pop_ground := fun hzero => ?_
      history := History.exists_isOf changes
      layers := fun history h => ?_
      get := fun history h name => ?_
      call := fun frame body hbody => replay_call hbody (empty.replay changes) frame }
  · rw [hzero] at hlength
    obtain ⟨frame, hframe⟩ := List.length_eq_one_iff.mp hlength
    exact pop_of_frames hframe
  · rw [History.frames_of_isOf h, List.length_map, hdepth] at hlength
    rw [History.present, List.length_append, List.length_singleton] at hlength
    exact Nat.succ.inj hlength
  · rw [get?_eq_findSome?_frames, History.frames_of_isOf h, List.findSome?_map, History.value?]
    congr 1
    funext layer
    exact layer.get?_filled name

/-- A pop outside calls does nothing. In a call, a name that the program and a call that is over
have defined is the parameter. -/
theorem replay_shadowed :
    ((empty.replay [.define "x" .undefined, .pop]).callDepth = 0 ∧
      (empty.replay [.define "x" .undefined, .pop]).pop =
        empty.replay [.define "x" .undefined, .pop]) ∧
    ((empty.replay [.define "x" .undefined, .pop, .push [("x", .string "a")], .push [],
          .define "x" (.string "b"), .pop, .define "y" (.string "c")]).get? "x" =
        some (.string "a")) ∧
    ((empty.replay [.define "x" .undefined, .pop]).replay (.push [("x", .string "a")] ::
        ([.push [], .define "x" (.string "b"), .pop, .define "y" (.string "c")] ++ [.pop])) =
      empty.replay [.define "x" .undefined, .pop]) := by
  have hground := replay_accounts [.define "x" .undefined, .pop]
  have hcall := replay_accounts [.define "x" .undefined, .pop, .push [("x", .string "a")],
    .push [], .define "x" (.string "b"), .pop, .define "y" (.string "c")]
  have hbody : Balanced [.push [], .define "x" (.string "b"), .pop, .define "y" (.string "c")] :=
    ⟨rfl, rfl⟩
  have hhistory : History.IsOf ⟨[.define "x" .undefined, .pop], [⟨[("x", .string "a")],
      [.push [], .define "x" (.string "b"), .pop, .define "y" (.string "c")]⟩]⟩ _ :=
    ⟨rfl, rfl, List.forall_mem_singleton.mpr hbody⟩
  exact ⟨⟨rfl, hground.pop_ground rfl⟩, hcall.get _ hhistory "x", hground.call _ _ hbody⟩

end LineScript.Environment
