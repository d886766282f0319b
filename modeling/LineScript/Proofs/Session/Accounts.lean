import LineScript.Session
import Mathlib.Data.List.TakeWhile

/-!
# Sessions account for every line

A session reads its input line by line. This module follows it with the list of its visits: the
lines it read, each with the session that read it. A line plays exactly one of four roles, and what
the session does on it is what the role says (`Visit.Role.done_of_fits`).

The invariant of a session is `Tracked`: its buffer is made of the source lines since it was last
cleared, the first of them is not blank, and the settings are those under which it was typed.
-/

namespace LineScript

/-- What commands other than `:reset` are answered with. -/
def Reaction.IsOfCommand : Reaction → Prop
  | left | switched _ | showed _ _ | unknownSample _ | invalid _ => True
  | ignored | cleared | kept | ran _ _ => False

theorem Transcript.append_empty (transcript : Transcript) : transcript ++ {} = transcript := by
  show Transcript.mk (transcript.out ++ "") (transcript.err ++ "") = transcript
  rw [String.append_empty, String.append_empty]

namespace Session

/-- A line that a session reads. -/
structure Visit where
  /-- The session before the line. -/
  session : Session
  /-- The line as it was read, with the characters that end it. -/
  input : String

namespace Visit

variable (visit : Visit)

/-- The line without the characters that end it. -/
def line : String :=
  withoutLineEnd visit.input

/-- The line as the buffer holds it. -/
def kept : String :=
  visit.line ++ "\n"

/-- What the session does on the line. -/
def reaction : Reaction :=
  (visit.session.react visit.input).1

/-- The session after the line. -/
def next : Session :=
  (visit.session.react visit.input).2

/-- What is shown for the line, with the prompt before it. -/
def transcript : Transcript :=
  { out := visit.session.prompt } ++ visit.reaction.transcript

/-- The line throws away the lines of the program so far. -/
def IsReset : Prop :=
  Text.trim visit.line.toList = ":reset".toList

/-- The line is a command, if it stands where commands are taken. -/
def IsCommand : Prop :=
  Text.trim visit.line.toList ∈ ["exit".toList, "quit".toList] ∨
    (Text.trim visit.line.toList).head? = some ':'

/-- The line closes a program in the vocabulary of the session. -/
def Closes : Prop :=
  closesProgram visit.line visit.session.settings.vocabulary = true

instance : Decidable visit.IsReset :=
  inferInstanceAs (Decidable (_ = _))

instance : Decidable visit.IsCommand :=
  inferInstanceAs (Decidable (_ ∨ _))

instance : Decidable visit.Closes :=
  inferInstanceAs (Decidable (_ = _))

/-- The roles of lines in a session. -/
inductive Role where
  | blank
  | reset
  | command
  | source
deriving DecidableEq, Repr

namespace Role

/-- What makes a line play a role, apart from what is done on it. -/
def Fits (visit : Visit) : Role → Prop
  | blank => visit.session.buffer = "" ∧ Text.isBlankText visit.line.toList = true
  | reset => visit.IsReset
  | command => visit.session.buffer = "" ∧ visit.IsCommand ∧ ¬ visit.IsReset
  | source => ¬ visit.IsReset ∧
      (visit.session.buffer = "" →
        Text.isBlankText visit.line.toList = false ∧ ¬ visit.IsCommand)

/-- What is done on a line that plays a role. -/
def Done (visit : Visit) : Role → Prop
  | blank => visit.reaction = .ignored ∧ visit.next = visit.session
  | reset => visit.reaction = .cleared ∧ visit.next = { visit.session with buffer := "" }
  | command => visit.reaction.IsOfCommand ∧ visit.next.buffer = ""
  | source =>
    let program := visit.session.buffer ++ visit.kept
    (visit.Closes →
      visit.reaction = .ran program (visit.session.settings.execute program) ∧
        visit.next = { visit.session with buffer := "" }) ∧
    (¬ visit.Closes →
      visit.reaction = .kept ∧ visit.next = { visit.session with buffer := program })

instance (visit : Visit) : (role : Role) → Decidable (role.Fits visit)
  | blank => inferInstanceAs (Decidable (_ ∧ _))
  | reset => inferInstanceAs (Decidable visit.IsReset)
  | command => inferInstanceAs (Decidable (_ ∧ _))
  | source => inferInstanceAs (Decidable (_ ∧ (_ → _)))

end Role

/-- The buffer is empty after the line, as the line resets it or completes a program. -/
def Clears : Prop :=
  Role.reset.Fits visit ∨ Role.source.Fits visit ∧ visit.Closes

end Visit

/-! ### Roles -/

namespace Visit

variable {visit : Visit}

theorem trim_of_isBlankText {text : List Char} (h : Text.isBlankText text = true) :
    Text.trim text = [] := by
  have hleft : Text.trimLeft text = [] := List.dropWhile_eq_nil_iff.mpr (List.all_eq_true.mp h)
  rw [Text.trim, hleft]
  rfl

/-- A blank line is neither a command nor `:reset`. -/
theorem not_isCommand_of_blank (h : Text.isBlankText visit.line.toList = true) :
    ¬ visit.IsCommand ∧ ¬ visit.IsReset := by
  rw [IsCommand, IsReset, trim_of_isBlankText h]
  decide

namespace Role

/-- Some role fits every line. -/
theorem exists_fits (visit : Visit) : ∃ role : Role, role.Fits visit := by
  -- What throws away a program is looked at first, since it does so anywhere.
  by_cases hreset : visit.IsReset
  · exact ⟨reset, hreset⟩
  by_cases hbuffer : visit.session.buffer = ""
  · by_cases hblank : Text.isBlankText visit.line.toList = true
    · exact ⟨blank, hbuffer, hblank⟩
    · by_cases hcommand : visit.IsCommand
      · exact ⟨command, hbuffer, hcommand, hreset⟩
      · exact ⟨source, hreset, fun _ => ⟨Bool.eq_false_iff.mpr hblank, hcommand⟩⟩
  · exact ⟨source, hreset, fun hempty => absurd hempty hbuffer⟩

/-- No two roles fit a line. -/
theorem eq_of_fits {role role' : Role} (h : role.Fits visit) (h' : role'.Fits visit) :
    role = role' := by
  -- All other roles exclude each other by what they are.
  have hblank : Text.isBlankText visit.line.toList = true →
      ¬ visit.IsCommand ∧ ¬ visit.IsReset := not_isCommand_of_blank
  cases role <;> cases role' <;> simp_all [Fits]

end Role

end Visit

/-! ### What is done on a line -/

theorem ofLine_of_reset {line : String} (h : Text.trim line.toList = ":reset".toList)
    (buffering : Bool) : Command.ofLine line buffering = .reset := by
  rw [Command.ofLine]
  exact if_pos h

theorem ofLine_of_buffering {line : String} (h : Text.trim line.toList ≠ ":reset".toList) :
    Command.ofLine line true = .source line := by
  rw [Command.ofLine]
  exact (if_neg h).trans (if_pos rfl)

/-- A text that does not start with a colon does not start with the name of a command. -/
theorem after?_eq_none {name text : List Char} (h : text.head? ≠ some ':') :
    Text.after? (':' :: name) text = none := by
  cases hafter : Text.after? (':' :: name) text with
  | none => rfl
  | some rest =>
    have htext := Text.append_of_after? hafter
    exact absurd (by rw [← htext]; rfl) h

/-- Outside a program, a line that is no command is source. -/
theorem ofLine_of_not_command {line : String}
    (hword : Text.trim line.toList ∉ ["exit".toList, "quit".toList])
    (hcolon : (Text.trim line.toList).head? ≠ some ':') :
    Command.ofLine line false = .source line := by
  have hreset : Text.trim line.toList ≠ ":reset".toList := fun h => hcolon (by rw [h]; rfl)
  have hleave :
      ¬ (Text.trim line.toList = "exit".toList ∨ Text.trim line.toList = "quit".toList) := by
    simpa using hword
  have hmode : Text.after? ":mode".toList (Text.trim line.toList) = none := after?_eq_none hcolon
  have hexample : Text.after? ":example".toList (Text.trim line.toList) = none :=
    after?_eq_none hcolon
  simp only [Command.ofLine, hreset, hleave, hmode, hexample, hcolon, if_false, Bool.false_eq_true]

/-- Outside a program, a command other than `:reset` is taken as one. -/
theorem ofLine_of_command {line : String} (hreset : Text.trim line.toList ≠ ":reset".toList)
    (h : Text.trim line.toList ∈ ["exit".toList, "quit".toList] ∨
      (Text.trim line.toList).head? = some ':') :
    Command.ofLine line false ≠ .reset ∧ ∀ source, Command.ofLine line false ≠ .source source := by
  simp only [Command.ofLine, hreset, if_false, Bool.false_eq_true]
  split
  · exact ⟨nofun, nofun⟩
  next hleave =>
    -- What is left starts with a colon.
    have hcolon : (Text.trim line.toList).head? = some ':' :=
      h.resolve_left fun hword => hleave (by simpa using hword)
    split
    · split
      · exact ⟨nofun, nofun⟩
      · exact ⟨nofun, nofun⟩
    · exact ⟨nofun, nofun⟩
    · rw [if_pos hcolon]
      exact ⟨nofun, nofun⟩

/-- What is done on a command. -/
def obey (session : Session) : Command → Reaction × Session
  | .exit => (.left, session)
  | .reset => (.cleared, { session with buffer := "" })
  | .speak vocabulary =>
    (.switched vocabulary, { session with settings := { session.settings with vocabulary } })
  | .sample name =>
    match session.settings.sampleSource? name with
    | some source => (.showed source (session.settings.execute source), session)
    | none => (.unknownSample name, session)
  | .invalid message => (.invalid message, session)
  | .source line => session.take line

/-- A blank line is skipped outside programs, and every other line is obeyed. -/
theorem react_eq (session : Session) (input : String) :
    session.react input =
      if session.buffer = "" ∧ Text.isBlankText (withoutLineEnd input).toList = true then
        (.ignored, session)
      else session.obey (Command.ofLine (withoutLineEnd input) (!session.buffer.isEmpty)) := by
  rw [react]
  generalize withoutLineEnd input = line
  have hskip : (!(!session.buffer.isEmpty) && Text.isBlankText line.toList) = true ↔
      session.buffer = "" ∧ Text.isBlankText line.toList = true := by
    rw [Bool.not_not, Bool.and_eq_true, String.isEmpty_iff]
  simp only [hskip]
  split
  · rfl
  · generalize Command.ofLine line (!session.buffer.isEmpty) = command
    cases command <;> rfl

namespace Visit

variable {visit : Visit}

theorem react_of_blank (h : Role.blank.Fits visit) :
    visit.session.react visit.input = (.ignored, visit.session) := by
  rw [react_eq]
  exact if_pos h

/-- A line that is not skipped is obeyed as what it asks for. -/
theorem react_of_not_blank (h : ¬ Role.blank.Fits visit) {command : Command}
    (hcommand : Command.ofLine visit.line (!visit.session.buffer.isEmpty) = command) :
    visit.session.react visit.input = visit.session.obey command := by
  rw [react_eq, ← hcommand]
  exact if_neg h

theorem ofLine_of_source (h : Role.source.Fits visit) :
    Command.ofLine visit.line (!visit.session.buffer.isEmpty) = .source visit.line := by
  obtain ⟨hreset, hfirst⟩ := h
  by_cases hbuffer : visit.session.buffer = ""
  · obtain ⟨-, hcommand⟩ := hfirst hbuffer
    rw [String.isEmpty_iff.mpr hbuffer]
    exact ofLine_of_not_command (fun hword => hcommand (.inl hword))
      (fun hcolon => hcommand (.inr hcolon))
  · have hempty : visit.session.buffer.isEmpty = false := by
      rw [← Bool.not_eq_true, String.isEmpty_iff]
      exact hbuffer
    rw [hempty]
    exact ofLine_of_buffering hreset

/-- A line with a role other than that of blank lines is not skipped. -/
theorem not_blank_of_fits {role : Role} (h : role.Fits visit) (hrole : role ≠ .blank) :
    ¬ Role.blank.Fits visit :=
  fun hblank => hrole (Role.eq_of_fits h hblank)

/-- On each line is done what its role says. -/
theorem Role.done_of_fits {role : Role} (h : role.Fits visit) : role.Done visit := by
  cases role with
  | blank =>
    have hreact := react_of_blank h
    exact ⟨congrArg Prod.fst hreact, congrArg Prod.snd hreact⟩
  | reset =>
    have hreact := react_of_not_blank (not_blank_of_fits h nofun) (ofLine_of_reset h _)
    exact ⟨congrArg Prod.fst hreact, congrArg Prod.snd hreact⟩
  | command =>
    obtain ⟨hbuffer, hcommand, hreset⟩ := id h
    obtain ⟨hnotReset, hnotSource⟩ := ofLine_of_command hreset hcommand
    have hreact := react_of_not_blank (not_blank_of_fits h nofun) rfl
    rw [String.isEmpty_iff.mpr hbuffer, Bool.not_true] at hreact
    rw [Done, reaction, next, hreact]
    -- Whatever the command is, it is neither of the two that touch the buffer.
    generalize Command.ofLine visit.line false = command at hnotReset hnotSource
    cases command with
    | exit => exact ⟨trivial, hbuffer⟩
    | reset => exact absurd rfl hnotReset
    | speak vocabulary => exact ⟨trivial, hbuffer⟩
    | sample name =>
      rw [obey]
      cases visit.session.settings.sampleSource? name with
      | none => exact ⟨trivial, hbuffer⟩
      | some source => exact ⟨trivial, hbuffer⟩
    | invalid message => exact ⟨trivial, hbuffer⟩
    | source line => exact absurd rfl (hnotSource line)
  | source =>
    have hreact := react_of_not_blank (not_blank_of_fits h nofun) (ofLine_of_source h)
    rw [obey, take, String.append_assoc] at hreact
    refine ⟨fun hcloses => ?_, fun hcloses => ?_⟩
    · have hran := hreact.trans (if_pos hcloses)
      exact ⟨congrArg Prod.fst hran, congrArg Prod.snd hran⟩
    · have hkept := hreact.trans (if_neg hcloses)
      exact ⟨congrArg Prod.fst hkept, congrArg Prod.snd hkept⟩

end Visit

/-! ### The buffer -/

/-- The source lines among some visits. -/
def sources (visits : List Visit) : List Visit :=
  visits.filter fun visit => Visit.Role.source.Fits visit

/-- What a session knows after visits of which none cleared its buffer, if the buffer was empty
before them. -/
structure Collected (since : List Visit) (session : Session) : Prop where
  /-- The buffer holds the source lines in order. -/
  buffer : session.buffer = String.join ((sources since).map Visit.kept)
  /-- The first of them is not blank, and the settings are those under which it was typed. -/
  first : ∀ first ∈ (sources since).head?,
    Text.isBlankText first.line.toList = false ∧ first.session.settings = session.settings

/-- What a session knows after all its visits: the buffer was cleared by the last of some of them,
unless there are none, and the others are those since. -/
def Tracked (history : List Visit) (session : Session) : Prop :=
  ∃ before since, history = before ++ since ∧ (∀ last ∈ before.getLast?, last.Clears) ∧
    (∀ visit ∈ since, ¬ visit.Clears) ∧ Collected since session

theorem collected_nil {session : Session} (h : session.buffer = "") : Collected [] session :=
  ⟨h, by simp [sources]⟩

theorem sources_concat (visits : List Visit) (visit : Visit) :
    sources (visits ++ [visit]) =
      if Visit.Role.source.Fits visit then sources visits ++ [visit] else sources visits := by
  rw [sources, List.filter_append]
  split <;> simp_all [sources]

/-- Source lines leave something in the buffer. -/
theorem Collected.sources_eq_nil {since : List Visit} {session : Session}
    (h : Collected since session) (hbuffer : session.buffer = "") : sources since = [] := by
  have hjoin := h.buffer.symm.trans hbuffer
  cases hsources : sources since with
  | nil => rfl
  | cons visit visits => simp [hsources, Visit.kept] at hjoin

namespace Visit

variable {visit : Visit} {since : List Visit}

theorem not_source_of_fits {role : Role} (h : role.Fits visit) (hrole : role ≠ .source) :
    ¬ Role.source.Fits visit :=
  fun hsource => hrole (Role.eq_of_fits h hsource)

/-- A line that clears the buffer leaves it empty. -/
theorem buffer_next_of_clears (h : visit.Clears) : visit.next.buffer = "" := by
  rcases h with hreset | ⟨hsource, hcloses⟩
  · rw [(Role.done_of_fits hreset).2]
  · rw [((Role.done_of_fits hsource).1 hcloses).2]

/-- A line that does not clear the buffer adds itself, if it is source. -/
theorem collected_next (h : Collected since visit.session) (hclears : ¬ visit.Clears) :
    Collected (since ++ [visit]) visit.next := by
  obtain ⟨role, hrole⟩ := Role.exists_fits visit
  have hdone := Role.done_of_fits hrole
  cases role with
  | blank =>
    have hsources : sources (since ++ [visit]) = sources since :=
      (sources_concat since visit).trans (if_neg (not_source_of_fits hrole nofun))
    rw [hdone.2]
    exact ⟨hsources ▸ h.buffer, hsources ▸ h.first⟩
  | reset => exact absurd (.inl hrole) hclears
  | command =>
    -- Commands stand where no source line was kept, and keep none.
    have hsources : sources (since ++ [visit]) = [] := by
      rw [sources_concat, if_neg (not_source_of_fits hrole nofun), h.sources_eq_nil hrole.1]
    refine ⟨?_, ?_⟩
    · rw [hsources, hdone.2]
      rfl
    · rw [hsources]
      exact nofun
  | source =>
    have hcloses : ¬ visit.Closes := fun hcloses => hclears (.inr ⟨hrole, hcloses⟩)
    have hsources : sources (since ++ [visit]) = sources since ++ [visit] :=
      (sources_concat since visit).trans (if_pos hrole)
    rw [(hdone.2 hcloses).2]
    refine ⟨?_, ?_⟩
    · rw [hsources, List.map_append, String.join_append, ← h.buffer]
      simp
    · rw [hsources]
      cases hfirst : sources since with
      | cons first rest =>
        have hkept := h.first
        rw [hfirst] at hkept
        exact hkept
      | nil =>
        -- The line is the first of its program, so it stands where blank lines are skipped.
        have hbuffer : visit.session.buffer = "" := by
          rw [h.buffer, hfirst]
          rfl
        intro first hmem
        obtain rfl : visit = first := by simpa using hmem
        exact ⟨(hrole.2 hbuffer).1, rfl⟩

/-- What a session knows is carried over every line. -/
theorem tracked_next {history : List Visit} (h : Tracked history visit.session) :
    Tracked (history ++ [visit]) visit.next := by
  obtain ⟨before, since, rfl, hbefore, hsince, hcollected⟩ := h
  by_cases hclears : visit.Clears
  · -- No visit is since the line.
    refine ⟨before ++ since ++ [visit], [], (List.append_nil _).symm, ?_, List.forall_mem_nil _,
      collected_nil (buffer_next_of_clears hclears)⟩
    intro last hlast
    obtain rfl : visit = last := by simpa using hlast
    exact hclears
  · refine ⟨before, since ++ [visit], List.append_assoc _ _ _, hbefore, ?_,
      collected_next hcollected hclears⟩
    intro other hmem
    rcases List.mem_append.mp hmem with hearlier | hlast
    · exact hsince other hearlier
    · rw [List.mem_singleton.mp hlast]
      exact hclears

end Visit

/-! ### All lines of an input -/

/-- The lines that a session reads from an input: all up to the one that ends it, or up to the first
that is no text. -/
def visits (session : Session) : List (Option String) → List Visit
  | [] | none :: _ => []
  | some input :: inputs =>
    let visit : Visit := ⟨session, input⟩
    match visit.reaction with
    | .left => [visit]
    | _ => visit :: visit.next.visits inputs

/-- The session after some visits. -/
def after (session : Session) (visits : List Visit) : Session :=
  (visits.getLast?.map Visit.next).getD session

/-- How a session ends after some visits: with what is left of the input unread, and with what is
shown at the end. -/
inductive Ends (session : Session) (visits : List Visit) : List (Option String) → Transcript → Prop
  | left {visit : Visit} {unread : List (Option String)} : visit ∈ visits.getLast? →
      visit.reaction = .left → Ends session visits unread {}
  | finished : Ends session visits [] { out := (session.after visits).prompt ++ "\n" }
  | unreadable {unread : List (Option String)} :
      Ends session visits (none :: unread)
        ({ out := (session.after visits).prompt } ++ Session.unreadable)

theorem visits_of_left {session : Session} {input : String} {inputs : List (Option String)}
    (h : (Visit.mk session input).reaction = .left) :
    session.visits (some input :: inputs) = [⟨session, input⟩] := by
  simp only [visits, h]

theorem visits_of_ne_left {session : Session} {input : String} {inputs : List (Option String)}
    (h : (Visit.mk session input).reaction ≠ .left) :
    session.visits (some input :: inputs) =
      ⟨session, input⟩ :: (Visit.mk session input).next.visits inputs := by
  rw [visits]
  split
  · contradiction
  · rfl

/-- What a session knows holds before every line that it reads. -/
theorem tracked_of_mem_visits {session : Session} {inputs : List (Option String)}
    {history earlier later : List Visit} {visit : Visit} (h : Tracked history session)
    (hvisits : session.visits inputs = earlier ++ visit :: later) :
    Tracked (history ++ earlier) visit.session := by
  induction inputs generalizing history session earlier with
  | nil => simp [visits] at hvisits
  | cons input inputs ih =>
    cases input with
    | none => simp [visits] at hvisits
    | some input =>
      cases earlier with
      | nil =>
        -- The line is the first one that is read.
        have hsession : visit.session = session := by
          by_cases hleft : (Visit.mk session input).reaction = .left
          · rw [visits_of_left hleft] at hvisits
            rw [← (List.cons.inj hvisits).1]
          · rw [visits_of_ne_left hleft] at hvisits
            rw [← (List.cons.inj hvisits).1]
        rw [List.append_nil, hsession]
        exact h
      | cons first earlier =>
        by_cases hleft : (Visit.mk session input).reaction = .left
        · simp [visits_of_left hleft] at hvisits
        · rw [visits_of_ne_left hleft] at hvisits
          obtain ⟨rfl, hrest⟩ := List.cons.inj hvisits
          have hnext : Tracked (history ++ [⟨session, input⟩]) _ := Visit.tracked_next h
          rw [List.append_cons]
          exact ih hnext hrest

theorem play_of_left {session : Session} {input : String} {inputs : List (Option String)}
    (h : (Visit.mk session input).reaction = .left) :
    session.play (some input :: inputs) = (Visit.mk session input).transcript := by
  have hreaction : (session.react input).1 = .left := h
  rw [play, Visit.transcript, h]
  simp only [hreaction]

theorem play_of_ne_left {session : Session} {input : String} {inputs : List (Option String)}
    (h : (Visit.mk session input).reaction ≠ .left) :
    session.play (some input :: inputs) =
      (Visit.mk session input).transcript ++ (Visit.mk session input).next.play inputs := by
  rw [play]
  dsimp only
  split
  · contradiction
  · rfl

/-- A line that does not end the session leaves its end to the lines that follow. -/
theorem Ends.cons {visit : Visit} {visits : List Visit} {unread : List (Option String)}
    {ending : Transcript} (h : Ends visit.next visits unread ending) :
    Ends visit.session (visit :: visits) unread ending := by
  have hafter : after visit.session (visit :: visits) = after visit.next visits := by
    rw [after, after, List.getLast?_cons]
    cases visits.getLast? <;> rfl
  cases h with
  | left hlast hleft =>
    refine .left ?_ hleft
    rw [List.getLast?_cons, hlast]
    rfl
  | finished =>
    rw [← hafter]
    exact .finished
  | unreadable =>
    rw [← hafter]
    exact .unreadable

/-- A session reads its input in order until it ends, and shows what it does on each line. -/
theorem exists_ends (session : Session) (inputs : List (Option String)) :
    ∃ unread ending,
      inputs = (session.visits inputs).map (fun visit => some visit.input) ++ unread ∧
      Ends session (session.visits inputs) unread ending ∧
      session.play inputs =
        ((session.visits inputs).map Visit.transcript).foldr (· ++ ·) ending := by
  induction inputs generalizing session with
  | nil => exact ⟨[], _, rfl, .finished, rfl⟩
  | cons input inputs ih =>
    cases input with
    | none => exact ⟨none :: inputs, _, rfl, .unreadable, rfl⟩
    | some input =>
      by_cases hleft : (Visit.mk session input).reaction = .left
      · rw [visits_of_left hleft, play_of_left hleft]
        refine ⟨inputs, {}, rfl, .left rfl hleft, ?_⟩
        simp [Transcript.append_empty]
      · obtain ⟨unread, ending, hinputs, hends, hplay⟩ := ih (Visit.mk session input).next
        rw [visits_of_ne_left hleft, play_of_ne_left hleft]
        refine ⟨unread, ending, congrArg (some input :: ·) hinputs, hends.cons, ?_⟩
        rw [hplay]
        rfl

/-! ### Programs -/

/-- How a line is accounted for that comes after some visits of which none cleared the buffer, if
the buffer was empty before them. -/
structure Accounted (since : List Visit) (visit : Visit) : Prop where
  /-- The line plays one role and no other. -/
  role : ∃! role : Visit.Role, role.Fits visit
  /-- What is done on the line is what its role says. -/
  done : ∀ role : Visit.Role, role.Fits visit → role.Done visit
  /-- The buffer holds the source lines in order. -/
  buffer : visit.session.buffer = String.join ((sources since).map Visit.kept)
  /-- The first of them is not blank, and it was typed under the settings that are still in
  force. -/
  first : ∀ first ∈ (sources since).head?, Text.isBlankText first.line.toList = false ∧
    first.session.settings = visit.session.settings
  /-- Within a program, the settings stay as they are. -/
  settings : visit.session.buffer ≠ "" → visit.next.settings = visit.session.settings
  /-- A program is run exactly on a source line that closes it. -/
  runs : (∃ program report, visit.reaction = .ran program report) ↔
    Visit.Role.source.Fits visit ∧ visit.Closes
  /-- The program that is run is the buffer with the line, and it is run under the settings under
  which its first line was typed. -/
  ran : ∀ program report, visit.reaction = .ran program report →
    program = String.join ((sources since ++ [visit]).map Visit.kept) ∧
      visit.next.buffer = "" ∧
        ∃ first ∈ (sources since ++ [visit]).head?, report = first.session.settings.execute program

namespace Visit

variable {visit : Visit}

theorem settings_next (h : visit.session.buffer ≠ "") :
    visit.next.settings = visit.session.settings := by
  obtain ⟨role, hrole⟩ := Role.exists_fits visit
  have hdone := Role.done_of_fits hrole
  cases role with
  | blank => exact absurd hrole.1 h
  | reset => rw [hdone.2]
  | command => exact absurd hrole.1 h
  | source =>
    by_cases hcloses : visit.Closes
    · rw [(hdone.1 hcloses).2]
    · rw [(hdone.2 hcloses).2]

/-- Only on a source line that closes a program is one run, and it is the one that the line
closes. -/
theorem of_ran {program : String} {report : Report} (h : visit.reaction = .ran program report) :
    (Role.source.Fits visit ∧ visit.Closes) ∧ program = visit.session.buffer ++ visit.kept ∧
      report = visit.session.settings.execute program ∧ visit.next.buffer = "" := by
  obtain ⟨role, hrole⟩ := Role.exists_fits visit
  have hdone := Role.done_of_fits hrole
  cases role with
  | blank => cases h.symm.trans hdone.1
  | reset => cases h.symm.trans hdone.1
  | command => exact (h ▸ hdone.1 : (Reaction.ran program report).IsOfCommand).elim
  | source =>
    have hcloses : visit.Closes := by
      by_contra hopen
      cases h.symm.trans (hdone.2 hopen).1
    obtain ⟨hran, hnext⟩ := hdone.1 hcloses
    obtain ⟨rfl, rfl⟩ := Reaction.ran.inj (h.symm.trans hran)
    exact ⟨⟨hrole, hcloses⟩, rfl, rfl, by rw [hnext]⟩

theorem exists_ran (hsource : Role.source.Fits visit) (hcloses : visit.Closes) :
    ∃ program report, visit.reaction = .ran program report :=
  ⟨_, _, ((Role.done_of_fits hsource).1 hcloses).1⟩

/-- What a session knows accounts for the next line. -/
theorem accounted_of_collected {since : List Visit} (h : Collected since visit.session) :
    Accounted since visit where
  role := by
    obtain ⟨role, hrole⟩ := Role.exists_fits visit
    exact ⟨role, hrole, fun _ hother => Role.eq_of_fits hother hrole⟩
  done _ hrole := Role.done_of_fits hrole
  buffer := h.buffer
  first := h.first
  settings := settings_next
  runs :=
    ⟨fun ⟨_, _, hran⟩ => (of_ran hran).1, fun ⟨hsource, hcloses⟩ => exists_ran hsource hcloses⟩
  ran program report hran := by
    obtain ⟨-, hprogram, hreport, hbuffer⟩ := of_ran hran
    refine ⟨?_, hbuffer, ?_⟩
    · rw [hprogram, h.buffer, List.map_append, String.join_append]
      simp
    · cases hsources : sources since with
      | nil => exact ⟨visit, rfl, hreport⟩
      | cons first rest =>
        -- The settings are still those of the line that began the program.
        refine ⟨first, rfl, ?_⟩
        rw [(h.first first (by simp [hsources])).2]
        exact hreport

end Visit

end Session

open Session in
/-- A session accounts for every line of its input exactly once. It reads the lines in order until
it ends, and shows what it does on each. Of the visits before a line, the ones since the buffer was
cleared last say what the buffer holds, and each line plays one role: it is a blank line or a
command where no program was begun, or `:reset`, or a source line, which is added to the buffer. A
program is run exactly when the line just added closes it, on the whole buffer and under the
settings under which its first line was typed, and afterwards the buffer is empty. -/
theorem session_accounts (settings : Settings) (inputs : List (Option String)) :
    (∃ unread ending,
      inputs = ((start settings).visits inputs).map (fun visit => some visit.input) ++ unread ∧
      Ends (start settings) ((start settings).visits inputs) unread ending ∧
      (start settings).play inputs =
        (((start settings).visits inputs).map Visit.transcript).foldr (· ++ ·) ending) ∧
    ∀ earlier visit later, (start settings).visits inputs = earlier ++ visit :: later →
      ∃ before since, earlier = before ++ since ∧
        (∀ last ∈ before.getLast?, last.Clears) ∧ (∀ other ∈ since, ¬ other.Clears) ∧
          Accounted since visit := by
  refine ⟨exists_ends (start settings) inputs, fun earlier visit later hvisits => ?_⟩
  have hstart : Tracked [] (start settings) :=
    ⟨[], [], rfl, by simp, List.forall_mem_nil _, collected_nil rfl⟩
  obtain ⟨before, since, hhistory, hbefore, hsince, hcollected⟩ :=
    tracked_of_mem_visits hstart hvisits
  exact ⟨before, since, hhistory, hbefore, hsince, Visit.accounted_of_collected hcollected⟩

open Session in
/-- Inside a program, `exit` is a line of the program, and is run with it. -/
theorem session_accounts_exit_inside_program :
    ∃ visit ∈ (start ⟨.plain, 10⟩).visits [some "start\r\n", some "exit\n", some "end"],
      visit.input = "end" ∧ visit.session.buffer = "start\nexit\n" ∧
        ∃ program report, visit.reaction = .ran program report := by
  let first : Visit := ⟨⟨⟨.plain, 10⟩, ""⟩, "start\r\n"⟩
  let second : Visit := ⟨⟨⟨.plain, 10⟩, "start\n"⟩, "exit\n"⟩
  let third : Visit := ⟨⟨⟨.plain, 10⟩, "start\nexit\n"⟩, "end"⟩
  have hfirst : first.reaction = .kept ∧ first.next = second.session := by
    have hrole : Visit.Role.source.Fits first := by decide +kernel
    obtain ⟨hreaction, hnext⟩ := (Visit.Role.done_of_fits hrole).2 (by decide +kernel)
    exact ⟨hreaction, hnext.trans (by decide +kernel)⟩
  have hsecond : second.reaction = .kept ∧ second.next = third.session := by
    have hrole : Visit.Role.source.Fits second := by decide +kernel
    obtain ⟨hreaction, hnext⟩ := (Visit.Role.done_of_fits hrole).2 (by decide +kernel)
    exact ⟨hreaction, hnext.trans (by decide +kernel)⟩
  have hthird : Visit.Role.source.Fits third ∧ third.Closes := by decide +kernel
  have hreaction : third.reaction ≠ .left := by
    obtain ⟨program, report, hran⟩ := Visit.exists_ran hthird.1 hthird.2
    rw [hran]
    exact nofun
  have hvisits : (start ⟨.plain, 10⟩).visits [some "start\r\n", some "exit\n", some "end"] =
      [first, second] ++ third :: [] := by
    have hkept : first.reaction ≠ .left := by rw [hfirst.1]; exact nofun
    have hkept' : second.reaction ≠ .left := by rw [hsecond.1]; exact nofun
    rw [start, visits_of_ne_left hkept, hfirst.2, visits_of_ne_left hkept', hsecond.2,
      visits_of_ne_left hreaction]
    rfl
  obtain ⟨before, since, -, -, -, haccounted⟩ :=
    (session_accounts ⟨.plain, 10⟩ _).2 [first, second] third [] hvisits
  refine ⟨third, ?_, rfl, rfl, haccounted.runs.mpr hthird⟩
  rw [hvisits]
  simp

end LineScript
