import LineScript.Proofs.Reading.Indexed
import LineScript.Proofs.Reading.Moves

/-!
# Readers that follow readings

A reader by index follows a reading if it ends where the reading does and with the same result or
fault. It then looks no token up that is not there and needs no more calls and rounds than it is
allowed, since either would be an outcome that no reading has. This holds on lists of tokens that
are cut at their first end (`Ended`), and is shown of composed readers from their parts.
-/

namespace LineScript.Indexed

/-- A list of tokens, cut at its first end. -/
structure Ended where
  /-- The tokens before the end. -/
  body : List Token
  /-- The token for the end. -/
  stop : Token
  /-- The tokens beyond the end. -/
  beyond : List Token
  /-- The end is the first one. -/
  kind_ne : ∀ token ∈ body, token.kind ≠ .eof
  /-- The end is one. -/
  kind_stop : stop.kind = .eof

namespace Ended

variable (source : Ended) {index : Nat}

/-- All tokens. -/
def tokens : List Token :=
  source.body ++ source.stop :: source.beyond

/-- The token at an index up to the end. -/
def token (index : Nat) : Token :=
  source.body.getD index source.stop

/-- The position before the token at an index up to the end. -/
def cursor (index : Nat) : Cursor :=
  ⟨(source.body.take index).getLast?, source.body.drop index⟩

theorem getElem?_tokens (h : index ≤ source.body.length) :
    source.tokens[index]? = some (source.token index) := by
  rcases Nat.lt_or_eq_of_le h with hlt | rfl
  · rw [tokens, List.getElem?_append_left hlt, Ended.token, List.getD_eq_getElem _ _ hlt]
    exact List.getElem?_eq_getElem hlt
  · simp [tokens, Ended.token]

theorem rest_cursor_of_lt (h : index < source.body.length) :
    (source.cursor index).rest = source.token index :: (source.cursor (index + 1)).rest := by
  simp [cursor, Ended.token, h]

theorem last_cursor (h : index < source.body.length) :
    (source.cursor (index + 1)).last? = some (source.token index) := by
  rw [cursor, ← List.take_append_getElem h, Ended.token, List.getD_eq_getElem _ _ h]
  exact List.getLast?_concat

theorem rest_cursor_length : (source.cursor source.body.length).rest = [] := by
  simp [cursor]

theorem cursor_eq (h : index < source.body.length) :
    source.cursor index =
      ⟨(source.cursor index).last?, source.token index :: (source.cursor (index + 1)).rest⟩ := by
  rw [← source.rest_cursor_of_lt h]

theorem cursor_succ (h : index < source.body.length) :
    source.cursor (index + 1) = ⟨some (source.token index), (source.cursor (index + 1)).rest⟩ := by
  rw [← source.last_cursor h]

theorem kind_token_ne (h : index < source.body.length) : (source.token index).kind ≠ .eof := by
  rw [Ended.token, List.getD_eq_getElem _ _ h]
  exact source.kind_ne _ (List.getElem_mem h)

theorem kind_token_length : (source.token source.body.length).kind = .eof := by
  simpa [Ended.token] using source.kind_stop

theorem kind_token (h : index ≤ source.body.length) :
    (source.token index).kind = (source.cursor index).kind := by
  rcases Nat.lt_or_eq_of_le h with hlt | rfl
  · rw [source.cursor_eq hlt, Cursor.kind]
  · rw [Cursor.kind, source.rest_cursor_length, source.kind_token_length]

/-- Only the end is no token to read. -/
theorem lt_of_kind_ne (h : index ≤ source.body.length) (hkind : (source.cursor index).kind ≠ .eof) :
    index < source.body.length := by
  rcases Nat.lt_or_eq_of_le h with hlt | rfl
  · exact hlt
  · rw [Cursor.kind, source.rest_cursor_length] at hkind
    exact absurd rfl hkind

theorem kind_cursor_ne (h : index < source.body.length) : (source.cursor index).kind ≠ .eof := by
  rw [← source.kind_token h.le]
  exact source.kind_token_ne h

theorem place_cursor_of_lt (h : index < source.body.length) (span : Span) :
    (source.cursor index).place span = (source.token index).span := by
  rw [source.cursor_eq h, Cursor.place]

theorem place_cursor_length :
    (source.cursor source.body.length).place source.stop.span =
      if 0 < source.body.length then
        Span.single (source.token (source.body.length - 1)).span.stop
      else source.stop.span := by
  rw [Cursor.place, source.rest_cursor_length]
  rcases Nat.eq_zero_or_pos source.body.length with hzero | hpos
  · have hnone : (source.cursor source.body.length).last? = none := by
      rw [cursor, List.length_eq_zero_iff.mp hzero]
      rfl
    rw [hnone, if_neg (Nat.not_lt.mpr hzero.le)]
  · have hlast := source.last_cursor (Nat.sub_one_lt_of_lt hpos)
    rw [Nat.sub_add_cancel hpos] at hlast
    rw [hlast, if_pos hpos]

/-- Tokens that lead from one index to another are as many as lie between the two. -/
theorem eq_add_of_leads {from' to' : Nat} {read : List Token} (hfrom : from' ≤ source.body.length)
    (hto : to' ≤ source.body.length) (h : (source.cursor from').Leads read (source.cursor to')) :
    to' = from' + read.length := by
  have hlength := congrArg List.length h.rest
  simp only [cursor, List.length_append, List.length_drop] at hlength
  omega

end Ended

/-- A call that ended went on and not beyond the end, closed the levels it opened, and if it gave a
result then it went on by a token at least. -/
structure Visit.Sound (visit : Visit) (last : Nat) : Prop where
  /-- The index has not gone back. -/
  forward : visit.enter ≤ visit.leave
  /-- The index has not gone beyond the end. -/
  within : visit.leave ≤ last
  /-- As many levels are open as before. -/
  depth_eq : visit.leaveDepth = visit.enterDepth
  /-- A result is of tokens. -/
  advanced : visit.gave = true → visit.enter < visit.leave

/-- A state at an index up to the end, which has come there token by token. -/
structure Stands (source : Ended) (depth index : Nat) (state : State) : Prop where
  /-- The index is this one. -/
  index_eq : state.index = index
  /-- It is not beyond the end. -/
  within : index ≤ source.body.length
  /-- As many levels are open. -/
  depth_eq : state.depth = depth
  /-- The index went up one by one. -/
  trail_eq : state.trail = (List.range (index + 1)).reverse
  /-- All calls were as they should be. -/
  visits : ∀ visit ∈ state.visits, visit.Sound source.body.length

variable {source : Ended} {α β σ : Type} {depth index : Nat}

/-- The outcome of a reading and that of a reader are the same one, further on than `index`. -/
inductive Agrees (source : Ended) (depth index : Nat) :
    Except Refusal (α × Cursor) → Except Stop α × State → Prop
  | ok {a : α} {last : Nat} {state : State} : index ≤ last → Stands source depth last state →
      Agrees source depth index (.ok (a, source.cursor last)) (.ok a, state)
  | error {refusal : Refusal} {last : Nat} {state : State} : index ≤ last →
      refusal.cursor = source.cursor last → Stands source depth last state →
        Agrees source depth index (.error refusal)
          (.error (.fault (refusal.fault source.stop.span)), state)

/-- A reader at an index does what a reading does at the position there. -/
def Follows (source : Ended) (depth index : Nat) (reading : Reading α) (reader : Reader α) : Prop :=
  ∀ state, Stands source depth index state →
    Agrees source depth index (reading (source.cursor index)) (reader source.tokens state)

/-! ### Rules -/

theorem Agrees.weaken {first : Nat} {outcome : Except Refusal (α × Cursor)}
    {result : Except Stop α × State} (hfirst : index ≤ first)
    (h : Agrees source depth first outcome result) : Agrees source depth index outcome result := by
  cases h with
  | ok hlast hstands => exact .ok (hfirst.trans hlast) hstands
  | error hlast hcursor hstands => exact .error (hfirst.trans hlast) hcursor hstands

/-- What a reading is followed by may be replaced where it does the same. -/
theorem Follows.congr {reading reading' : Reading α} {reader : Reader α}
    (h : Follows source depth index reading reader)
    (heq : reading' (source.cursor index) = reading (source.cursor index)) :
    Follows source depth index reading' reader := by
  intro state hstate
  rw [heq]
  exact h state hstate

theorem follows_pure (a : α) : Follows source depth index (pure a) (pure a) :=
  fun _ hstate => .ok le_rfl hstate

theorem bind_run (reader : Reader α) (next : α → Reader β) (tokens : List Token) (state : State) :
    (reader >>= next) tokens state =
      match reader tokens state with
      | (.ok a, last) => next a tokens last
      | (.error stop, last) => (.error stop, last) := by
  change (StateT.bind (reader tokens) (ExceptT.bindCont fun a => next a tokens)) state = _
  rw [StateT.bind]
  generalize reader tokens state = result
  rcases result with ⟨_ | _, _⟩ <;> rfl

/-- A sequence follows a sequence. -/
theorem Follows.bind {reading : Reading α} {reader : Reader α} {next : α → Reading β}
    {rnext : α → Reader β} (h : Follows source depth index reading reader)
    (hnext : ∀ a last, Follows source depth last (next a) (rnext a)) :
    Follows source depth index (reading >>= next) (reader >>= rnext) := by
  intro state hstate
  have hagrees := h state hstate
  rw [bind_run]
  cases hresult : reading (source.cursor index) with
  | error refusal =>
    rw [hresult] at hagrees
    rw [Reading.bind_of_error hresult]
    generalize reader source.tokens state = result at hagrees
    cases hagrees with
    | error hlast hcursor hstands => exact .error hlast hcursor hstands
  | ok pair =>
    obtain ⟨a, after⟩ := pair
    rw [hresult] at hagrees
    rw [Reading.bind_of_ok hresult]
    generalize reader source.tokens state = result at hagrees
    cases hagrees with
    | ok hlast hstands => exact (hnext a _ _ hstands).weaken hlast

/-- A reader that only looks, and does not go on, may come first. -/
theorem Follows.bind_of_run {reading : Reading β} {reader : Reader α} {rnext : α → Reader β} {a : α}
    (hrun : ∀ state, Stands source depth index state → reader source.tokens state = (.ok a, state))
    (h : Follows source depth index reading (rnext a)) :
    Follows source depth index reading (reader >>= rnext) := by
  intro state hstate
  rw [bind_run, hrun state hstate]
  exact h state hstate

/-! ### Tokens -/

theorem read_run (tokens : List Token) (state : State) :
    (read : Reader (List Token)) tokens state = (.ok tokens, state) := rfl

theorem get_run (tokens : List Token) (state : State) :
    (get : Reader State) tokens state = (.ok state, state) := rfl

section

variable {state : State} (hstate : Stands source depth index state)

include hstate

omit hstate in
theorem look_run {other : Nat} (h : other ≤ source.body.length) :
    look other source.tokens state = (.ok (source.token other), state) := by
  rw [look, bind_run, read_run]
  dsimp only
  rw [source.getElem?_tokens h]
  rfl

theorem peek_run : peek source.tokens state = (.ok (source.token index), state) := by
  rw [peek, bind_run, get_run]
  dsimp only
  rw [hstate.index_eq, look_run hstate.within]

theorem kind_run : kind source.tokens state = (.ok (source.cursor index).kind, state) := by
  rw [kind, bind_run, peek_run hstate, ← source.kind_token hstate.within]
  rfl

theorem atEnd_run :
    atEnd source.tokens state = (.ok (decide ((source.cursor index).kind = .eof)), state) := by
  rw [atEnd, bind_run, kind_run hstate]
  rfl

theorem check_run {expected : Token.Kind} (hne : expected ≠ .eof) :
    check expected source.tokens state =
      (.ok (decide ((source.cursor index).kind = expected)), state) := by
  rw [check, bind_run, atEnd_run hstate]
  dsimp only
  split
  next hend =>
    -- At the end the answer is no, and the end is not of the expected kind either.
    have hother : (source.cursor index).kind ≠ expected := by
      rw [of_decide_eq_true hend]
      exact hne.symm
    rw [decide_eq_false hother]
    rfl
  next =>
    rw [bind_run, kind_run hstate]
    rfl

/-- Where there is a token to come, the index goes on to the next one. -/
theorem advance_run (h : index < source.body.length) :
    ∃ last, advance source.tokens state = (.ok (source.token index), last) ∧
      Stands source depth (index + 1) last := by
  have hend : (source.cursor index).kind ≠ .eof := source.kind_cursor_ne h
  have hlast : Stands source depth (index + 1)
      { state with index := state.index + 1, trail := (state.index + 1) :: state.trail } :=
    { index_eq := congrArg (· + 1) hstate.index_eq
      within := h
      depth_eq := hstate.depth_eq
      trail_eq := by
        rw [hstate.index_eq, hstate.trail_eq, List.range_succ (n := index + 1), List.reverse_concat]
      visits := hstate.visits }
  refine ⟨_, ?_, hlast⟩
  rw [advance, bind_run, atEnd_run hstate, decide_eq_false hend]
  change previous source.tokens _ = _
  rw [previous, bind_run, get_run]
  -- What is looked up is the token just passed.
  have hindex : state.index + 1 - 1 = index := hstate.index_eq
  dsimp only
  rw [hindex]
  exact look_run h.le

theorem peekNext_run (h : index < source.body.length) :
    peekNext source.tokens state = (.ok (source.token (index + 1)), state) := by
  rw [peekNext, bind_run, read_run]
  dsimp only
  rw [bind_run, get_run]
  dsimp only
  rw [hstate.index_eq, source.getElem?_tokens h]
  rfl

theorem place_run :
    place source.tokens state =
      (.ok ((source.cursor index).place source.stop.span), state) := by
  rw [place, bind_run, peek_run hstate]
  dsimp only
  rw [bind_run, get_run]
  dsimp only
  rw [source.kind_token hstate.within, hstate.index_eq]
  rcases Nat.lt_or_eq_of_le hstate.within with hlt | rfl
  · rw [if_neg fun h => source.kind_cursor_ne hlt h.1, source.place_cursor_of_lt hlt]
    rfl
  · have hend : (source.cursor source.body.length).kind = .eof := by
      rw [Cursor.kind, source.rest_cursor_length]
    rw [source.place_cursor_length, hend]
    -- There may be no token before the end.
    simp only [true_and]
    split
    · rw [bind_run, look_run (Nat.sub_le _ 1)]
      rfl
    · rw [Ended.token, List.getD_eq_default _ _ le_rfl]
      rfl

end

/-- What is refused is refused for the same cause at the same place. -/
theorem follows_refuse (cause : Token.Kind → Cause) (help : Option String) :
    Follows source depth index (Reading.refuse cause help : Reading α) (refuse cause help) := by
  intro state hstate
  rw [refuse, bind_run, kind_run hstate]
  dsimp only
  rw [bind_run, place_run hstate]
  exact .error le_rfl rfl hstate

/-- The token that is read is the one at the index. -/
theorem follows_token_bind (h : index < source.body.length) {next : Token → Reading α}
    {rnext : Token → Reader α}
    (hnext : Follows source depth (index + 1) (next (source.token index))
      (rnext (source.token index))) :
    Follows source depth index (Reading.token >>= next) (advance >>= rnext) := by
  intro state hstate
  obtain ⟨last, hrun, hlast⟩ := advance_run hstate h
  rw [bind_run, hrun, source.cursor_eq h, Reading.token_bind, ← source.cursor_succ h]
  exact (hnext last hlast).weaken (Nat.le_succ index)

theorem follows_expect {expected : Token.Kind} (hne : expected ≠ .eof) (construct : Construct)
    (help : Option String) :
    Follows source depth index (Reading.expect expected construct help)
      (expect expected construct help) := by
  intro state hstate
  rw [Reading.expect, expect, bind_run, check_run hstate hne]
  by_cases hkind : (source.cursor index).kind = expected
  · have hlt := source.lt_of_kind_ne hstate.within (hkind ▸ hne)
    obtain ⟨last, hrun, hlast⟩ := advance_run hstate hlt
    rw [if_pos hkind, decide_eq_true hkind, source.cursor_eq hlt, Reading.token]
    dsimp only
    rw [if_pos rfl, hrun, ← source.cursor_succ hlt]
    exact .ok (Nat.le_succ index) hlast
  · rw [if_neg hkind, decide_eq_false hkind]
    exact follows_refuse (.expected expected construct) help state hstate

theorem follows_skip {expected : Token.Kind} (hne : expected ≠ .eof) :
    Follows source depth index (Reading.skip expected) (skip expected) := by
  intro state hstate
  rw [skip, bind_run, check_run hstate hne]
  dsimp only
  by_cases hkind : (source.cursor index).kind = expected
  · have hlt := source.lt_of_kind_ne hstate.within (hkind ▸ hne)
    obtain ⟨last, hrun, hlast⟩ := advance_run hstate hlt
    have htoken : (source.token index).kind = expected := (source.kind_token hlt.le).trans hkind
    rw [decide_eq_true hkind, if_pos rfl, bind_run, hrun, source.cursor_eq hlt, Reading.skip]
    dsimp only
    rw [if_pos htoken, ← source.cursor_succ hlt]
    exact .ok (Nat.le_succ index) hlast
  · rw [decide_eq_false hkind, if_neg Bool.false_ne_true]
    have hsame : Reading.skip expected (source.cursor index) =
        .ok (false, source.cursor index) := by
      rcases Nat.lt_or_eq_of_le hstate.within with hlt | rfl
      · rw [source.cursor_eq hlt, Reading.skip]
        exact if_neg fun h => hkind ((source.kind_token hlt.le).symm.trans h)
      · rw [Reading.skip, source.rest_cursor_length]
    rw [hsame]
    exact .ok le_rfl hstate

/-- A reading that begins with a look at the kind of the token to come. -/
theorem Follows.kind_bind {next : Token.Kind → Reading α} {reader : Reader α}
    (h : Follows source depth index (next (source.cursor index).kind) reader) :
    Follows source depth index (Reading.kind >>= next) reader :=
  h.congr rfl

theorem follows_kind_bind {next : Token.Kind → Reading α} {rnext : Token.Kind → Reader α}
    (h : Follows source depth index (next (source.cursor index).kind)
      (rnext (source.cursor index).kind)) :
    Follows source depth index (Reading.kind >>= next) (kind >>= rnext) :=
  .bind_of_run (fun _ hstate => kind_run hstate) h.kind_bind

/-- A reading that begins with a look at the token to come. -/
theorem Follows.peek_bind (hindex : index < source.body.length) {next : Option Token → Reading α}
    {reader : Reader α} (h : Follows source depth index (next (some (source.token index))) reader) :
    Follows source depth index (Reading.peek? >>= next) reader := by
  refine h.congr ?_
  rw [source.cursor_eq hindex]
  rfl

theorem follows_check_ite {expected : Token.Kind} (hne : expected ≠ .eof) {yes no : Reading α}
    {ryes rno : Reader α} (hyes : Follows source depth index yes ryes)
    (hno : Follows source depth index no rno) :
    Follows source depth index (Reading.kind >>= fun head => if head = expected then yes else no)
      (check expected >>= fun there => if there then ryes else rno) := by
  refine .bind_of_run (fun _ hstate => check_run hstate hne) (.kind_bind ?_)
  by_cases hkind : (source.cursor index).kind = expected
  · rw [if_pos hkind, decide_eq_true hkind]
    exact hyes
  · rw [if_neg hkind, decide_eq_false hkind]
    exact hno

/-- After a token there is another one, or the end, which is no parenthesis. -/
theorem follows_atCall_ite (h : index < source.body.length) {yes no : Reading α}
    {ryes rno : Reader α} (hyes : Follows source depth index yes ryes)
    (hno : Follows source depth index no rno) :
    Follows source depth index (Reading.atCall >>= fun call => if call then yes else no)
      (peekNext >>= fun token => if token.kind = .leftParen then ryes else rno) := by
  refine .bind_of_run (fun _ hstate => peekNext_run hstate h) ?_
  have hatCall : Reading.atCall (source.cursor index) =
      .ok (decide ((source.token (index + 1)).kind = .leftParen), source.cursor index) := by
    rw [Reading.atCall, source.rest_cursor_of_lt h, List.drop_one, List.tail_cons]
    rcases Nat.lt_or_eq_of_le (Nat.succ_le_of_lt h) with hlt | hlast
    · rw [source.rest_cursor_of_lt hlt]
      rfl
    · rw [← Nat.succ_eq_add_one, hlast, source.rest_cursor_length, source.kind_token_length]
      rfl
  by_cases hkind : (source.token (index + 1)).kind = .leftParen
  · rw [if_pos hkind]
    refine hyes.congr ?_
    rw [Reading.bind_of_ok hatCall, decide_eq_true hkind]
    rfl
  · rw [if_neg hkind]
    refine hno.congr ?_
    rw [Reading.bind_of_ok hatCall, decide_eq_false hkind]
    rfl

/-! ### Control -/

/-- The state of a reader at an index, but for the number of open levels. -/
theorem Stands.withDepth {state : State} (h : Stands source depth index state) (other : Nat) :
    Stands source other index { state with depth := other } :=
  ⟨h.index_eq, h.within, rfl, h.trail_eq, h.visits⟩

/-- One level further in, where the counter says that a level may be opened if one may. -/
theorem follows_nested {deeper : Option (Reading α)} {body : Reading α → Reading β}
    {reader : Reader β} (hopen : deeper.isSome ↔ depth < Reading.nestingLimit)
    (h : ∀ inner, deeper = some inner → Follows source (depth + 1) index (body inner) reader) :
    Follows source depth index (Reading.nested deeper body) (nested reader) := by
  intro state hstate
  rw [nested, bind_run, get_run]
  dsimp only
  rw [hstate.depth_eq]
  cases deeper with
  | none =>
    rw [if_pos (Nat.not_lt.mp fun hlt => nomatch hopen.mpr hlt), Reading.nested]
    exact follows_refuse _ _ state hstate
  | some inner =>
    rw [if_neg (Nat.not_le.mpr (hopen.mp rfl)), Reading.nested]
    -- Whatever comes out of it, the level that was opened is closed.
    have hagrees := h inner rfl _ (hstate.withDepth (depth + 1))
    rw [← hstate.depth_eq] at hagrees ⊢
    generalize body inner (source.cursor index) = outcome at hagrees ⊢
    generalize reader source.tokens { state with depth := state.depth + 1 } = result at hagrees ⊢
    cases hagrees with
    | ok hlast hstands => exact .ok hlast ⟨hstands.index_eq, hstands.within,
        congrArg (· - 1) hstands.depth_eq, hstands.trail_eq, hstands.visits⟩
    | error hlast hcursor hstands => exact .error hlast hcursor ⟨hstands.index_eq, hstands.within,
        congrArg (· - 1) hstands.depth_eq, hstands.trail_eq, hstands.visits⟩

theorem Stands.record {state : State} (h : Stands source depth index state) {visit : Visit}
    (hvisit : visit.Sound source.body.length) :
    Stands source depth index { state with visits := visit :: state.visits } :=
  ⟨h.index_eq, h.within, h.depth_eq, h.trail_eq, List.forall_mem_cons.mpr ⟨hvisit, h.visits⟩⟩

/-- The call of a reader that goes on if it gives something is as it should be. -/
theorem Follows.watched {reading : Reading α} {reader : Reader α}
    (h : Follows source depth index reading reader) (hcomposed : Reading.Composed 1 reading) :
    Follows source depth index reading (watched reader) := by
  intro state hstate
  have hagrees := h state hstate
  have hmoved := hcomposed.moves (source.cursor index)
  rw [Indexed.watched]
  generalize reading (source.cursor index) = outcome at hagrees hmoved
  generalize reader source.tokens state = result at hagrees
  cases hagrees with
  | @ok a last final hlast hstands =>
    -- The index went on by as many tokens as the reading consumed.
    obtain ⟨read, hleads, hleast⟩ := hmoved
    have hindex := source.eq_add_of_leads hstate.within hstands.within hleads
    refine .ok hlast (hstands.record ⟨?_, ?_, ?_, fun _ => ?_⟩)
    · exact hstate.index_eq.le.trans (hlast.trans hstands.index_eq.ge)
    · exact hstands.index_eq.le.trans hstands.within
    · exact hstands.depth_eq.trans hstate.depth_eq.symm
    · dsimp only
      rw [hstate.index_eq, hstands.index_eq]
      omega
  | error hlast hcursor hstands =>
    refine .error hlast hcursor (hstands.record ⟨?_, ?_, ?_, nofun⟩)
    · exact hstate.index_eq.le.trans (hlast.trans hstands.index_eq.ge)
    · exact hstands.index_eq.le.trans hstands.within
    · exact hstands.depth_eq.trans hstate.depth_eq.symm

/-- A step that has something to add has consumed a token. -/
def Advances (step : Reading (Option σ)) : Prop :=
  ∀ cursor next after, step cursor = .ok (some next, after) →
    after.rest.length < cursor.rest.length

/-- A repetition of steps that advance needs no more rounds than there are tokens to come, and one
for its end. -/
theorem follows_iterate {step : σ → Reading (Option σ)} {rstep : σ → Reader (Option σ)}
    (hadvances : ∀ next, Advances (step next))
    (hstep : ∀ next last, Follows source depth last (step next) (rstep next)) {rounds : Nat}
    (hrounds : source.body.length < rounds + index) (first : σ) :
    Follows source depth index (Reading.iterate step first) (repeated rstep rounds first) := by
  -- The index is further on in every round, so there is a round left at each of them.
  induction rounds generalizing index first with
  | zero =>
    intro state hstate
    exact absurd hstate.within (by omega)
  | succ rounds ih =>
    intro state hstate
    have hagrees := hstep first index state hstate
    rw [repeated, bind_run]
    cases hresult : step first (source.cursor index) with
    | error refusal =>
      rw [Reading.iterate_of_refusal hresult]
      rw [hresult] at hagrees
      generalize rstep first source.tokens state = result at hagrees
      cases hagrees with
      | error hlast hcursor hstands => exact .error hlast hcursor hstands
    | ok pair =>
      obtain ⟨next?, after⟩ := pair
      rw [hresult] at hagrees
      cases next? with
      | none =>
        rw [Reading.iterate_of_stop hresult]
        generalize rstep first source.tokens state = result at hagrees
        cases hagrees with
        | ok hlast hstands => exact .ok hlast hstands
      | some next =>
        have hshorter := hadvances first _ _ _ hresult
        rw [Reading.iterate_of_step hresult hshorter]
        generalize rstep first source.tokens state = result at hagrees
        cases hagrees with
        | @ok _ last final hlast hstands =>
          have hless : index < last := by
            simp only [Ended.cursor, List.length_drop] at hshorter
            omega
          exact (ih (by omega) next final hstands).weaken hlast

end LineScript.Indexed
