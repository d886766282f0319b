import LineScript.Proofs.Grammar.Yields

/-!
# Properties of derivations

A derivation opens only finitely many levels at once, so what the grammar without a limit derives is
derived within some limit, and within every larger one. No derivation uses a token for the end of
the source. Payloads matter to derivations only where a literal stands, so those that do not fit the
kind of their token may be replaced.
-/

namespace LineScript

/-- A token of the same kind whose payload agrees with it. -/
def Token.settled (token : Token) : Token :=
  if token.Agrees then token else { token with payload := token.kind.sample.payload }

@[simp]
theorem Token.kind_settled (token : Token) : token.settled.kind = token.kind := by
  unfold settled
  split <;> rfl

theorem Token.settled_of_agrees {token : Token} (h : token.Agrees) : token.settled = token :=
  if_pos h

theorem Token.agrees_settled (token : Token) : token.settled.Agrees := by
  unfold settled
  split
  · assumption
  · exact token.kind.agrees_sample

namespace Grammar

variable {α : Type}

/-! ### Levels -/

/-- A property of the number of levels that may be opened holds from some number on. -/
def FromSome (P : ℕ∞ → Prop) : Prop :=
  ∃ n : ℕ, ∀ room : ℕ∞, n ≤ room → P room

theorem FromSome.of_forall {P : ℕ∞ → Prop} (h : ∀ room, P room) : FromSome P :=
  ⟨0, fun room _ => h room⟩

theorem FromSome.map {P Q : ℕ∞ → Prop} (h : FromSome P) (himp : ∀ room, P room → Q room) :
    FromSome Q := by
  obtain ⟨n, hn⟩ := h
  exact ⟨n, fun room hroom => himp room (hn room hroom)⟩

theorem FromSome.and {P Q : ℕ∞ → Prop} (hp : FromSome P) (hq : FromSome Q) :
    FromSome fun room => P room ∧ Q room := by
  obtain ⟨n, hn⟩ := hp
  obtain ⟨m, hm⟩ := hq
  refine ⟨max n m, fun room hroom => ⟨hn room ?_, hm room ?_⟩⟩
  · exact le_trans (by exact_mod_cast Nat.le_max_left n m) hroom
  · exact le_trans (by exact_mod_cast Nat.le_max_right n m) hroom

/-- What opens one level more holds from the next number on. -/
theorem FromSome.succ {P Q : ℕ∞ → Prop} (h : FromSome P)
    (himp : ∀ room, P room → Q (room + 1)) : FromSome Q := by
  obtain ⟨n, hn⟩ := h
  refine ⟨n + 1, fun room hroom => ?_⟩
  have hone : 1 ≤ room := le_trans (by simp) hroom
  obtain ⟨inner, rfl⟩ : ∃ inner, room = inner + 1 := ⟨room - 1, (tsub_add_cancel_of_le hone).symm⟩
  refine himp inner (hn inner ?_)
  push_cast at hroom
  exact (ENat.add_le_add_iff_right ENat.one_ne_top).mp hroom

theorem Joined.fromSome {classes : List (List BinaryOperator)} {room : ℕ∞} {tokens : List Token}
    {expr : Expr} (h : Joined classes room tokens expr) :
    FromSome fun room => Joined classes room tokens expr := by
  induction h with
  | number hkind hpayload => exact .of_forall fun _ => .number hkind hpayload
  | string hkind hpayload => exact .of_forall fun _ => .string hkind hpayload
  | boolean hkind hpayload => exact .of_forall fun _ => .boolean hkind hpayload
  | array hkind hpayload => exact .of_forall fun _ => .array hkind hpayload
  | identifier hname => exact .of_forall fun _ => .identifier hname
  | property hname hdot hproperty => exact .of_forall fun _ => .property hname hdot hproperty
  | index hname hleft _ hright ih => exact ih.succ fun _ h => .index hname hleft h hright
  | group hleft _ hright ih => exact ih.succ fun _ h => .group hleft h hright
  | unary hsign _ ih => exact ih.succ fun _ h => .unary hsign h
  | tighter _ ih => exact ih.map fun _ h => .tighter h
  | binary _ hmem hsign _ ihleft ihright =>
    exact (ihleft.and ihright).map fun _ h => .binary h.1 hmem hsign h.2

theorem Separated.fromSome {Item : ℕ∞ → List Token → α → Prop} {room : ℕ∞} {tokens : List Token}
    {items : List α}
    (hitem : ∀ tokens item, Item room tokens item → FromSome fun room => Item room tokens item)
    (h : Separated (Item room) tokens items) :
    FromSome fun room => Separated (Item room) tokens items := by
  induction h with
  | one hone => exact (hitem _ _ hone).map fun _ h => .one h
  | more _ hcomma hnext ih =>
    exact (ih.and (hitem _ _ hnext)).map fun _ h => .more h.1 hcomma h.2

theorem Listed.fromSome {room : ℕ∞} {tokens : List Token} {args : List Expr}
    (h : Listed (Expression room) tokens args) :
    FromSome fun room => Listed (Expression room) tokens args := by
  cases h with
  | none => exact .of_forall fun _ => .none
  | some hargs => exact (hargs.fromSome fun _ _ => Joined.fromSome).map fun _ h => .some h

mutual

theorem Statement.fromSome {room : ℕ∞} {tokens : List Token} {stmt : Stmt}
    (h : Statement room tokens stmt) :
    FromSome fun room => Statement room tokens stmt := by
  match h with
  | .print hkeyword hcolon hvalue =>
    exact hvalue.fromSome.map fun _ h => .print hkeyword hcolon h
  | .declare hkeyword hname hsign hvalue =>
    exact hvalue.fromSome.map fun _ h => .declare hkeyword hname hsign h
  | .assign hname hsign hvalue => exact hvalue.fromSome.map fun _ h => .assign hname hsign h
  | .function hkeyword hname hleft hparams hright hblock =>
    exact hblock.fromSome.map fun _ h => .function hkeyword hname hleft hparams hright h
  | .branch hkeyword hleft hcondition hright hthen hblock =>
    exact (hcondition.fromSome.and hblock.fromSome).map fun _ h =>
      .branch hkeyword hleft h.1 hright hthen h.2
  | .branchElse hkeyword hleft hcondition hright hthen hblock helse hother =>
    exact (hcondition.fromSome.and (hblock.fromSome.and hother.fromSome)).map fun _ h =>
      .branchElse hkeyword hleft h.1 hright hthen h.2.1 helse h.2.2
  | .loop hkeyword hcount htimes hblock =>
    exact (hcount.fromSome.and hblock.fromSome).map fun _ h => .loop hkeyword h.1 htimes h.2
  | .call hname hleft hargs hright =>
    exact hargs.fromSome.map fun _ h => .call hname hleft h hright

theorem Statements.fromSome {room : ℕ∞} {tokens : List Token} {statements : List Stmt}
    (h : Statements room tokens statements) :
    FromSome fun room => Statements room tokens statements := by
  match h with
  | .none => exact .of_forall fun _ => .none
  | .more hstatements hstatement =>
    exact (hstatements.fromSome.and hstatement.fromSome).map fun _ h => .more h.1 h.2

theorem Block.fromSome {room : ℕ∞} {tokens : List Token} {body : List Stmt} {close : Span}
    (h : Block room tokens body close) :
    FromSome fun room => Block room tokens body close := by
  match h with
  | .braces hleft hbody hright =>
    exact hbody.fromSome.succ fun _ h => .braces hleft h hright

end

/-- What is derived at all is derived within some limit, and within every larger one. -/
theorem Derives.fromSome {room : ℕ∞} {tokens : List Token} {program : Program}
    (h : Derives room tokens program) :
    FromSome fun room => Derives room tokens program := by
  obtain ⟨hstart, hcolon, hbody, hfinish, hlast⟩ := h
  exact hbody.fromSome.map fun _ h => .program hstart hcolon h hfinish hlast

/-! ### The end of the source -/

theorem Optional.kind_ne_eof {kind : Token.Kind} {tokens : List Token} (h : Optional kind tokens)
    (hkind : kind ≠ .eof) : ∀ token ∈ tokens, token.kind ≠ .eof := by
  cases h with
  | absent => simp
  | present htoken => simpa [htoken] using hkind

theorem Joined.kind_ne_eof {classes : List (List BinaryOperator)} {room : ℕ∞}
    {tokens : List Token} {expr : Expr} (h : Joined classes room tokens expr) :
    ∀ token ∈ tokens, token.kind ≠ .eof := by
  induction h with
  | number hkind _ | string hkind _ | boolean hkind _ | array hkind _ | identifier hkind =>
    simp [hkind]
  | property hname hdot hproperty => simp [hname, hdot, hproperty]
  | index hname hleft _ hright ih =>
    simpa [hname, hleft, hright, or_imp, forall_and] using ih
  | group hleft _ hright ih => simpa [hleft, hright, or_imp, forall_and] using ih
  | unary hsign _ ih => simpa [hsign, UnaryOperator.kind_ne_eof] using ih
  | tighter _ ih => exact ih
  | binary _ _ hsign _ ihleft ihright =>
    simpa [hsign, BinaryOperator.kind_ne_eof, or_imp, forall_and] using ⟨ihleft, ihright⟩

theorem Separated.kind_ne_eof {Item : List Token → α → Prop} {tokens : List Token}
    {items : List α}
    (hitem : ∀ tokens item, Item tokens item → ∀ token ∈ tokens, token.kind ≠ .eof)
    (h : Separated Item tokens items) : ∀ token ∈ tokens, token.kind ≠ .eof := by
  induction h with
  | one hone => exact hitem _ _ hone
  | more _ hcomma hnext ih =>
    simpa [hcomma, or_imp, forall_and] using ⟨ih, hitem _ _ hnext⟩

theorem Listed.kind_ne_eof {Item : List Token → α → Prop} {tokens : List Token} {items : List α}
    (hitem : ∀ tokens item, Item tokens item → ∀ token ∈ tokens, token.kind ≠ .eof)
    (h : Listed Item tokens items) : ∀ token ∈ tokens, token.kind ≠ .eof := by
  cases h with
  | none => simp
  | some hitems => exact hitems.kind_ne_eof hitem

theorem Parameter.kind_ne_eof {tokens : List Token} {param : Token} (h : Parameter tokens param) :
    ∀ token ∈ tokens, token.kind ≠ .eof := by
  cases h with
  | name htoken => simp [htoken]

mutual

theorem Statement.kind_ne_eof {room : ℕ∞} {tokens : List Token} {stmt : Stmt}
    (h : Statement room tokens stmt) : ∀ token ∈ tokens, token.kind ≠ .eof := by
  match h with
  | .print hkeyword hcolon hvalue =>
    simpa [hkeyword, or_imp, forall_and] using
      ⟨hcolon.kind_ne_eof (by decide), hvalue.kind_ne_eof⟩
  | @Statement.declare _ _ _ _ _ _ isList hkeyword hname hsign hvalue =>
    have hne : (if isList then Token.Kind.declareList else .declare) ≠ .eof := by
      cases isList <;> decide
    simpa [hkeyword, hname, hsign, hne] using hvalue.kind_ne_eof
  | .assign hname hsign hvalue => simpa [hname, hsign] using hvalue.kind_ne_eof
  | .function hkeyword hname hleft hparams hright hblock =>
    simpa [hkeyword, hname, hleft, hright, or_imp, forall_and] using
      ⟨hparams.kind_ne_eof fun _ _ => Parameter.kind_ne_eof, hblock.kind_ne_eof⟩
  | .branch hkeyword hleft hcondition hright hthen hblock =>
    simpa [hkeyword, hleft, hright, hthen, or_imp, forall_and] using
      ⟨hcondition.kind_ne_eof, hblock.kind_ne_eof⟩
  | .branchElse hkeyword hleft hcondition hright hthen hblock helse hother =>
    simpa [hkeyword, hleft, hright, hthen, helse, or_imp, forall_and] using
      ⟨hcondition.kind_ne_eof, hblock.kind_ne_eof, hother.kind_ne_eof⟩
  | .loop hkeyword hcount htimes hblock =>
    simpa [hkeyword, htimes, or_imp, forall_and] using
      ⟨hcount.kind_ne_eof, hblock.kind_ne_eof⟩
  | .call hname hleft hargs hright =>
    simpa [hname, hleft, hright, or_imp, forall_and] using
      hargs.kind_ne_eof fun _ _ => Joined.kind_ne_eof

theorem Statements.kind_ne_eof {room : ℕ∞} {tokens : List Token} {statements : List Stmt}
    (h : Statements room tokens statements) : ∀ token ∈ tokens, token.kind ≠ .eof := by
  match h with
  | .none => simp
  | .more hstatements hstatement =>
    simpa [or_imp, forall_and] using ⟨hstatements.kind_ne_eof, hstatement.kind_ne_eof⟩

theorem Block.kind_ne_eof {room : ℕ∞} {tokens : List Token} {body : List Stmt} {close : Span}
    (h : Block room tokens body close) : ∀ token ∈ tokens, token.kind ≠ .eof := by
  match h with
  | .braces hleft hbody hright =>
    simpa [hleft, hright, or_imp, forall_and] using hbody.kind_ne_eof

end

/-- No token that a program is derived from marks the end of the source. -/
theorem Derives.kind_ne_eof {room : ℕ∞} {tokens : List Token} {program : Program}
    (h : Derives room tokens program) : ∀ token ∈ tokens, token.kind ≠ .eof := by
  obtain ⟨hstart, hcolon, hbody, hfinish, hlast⟩ := h
  simpa [hstart, hfinish, or_imp, forall_and] using
    ⟨hcolon.kind_ne_eof (by decide), hbody.kind_ne_eof, hlast.kind_ne_eof (by decide)⟩

/-! ### Payloads that agree -/

theorem Optional.settle {kind : Token.Kind} {tokens : List Token} (h : Optional kind tokens) :
    Optional kind (tokens.map Token.settled) := by
  cases h with
  | absent => exact .absent
  | present htoken => exact .present (by simpa using htoken)

/-- A literal agrees with its token already. -/
theorem payload_settled {token : Token} {kind : Token.Kind} {payload : Token.Payload}
    (hkind : token.kind = kind) (hpayload : token.payload = payload)
    (hfits : kind.fits payload = true) : token.settled.payload = payload := by
  have hagrees : token.Agrees := by rwa [Token.Agrees, hkind, hpayload]
  rw [Token.settled_of_agrees hagrees, hpayload]

theorem Joined.settle {classes : List (List BinaryOperator)} {room : ℕ∞} {tokens : List Token}
    {expr : Expr} (h : Joined classes room tokens expr) :
    ∃ other, Joined classes room (tokens.map Token.settled) other := by
  induction h with
  | number hkind hpayload =>
    exact ⟨_, .number (by simpa using hkind) (payload_settled hkind hpayload rfl)⟩
  | string hkind hpayload =>
    exact ⟨_, .string (by simpa using hkind) (payload_settled hkind hpayload rfl)⟩
  | boolean hkind hpayload =>
    exact ⟨_, .boolean (by simpa using hkind) (payload_settled hkind hpayload rfl)⟩
  | array hkind hpayload =>
    exact ⟨_, .array (by simpa using hkind) (payload_settled hkind hpayload rfl)⟩
  | identifier hname => exact ⟨_, .identifier (by simpa using hname)⟩
  | property hname hdot hproperty =>
    exact ⟨_, .property (by simpa using hname) (by simpa using hdot) (by simpa using hproperty)⟩
  | @index _ name left right _ _ hname hleft _ hright ih =>
    obtain ⟨position, hposition⟩ := ih
    refine ⟨.index name.settled.text position (name.settled.span.cover right.settled.span), ?_⟩
    simpa using Joined.index (by simpa using hname) (by simpa using hleft) hposition
      (by simpa using hright)
  | @group _ left right _ _ hleft _ hright ih =>
    obtain ⟨inner, hinner⟩ := ih
    refine ⟨inner, ?_⟩
    simpa using Joined.group (by simpa using hleft) hinner (by simpa using hright)
  | unary hsign _ ih =>
    obtain ⟨operand, hoperand⟩ := ih
    exact ⟨_, .unary (by simpa using hsign) hoperand⟩
  | tighter _ ih =>
    obtain ⟨inner, hinner⟩ := ih
    exact ⟨inner, .tighter hinner⟩
  | binary _ hmem hsign _ ihleft ihright =>
    obtain ⟨left, hleft⟩ := ihleft
    obtain ⟨right, hright⟩ := ihright
    rw [List.map_append, List.map_cons]
    exact ⟨_, .binary hleft hmem (by simpa using hsign) hright⟩

theorem Separated.settle {Item : List Token → α → Prop} {tokens : List Token} {items : List α}
    (hitem : ∀ tokens item, Item tokens item → ∃ other, Item (tokens.map Token.settled) other)
    (h : Separated Item tokens items) :
    ∃ others, Separated Item (tokens.map Token.settled) others := by
  induction h with
  | one hone =>
    obtain ⟨other, hother⟩ := hitem _ _ hone
    exact ⟨_, .one hother⟩
  | more _ hcomma hnext ih =>
    obtain ⟨others, hothers⟩ := ih
    obtain ⟨other, hother⟩ := hitem _ _ hnext
    rw [List.map_append, List.map_cons]
    exact ⟨_, .more hothers (by simpa using hcomma) hother⟩

theorem Listed.settle {Item : List Token → α → Prop} {tokens : List Token} {items : List α}
    (hitem : ∀ tokens item, Item tokens item → ∃ other, Item (tokens.map Token.settled) other)
    (h : Listed Item tokens items) : ∃ others, Listed Item (tokens.map Token.settled) others := by
  cases h with
  | none => exact ⟨[], .none⟩
  | some hitems =>
    obtain ⟨others, hothers⟩ := hitems.settle hitem
    exact ⟨others, .some hothers⟩

theorem Parameter.settle {tokens : List Token} {param : Token} (h : Parameter tokens param) :
    ∃ other, Parameter (tokens.map Token.settled) other := by
  cases h with
  | name htoken => exact ⟨_, .name (by simpa using htoken)⟩

mutual

theorem Statement.settle {room : ℕ∞} {tokens : List Token} {stmt : Stmt}
    (h : Statement room tokens stmt) :
    ∃ other, Statement room (tokens.map Token.settled) other := by
  match h with
  | .print hkeyword hcolon hvalue =>
    obtain ⟨value, hvalue⟩ := hvalue.settle
    rw [List.map_cons, List.map_append]
    exact ⟨_, .print (by simpa using hkeyword) hcolon.settle hvalue⟩
  | @Statement.declare _ _ _ _ _ _ isList hkeyword hname hsign hvalue =>
    obtain ⟨value, hvalue⟩ := hvalue.settle
    have hkeyword := (Token.kind_settled _).trans hkeyword
    exact ⟨_, .declare hkeyword (by simpa using hname) (by simpa using hsign) hvalue⟩
  | .assign hname hsign hvalue =>
    obtain ⟨value, hvalue⟩ := hvalue.settle
    exact ⟨_, .assign (by simpa using hname) (by simpa using hsign) hvalue⟩
  | .function hkeyword hname hleft hparams hright hblock =>
    obtain ⟨params, hparams⟩ := hparams.settle fun _ _ => Parameter.settle
    obtain ⟨body, close, hblock⟩ := hblock.settle
    simp only [List.map_cons, List.map_append]
    exact ⟨_, .function (by simpa using hkeyword) (by simpa using hname) (by simpa using hleft)
      hparams (by simpa using hright) hblock⟩
  | .branch hkeyword hleft hcondition hright hthen hblock =>
    obtain ⟨condition, hcondition⟩ := hcondition.settle
    obtain ⟨body, close, hblock⟩ := hblock.settle
    simp only [List.map_cons, List.map_append]
    exact ⟨_, .branch (by simpa using hkeyword) (by simpa using hleft) hcondition
      (by simpa using hright) (by simpa using hthen) hblock⟩
  | .branchElse hkeyword hleft hcondition hright hthen hblock helse hother =>
    obtain ⟨condition, hcondition⟩ := hcondition.settle
    obtain ⟨body, close, hblock⟩ := hblock.settle
    obtain ⟨other, lastClose, hother⟩ := hother.settle
    simp only [List.map_cons, List.map_append]
    exact ⟨_, .branchElse (by simpa using hkeyword) (by simpa using hleft) hcondition
      (by simpa using hright) (by simpa using hthen) hblock (by simpa using helse) hother⟩
  | .loop hkeyword hcount htimes hblock =>
    obtain ⟨count, hcount⟩ := hcount.settle
    obtain ⟨body, close, hblock⟩ := hblock.settle
    simp only [List.map_cons, List.map_append]
    exact ⟨_, .loop (by simpa using hkeyword) hcount (by simpa using htimes) hblock⟩
  | .call hname hleft hargs hright =>
    obtain ⟨args, hargs⟩ := hargs.settle fun _ _ => Joined.settle
    simp only [List.map_cons, List.map_append]
    exact ⟨_, .call (by simpa using hname) (by simpa using hleft) hargs (by simpa using hright)⟩

theorem Statements.settle {room : ℕ∞} {tokens : List Token} {statements : List Stmt}
    (h : Statements room tokens statements) :
    ∃ others, Statements room (tokens.map Token.settled) others := by
  match h with
  | .none => exact ⟨[], .none⟩
  | .more hstatements hstatement =>
    obtain ⟨others, hothers⟩ := hstatements.settle
    obtain ⟨other, hother⟩ := hstatement.settle
    rw [List.map_append]
    exact ⟨_, .more hothers hother⟩

theorem Block.settle {room : ℕ∞} {tokens : List Token} {body : List Stmt} {close : Span}
    (h : Block room tokens body close) :
    ∃ other lastClose, Block room (tokens.map Token.settled) other lastClose := by
  match h with
  | .braces hleft hbody hright =>
    obtain ⟨body, hbody⟩ := hbody.settle
    simp only [List.map_cons, List.map_append]
    exact ⟨_, _, .braces (by simpa using hleft) hbody (by simpa using hright)⟩

end

/-- Tokens that derive a program also do so once their payloads agree with their kinds. -/
theorem Derives.settle {room : ℕ∞} {tokens : List Token} {program : Program}
    (h : Derives room tokens program) : ∃ other, Derives room (tokens.map Token.settled) other := by
  obtain ⟨hstart, hcolon, hbody, hfinish, hlast⟩ := h
  obtain ⟨body, hbody⟩ := hbody.settle
  simp only [List.map_cons, List.map_append]
  exact ⟨_, .program (by simpa using hstart) hcolon.settle hbody (by simpa using hfinish)
    hlast.settle⟩

end Grammar

end LineScript
