import LineScript.Proofs.Grammar.Exact
import LineScript.Proofs.Grammar.Spans
import LineScript.Proofs.Scan.Lossless

/-!
# Spans of syntax trees are well nested

A node covers its children, and children that follow one another have no byte in common. Only the
items of a list literal share the span of their literal. This is shown of derivations from tokens
that come one after the other, where it is a matter of rows: nodes that were read from neighbouring
tokens follow one another as the tokens do.
-/

namespace LineScript

open Text

namespace Span

/-- A span ends before another one starts, or where it does. -/
def Before (left right : Span) : Prop :=
  left.stop ≤ right.start

/-- A span lies in another one. -/
def Within (inner outer : Span) : Prop :=
  outer.start ≤ inner.start ∧ inner.stop ≤ outer.stop

theorem within_cover_right (left right : Span) : right.Within (left.cover right) :=
  ⟨Nat.min_le_right _ _, Nat.le_max_right _ _⟩

theorem within_cover_left (left right : Span) : left.Within (left.cover right) :=
  ⟨Nat.min_le_left _ _, Nat.le_max_left _ _⟩

/-- What comes after one span and does not pass the end of another lies in the span that covers
both. -/
theorem within_cover {left inner right : Span} (hleft : left.start < left.stop)
    (hafter : left.Before inner) (hend : inner.stop ≤ right.stop) :
    inner.Within (left.cover right) := by
  simp only [Before, Within, cover] at *
  omega

/-- What comes before a span that is not empty ends before that span does. -/
theorem Before.stop_le {left right : Span} (h : left.Before right)
    (hright : right.start < right.stop) : left.stop ≤ right.stop :=
  Nat.le_trans h (Nat.le_of_lt hright)

theorem cover_nonempty {left : Span} (h : left.start < left.stop) (right : Span) :
    (left.cover right).start < (left.cover right).stop := by
  simp only [cover]
  omega

end Span

namespace Node

/-- A list literal. -/
def isArray : Node → Bool
  | .expr (.array _ _) => true
  | _ => false

/-- The span of a node is not empty and fits those of its children. -/
structure WellNested (node : Node) : Prop where
  /-- It is not empty. -/
  nonempty : node.span.start < node.span.stop
  /-- It contains the spans of the children. -/
  contains : ∀ child ∈ node.children, child.span.Within node.span
  /-- The children come one after the other, unless they are the items of a list literal. -/
  ordered : node.isArray = false →
    node.children.Pairwise fun left right => left.span.Before right.span
  /-- The items of a list literal have its span. -/
  shared : node.isArray = true → ∀ child ∈ node.children, child.span = node.span

/-- A node without children is well nested if it covers anything. -/
theorem wellNested_of_leaf {node : Node} (hspan : node.span.start < node.span.stop)
    (hchildren : node.children = []) : node.All WellNested := by
  refine all_of_children ⟨hspan, ?_, fun _ => ?_, fun _ => ?_⟩ ?_
  all_goals simp [hchildren]

end Node

theorem Span.Between.mono {first second : List Token} {span : Span} (h : span.Between first)
    (hsubset : first ⊆ second) : span.Between second := by
  obtain ⟨⟨token, htoken, hstart⟩, other, hother, hstop⟩ := h
  exact ⟨⟨token, hsubset htoken, hstart⟩, other, hsubset hother, hstop⟩

namespace Grammar

/-- Tokens that cover something and come one after the other. -/
structure InOrder (tokens : List Token) : Prop where
  /-- Every token covers something. -/
  nonempty : ∀ token ∈ tokens, token.span.start < token.span.stop
  /-- A token ends before the next one starts. -/
  ordered : tokens.Pairwise fun left right => left.span.Before right.span

namespace InOrder

variable {token : Token} {tokens first second : List Token}

theorem head (h : InOrder (token :: tokens)) : token.span.start < token.span.stop :=
  h.nonempty token List.mem_cons_self

theorem tail (h : InOrder (token :: tokens)) : InOrder tokens :=
  ⟨(List.forall_mem_cons.mp h.nonempty).2, (List.pairwise_cons.mp h.ordered).2⟩

theorem left (h : InOrder (first ++ second)) : InOrder first :=
  ⟨(List.forall_mem_append.mp h.nonempty).1, (List.pairwise_append.mp h.ordered).1⟩

theorem right (h : InOrder (first ++ second)) : InOrder second :=
  ⟨(List.forall_mem_append.mp h.nonempty).2, (List.pairwise_append.mp h.ordered).2.1⟩

end InOrder

/-- Well nested nodes, one after the other, that start and stop where some of the tokens do. -/
structure Row (tokens : List Token) (nodes : List Node) : Prop where
  /-- The nodes and all below them are well nested. -/
  nested : ∀ node ∈ nodes, node.All Node.WellNested
  /-- The nodes start and stop where tokens do. -/
  placed : ∀ node ∈ nodes, node.span.Between tokens
  /-- The nodes come one after the other. -/
  ordered : nodes.Pairwise fun left right => left.span.Before right.span

section

variable {tokens first second : List Token} {nodes more : List Node}

/-- What starts and stops with the earlier tokens comes before what does so with the later ones. -/
theorem before_of_between (h : InOrder (first ++ second)) {left right : Span}
    (hleft : left.Between first) (hright : right.Between second) : left.Before right := by
  obtain ⟨-, token, htoken, hstop⟩ := hleft
  obtain ⟨⟨other, hother, hstart⟩, -⟩ := hright
  have hordered := (List.pairwise_append.mp h.ordered).2.2 token htoken other hother
  rwa [Span.Before, hstop, hstart] at hordered

theorem Row.nil : Row tokens [] :=
  ⟨nofun, nofun, .nil⟩

theorem Row.single {node : Node} (hnested : node.All Node.WellNested)
    (hplaced : node.span.Between tokens) : Row tokens [node] :=
  ⟨List.forall_mem_singleton.mpr hnested, List.forall_mem_singleton.mpr hplaced,
    List.pairwise_singleton _ _⟩

/-- Rows from neighbouring tokens are one row. -/
theorem Row.append (hleft : Row first nodes) (hright : Row second more)
    (h : InOrder (first ++ second)) : Row (first ++ second) (nodes ++ more) where
  nested := List.forall_mem_append.mpr ⟨hleft.nested, hright.nested⟩
  placed := List.forall_mem_append.mpr
    ⟨fun node hmem => Span.Between.mono (hleft.placed node hmem) (List.subset_append_left _ _),
      fun node hmem => Span.Between.mono (hright.placed node hmem) (List.subset_append_right _ _)⟩
  ordered := List.pairwise_append.mpr ⟨hleft.ordered, hright.ordered,
    fun left hmem right hmem' =>
      before_of_between h (hleft.placed left hmem) (hright.placed right hmem')⟩

theorem Row.mono (h : Row first nodes) (hsubset : first ⊆ second) : Row second nodes :=
  ⟨h.nested, fun node hmem => Span.Between.mono (h.placed node hmem) hsubset, h.ordered⟩

/-- A node from a token to the end of some span is well nested if its children are a row that comes
after the token and does not pass that end. -/
theorem Row.wellNested {opener : Token} {close : Span} {root : Node} (h : Row tokens root.children)
    (horder : InOrder (opener :: tokens)) (hspan : root.span = opener.span.cover close)
    (hclose : ∀ child ∈ root.children, child.span.stop ≤ close.stop)
    (harray : root.isArray = false) : root.All Node.WellNested := by
  have hopener : opener.span.start < opener.span.stop := horder.nonempty opener (by simp)
  refine Node.all_of_children ⟨?_, fun child hmem => ?_, fun _ => h.ordered, ?_⟩ h.nested
  · exact hspan ▸ Span.cover_nonempty hopener close
  · have hafter : opener.span.Before child.span :=
      before_of_between (show InOrder ([opener] ++ tokens) from horder)
        (Span.between_of_mem List.mem_cons_self) (h.placed child hmem)
    rw [hspan]
    exact Span.within_cover hopener hafter (hclose child hmem)
  · intro hshared
    rw [harray] at hshared
    cases hshared

/-- A row does not pass the end of what stops with later tokens. -/
theorem Row.stop_le (h : Row first nodes) (horder : InOrder (first ++ second)) {close : Span}
    (hplaced : close.Between second) (hclose : close.start < close.stop) :
    ∀ node ∈ nodes, node.span.stop ≤ close.stop := fun node hmem =>
  (before_of_between horder (h.placed node hmem) hplaced).stop_le hclose

/-- A node that reaches to the end of some span is well nested if its children are a row that was
read before the span began and one that does not pass its end. -/
theorem wellNested_of_rows {opener : Token} {close : Span} {root : Node} (hfirst : Row first nodes)
    (hsecond : Row second more) (horder : InOrder (opener :: (first ++ second)))
    (hplaced : close.Between second) (hclose : close.start < close.stop)
    (hmore : ∀ node ∈ more, node.span.stop ≤ close.stop) (hchildren : root.children = nodes ++ more)
    (hspan : root.span = opener.span.cover close) (harray : root.isArray = false) :
    root.All Node.WellNested := by
  have hrow := hfirst.append hsecond horder.tail
  rw [← hchildren] at hrow
  refine hrow.wellNested horder hspan ?_ harray
  rw [hchildren]
  exact List.forall_mem_append.mpr ⟨hfirst.stop_le horder.tail hplaced hclose, hmore⟩

end

/-! ### Expressions -/

theorem Joined.wellNested {classes : List (List BinaryOperator)} {room : ℕ∞} {read : List Token}
    {expr : Expr} (h : Joined classes room read expr) (horder : InOrder read) :
    (Node.expr expr).All Node.WellNested := by
  induction h with
  | number | string | boolean | identifier => exact Node.wellNested_of_leaf horder.head rfl
  | @array _ token items =>
    -- The items share the span of the literal, so they come one in the other.
    have hitem : ∀ child ∈ (items.map (·.toExpr token.span)).map Node.expr,
        child.span = token.span ∧ child.All Node.WellNested := by
      refine List.forall_mem_map.mpr (List.forall_mem_map.mpr ?_)
      rintro (value | value | value | name) -
      all_goals exact ⟨rfl, Node.wellNested_of_leaf horder.head rfl⟩
    refine Node.all_of_children ⟨horder.head, fun child hmem => ?_, nofun, fun _ child hmem => ?_⟩
      fun child hmem => (hitem child hmem).2
    · rw [(hitem child hmem).1]
      exact ⟨Nat.le_refl _, Nat.le_refl _⟩
    · exact (hitem child hmem).1
  | index _ _ hposition _ ih =>
    have hrow := Row.single (ih horder.tail.tail.left)
      (hposition.placed (List.Subset.refl _) _ .self)
    exact wellNested_of_rows (hrow.mono (List.subset_cons_self _ _)) .nil horder
      (Span.between_of_mem List.mem_cons_self) horder.tail.tail.right.head nofun rfl rfl rfl
  | property => exact Node.wellNested_of_leaf (Span.cover_nonempty horder.head _) rfl
  | group _ _ _ ih => exact ih horder.tail.left
  | unary _ hoperand ih =>
    have hrow := Row.single (ih horder.tail) (hoperand.placed (List.Subset.refl _) _ .self)
    exact hrow.wellNested horder rfl (List.forall_mem_singleton.mpr (Nat.le_refl _)) rfl
  | tighter _ ih => exact ih horder
  | @binary _ _ _ tokens rest sign _ left right hleft _ _ hright ihleft ihright =>
    have hleftRow : Row tokens [.expr left] :=
      .single (ihleft horder.left) (hleft.placed (List.Subset.refl _) _ .self)
    have hrightRow : Row (sign :: rest) [.expr right] :=
      .single (ihright horder.right.tail) (hright.placed (List.subset_cons_self _ _) _ .self)
    have hrow := hleftRow.append hrightRow horder
    have hnonempty := (ihleft horder.left _ .self).nonempty
    exact Node.all_of_children
      ⟨Span.cover_nonempty hnonempty _, List.forall_mem_cons.mpr ⟨Span.within_cover_left _ _,
        List.forall_mem_singleton.mpr (Span.within_cover_right _ _)⟩, fun _ => hrow.ordered, nofun⟩
      hrow.nested

/-- An expression is a row of one node. -/
theorem Joined.row {classes : List (List BinaryOperator)} {room : ℕ∞} {read : List Token}
    {expr : Expr} (h : Joined classes room read expr) (horder : InOrder read) :
    Row read [.expr expr] :=
  .single (h.wellNested horder) (h.placed (List.Subset.refl _) _ .self)

theorem Separated.row {room : ℕ∞} {read : List Token} {args : List Expr}
    (h : Separated (Expression room) read args) (horder : InOrder read) :
    Row read (args.map .expr) := by
  induction h with
  | one hone => exact hone.row horder
  | more _ _ hnext ih =>
    rw [List.map_append]
    exact (ih horder.left).append
      ((hnext.row horder.right.tail).mono (List.subset_cons_self _ _)) horder

theorem Listed.row {room : ℕ∞} {read : List Token} {args : List Expr}
    (h : Listed (Expression room) read args) (horder : InOrder read) :
    Row read (args.map .expr) := by
  cases h with
  | none => exact .nil
  | some hargs => exact hargs.row horder

/-! ### Statements -/

/-- A statement that ends with an expression is well nested. -/
theorem wellNested_of_value {room : ℕ∞} {opener : Token} (before : List Token)
    {tokens : List Token} {value : Expr} {stmt : Stmt} (h : Expression room tokens value)
    (horder : InOrder (opener :: (before ++ tokens)))
    (hchildren : (Node.stmt stmt).children = [.expr value])
    (hspan : stmt.span = opener.span.cover value.span) : (Node.stmt stmt).All Node.WellNested := by
  have hrow : Row (before ++ tokens) [.expr value] :=
    (h.row horder.tail.right).mono (List.subset_append_right _ _)
  rw [← hchildren] at hrow
  refine hrow.wellNested horder hspan ?_ rfl
  rw [hchildren]
  exact List.forall_mem_singleton.mpr (Nat.le_refl _)

mutual

theorem Statement.wellNested {room : ℕ∞} {read : List Token} {stmt : Stmt}
    (h : Statement room read stmt) (horder : InOrder read) :
    (Node.stmt stmt).All Node.WellNested := by
  match h with
  | @Statement.print _ _ colon _ _ _ _ hvalue =>
    exact wellNested_of_value colon hvalue horder rfl rfl
  | @Statement.declare _ _ name sign _ _ _ _ _ _ hvalue =>
    exact wellNested_of_value [name, sign] hvalue horder rfl rfl
  | @Statement.assign _ _ sign _ _ _ _ hvalue =>
    exact wellNested_of_value [sign] hvalue horder rfl rfl
  | @Statement.function _ _ name left right tokens block _ _ _ _ _ _ _ _ hblock =>
    obtain ⟨hrow, hplaced, hclose, hbody⟩ := hblock.row horder.tail.tail.tail.right.tail
    have hfirst : Row (name :: left :: tokens) [] := .nil
    have hsubset := List.subset_cons_self right block
    exact wellNested_of_rows hfirst (hrow.mono hsubset) horder (hplaced.mono hsubset) hclose hbody
      rfl rfl rfl
  | @Statement.branch _ _ left right consequence _ block _ _ _ _ _ hcondition _ _ hblock =>
    obtain ⟨hrow, hplaced, hclose, hbody⟩ := hblock.row horder.tail.tail.right.tail.tail
    have hsubset : block ⊆ right :: consequence :: block := by simp
    have hfirst := (hcondition.row horder.tail.tail.left).mono (List.subset_cons_self left _)
    exact wellNested_of_rows hfirst (hrow.mono hsubset) horder (hplaced.mono hsubset) hclose hbody
      (by simp [Node.children]) rfl rfl
  | @Statement.branchElse _ _ left right consequence alternative _ block other _ _ _ _ _
      _ _ hcondition _ _ hblock _ hother =>
    have hblocks := horder.tail.tail.right.tail.tail
    obtain ⟨hrow, -⟩ := hblock.row hblocks.left
    obtain ⟨hotherRow, hplaced, hclose, hotherBody⟩ := hother.row hblocks.right.tail
    have hother : other ⊆ alternative :: other := List.subset_cons_self _ _
    have hrest : block ++ alternative :: other ⊆
        right :: consequence :: (block ++ alternative :: other) := fun _ hmem => by simp [hmem]
    -- The first block comes before the second, at the end of which the statement ends.
    have hbody := hrow.stop_le hblocks (hplaced.mono hother) hclose
    have hfirst := (hcondition.row horder.tail.tail.left).mono (List.subset_cons_self left _)
    have hsecond := (hrow.append (hotherRow.mono hother) hblocks).mono hrest
    have hlast := List.Subset.trans hother (List.subset_append_right block _)
    exact wellNested_of_rows hfirst hsecond horder (hplaced.mono (List.Subset.trans hlast hrest))
      hclose (List.forall_mem_append.mpr ⟨hbody, hotherBody⟩) rfl rfl rfl
  | @Statement.loop _ _ times _ block _ _ _ _ hcount _ hblock =>
    obtain ⟨hrow, hplaced, hclose, hbody⟩ := hblock.row horder.tail.right.tail
    have hsubset := List.subset_cons_self times block
    exact wellNested_of_rows (hcount.row horder.tail.left) (hrow.mono hsubset) horder
      (hplaced.mono hsubset) hclose hbody rfl rfl rfl
  | @Statement.call _ _ left _ _ _ _ _ hargs _ =>
    have hrow := (hargs.row horder.tail.tail.left).mono (List.subset_cons_self left _)
    exact wellNested_of_rows hrow .nil horder (Span.between_of_mem List.mem_cons_self)
      horder.tail.tail.right.head nofun (by simp [Node.children]) rfl rfl

theorem Statements.row {room : ℕ∞} {read : List Token} {statements : List Stmt}
    (h : Statements room read statements) (horder : InOrder read) :
    Row read (statements.map .stmt) := by
  match h with
  | .none => exact .nil
  | .more hstatements hstatement =>
    rw [List.map_append]
    have hlast := Row.single (hstatement.wellNested horder.right)
      (hstatement.placed (List.Subset.refl _) _ .self)
    exact (hstatements.row horder.left).append hlast horder

/-- The statements of a block are a row, and the block ends after them. -/
theorem Block.row {room : ℕ∞} {read : List Token} {body : List Stmt} {close : Span}
    (h : Block room read body close) (horder : InOrder read) :
    Row read (body.map .stmt) ∧ close.Between read ∧ close.start < close.stop ∧
      ∀ node ∈ body.map Node.stmt, node.span.stop ≤ close.stop := by
  match h with
  | .braces _ hbody _ =>
    have hrow := hbody.row horder.tail.left
    have hclose := horder.tail.right.head
    refine ⟨hrow.mono fun _ hmem => by simp [hmem], Span.between_of_mem (by simp), hclose, ?_⟩
    exact hrow.stop_le horder.tail (Span.between_of_mem List.mem_cons_self) hclose

end

/-- All nodes of a derived program are well nested, and its statements are a row. -/
theorem Derives.row {room : ℕ∞} {read : List Token} {program : Program}
    (h : Derives room read program) (horder : InOrder read) :
    Row read (program.body.map .stmt) := by
  cases h with
  | program _ _ hbody _ _ =>
    exact (hbody.row horder.tail.right.left).mono fun _ hmem => by simp [hmem]

end Grammar

/-! ### Slices of the source -/

/-- What starts where one slice of a source does and stops where another does, if it is not empty,
is a slice itself. -/
theorem Span.exists_isOf_of_ends {source before slice before' slice' : List Char}
    {left right span : Span} (hleft : left.IsOf source before slice)
    (hright : right.IsOf source before' slice') (hstart : left.start = span.start)
    (hstop : right.stop = span.stop) (hne : span.start < span.stop) :
    ∃ covered, span.IsOf source before covered ∧ covered ≠ [] := by
  obtain ⟨hbegins, rfl⟩ := hleft
  obtain ⟨hbegins', rfl⟩ := hright
  have hbefore : before <+: source := (List.prefix_append before slice).trans hbegins
  -- The shorter of the two beginnings of the source is the one at which the span starts.
  rcases List.prefix_or_prefix_of_prefix hbefore hbegins' with ⟨covered, hcovered⟩ | hshorter
  · have hsize : byteSize (before ++ covered) = span.stop := by rw [hcovered, ← hstop]
    refine ⟨covered, ⟨hcovered ▸ hbegins', ?_⟩, ?_⟩
    · rw [hsize, show byteSize before = span.start from hstart]
    · rintro rfl
      rw [List.append_nil] at hsize
      simp only at hstart
      omega
  · have hle := byteSize_le_of_begins hshorter
    simp only at hstart hstop
    omega

/-- Spans of syntax trees are well nested, for every source that can be parsed. The span of a node
is that of a slice of the source that is not empty, it starts where some token does and stops where
some token does, and it is well nested with those of the children. The statements of the program
come one after the other. -/
theorem spans_nested (source : String) (vocabulary : Vocabulary) (parsed : Parsed)
    (h : parse (scan source vocabulary).tokens = .ok parsed) :
    (∀ node, parsed.program.Has node → node.WellNested ∧
      (∃ before slice, node.span.IsOf source.toList before slice ∧ slice ≠ []) ∧
      (∃ token ∈ (scan source vocabulary).tokens, token.kind ≠ .eof ∧
        token.span.start = node.span.start) ∧
      ∃ token ∈ (scan source vocabulary).tokens, token.kind ≠ .eof ∧
        token.span.stop = node.span.stop) ∧
    parsed.program.body.Pairwise fun left right => left.span.Before right.span := by
  have hlossless := lossless_lineTokens source vocabulary
  have hagrees : ∀ token ∈ lineTokens source vocabulary, token.Agrees := fun token hmem =>
    (proper_scan source vocabulary).agrees token (List.mem_append_left _ hmem)
  obtain ⟨stop, heof, htokens⟩ : ∃ stop : Token, stop.kind = .eof ∧
      (scan source vocabulary).tokens = lineTokens source vocabulary ++ [stop] := ⟨_, rfl, rfl⟩
  rw [htokens] at h ⊢
  cases hresult : Reading.program ⟨none, lineTokens source vocabulary⟩ with
  | error refusal =>
    rw [parse_of_error heof hlossless.ne_eof hresult] at h
    cases h
  | ok pair =>
    obtain ⟨program, after⟩ := pair
    rw [parse_of_ok heof hlossless.ne_eof hresult] at h
    obtain rfl : (⟨program, after.rest.length⟩ : Parsed) = parsed := Except.ok.inj h
    dsimp only
    obtain ⟨read, hread, hderives⟩ := (program_ok_iff hagrees).mp ⟨after, hresult⟩
    obtain ⟨rest, hrest⟩ := hread
    have horder : Grammar.InOrder (read ++ rest) := hrest ▸ ⟨hlossless.nonempty, hlossless.ordered⟩
    have hrow := hderives.row horder.left
    refine ⟨fun node hnode => ?_, (List.pairwise_map (f := Node.stmt)).mp hrow.ordered⟩
    obtain ⟨⟨first, hfirst, hstart⟩, last, hlast, hstop⟩ := hderives.between hnode
    have hfirst : first ∈ lineTokens source vocabulary := hrest ▸ List.mem_append_left _ hfirst
    have hlast : last ∈ lineTokens source vocabulary := hrest ▸ List.mem_append_left _ hlast
    have hnested : node.WellNested := by
      obtain ⟨stmt, hstmt, hnode⟩ := hnode
      exact hrow.nested _ (List.mem_map_of_mem hstmt) node hnode
    obtain ⟨before, slice, hslice, -⟩ := hlossless.slices first hfirst
    obtain ⟨before', slice', hslice', -⟩ := hlossless.slices last hlast
    obtain ⟨covered, hcovered⟩ :=
      Span.exists_isOf_of_ends hslice hslice' hstart hstop hnested.nonempty
    exact ⟨hnested, ⟨before, covered, hcovered⟩,
      ⟨first, List.mem_append_left _ hfirst, hlossless.ne_eof first hfirst, hstart⟩,
      ⟨last, List.mem_append_left _ hlast, hlossless.ne_eof last hlast, hstop⟩⟩

/-- A list literal, and a condition on one of its items with two blocks. -/
def twoBlocksSource : String :=
  "start\nxs = [1, true]\njo (xs[0] > 2) to { print (1 + 2) * 3 } nahi to { f(1, 2) }\nend"

/-- The second statement goes from its keyword to the end of its second block. -/
theorem spans_nested_two_blocks :
    ∃ parsed, parse (scan twoBlocksSource .plain).tokens = .ok parsed ∧
      parsed.program.body.map Stmt.span = [⟨6, 20⟩, ⟨21, 80⟩] ∧
      ∀ node, parsed.program.Has node → node.WellNested := by
  have hspans : ((parse (scan twoBlocksSource .plain).tokens).toOption.map
      fun parsed => parsed.program.body.map Stmt.span) = some [⟨6, 20⟩, ⟨21, 80⟩] := by
    decide +kernel
  cases hparse : parse (scan twoBlocksSource .plain).tokens with
  | error fault =>
    rw [hparse] at hspans
    cases hspans
  | ok parsed =>
    rw [hparse] at hspans
    exact ⟨parsed, rfl, Option.some.inj hspans,
      fun node hnode => ((spans_nested _ _ parsed hparse).1 node hnode).1⟩

end LineScript
