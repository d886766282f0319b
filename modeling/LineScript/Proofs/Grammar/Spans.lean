import LineScript.Proofs.Grammar
import LineScript.Proofs.Program.Nodes

/-!
# Spans of derived trees

Every node of a tree that is derived from tokens starts where one of the tokens starts and stops
where one of them stops. Spans of nodes are only ever those of tokens, or cover two spans that are
made in this way.
-/

namespace LineScript

/-- A span starts where some token starts and stops where some token stops. -/
def Span.Between (tokens : List Token) (span : Span) : Prop :=
  (∃ token ∈ tokens, token.span.start = span.start) ∧ ∃ token ∈ tokens, token.span.stop = span.stop

namespace Span

variable {tokens : List Token}

theorem between_of_mem {token : Token} (h : token ∈ tokens) : token.span.Between tokens :=
  ⟨⟨token, h, rfl⟩, ⟨token, h, rfl⟩⟩

/-- The earlier of two starts is one of them, and so is the later of two stops. -/
theorem Between.cover {left right : Span} (hleft : left.Between tokens)
    (hright : right.Between tokens) : (left.cover right).Between tokens := by
  refine ⟨?_, ?_⟩
  · rcases Nat.le_total left.start right.start with hle | hle
    · simpa [Span.cover, hle] using hleft.1
    · simpa [Span.cover, hle] using hright.1
  · rcases Nat.le_total left.stop right.stop with hle | hle
    · simpa [Span.cover, hle] using hright.2
    · simpa [Span.cover, hle] using hleft.2

end Span

/-- A node and all below it start and stop where some of the given tokens do. -/
abbrev Node.Placed (tokens : List Token) (root : Node) : Prop :=
  root.All fun node => node.span.Between tokens

namespace Grammar

variable {α : Type} {tokens : List Token}

theorem placed_of_mem {token : Token} (h : token ∈ tokens) {root : Node}
    (hspan : root.span = token.span) (hchildren : ∀ child ∈ root.children, child.Placed tokens) :
    root.Placed tokens := by
  refine Node.all_of_children ?_ hchildren
  rw [hspan]
  exact Span.between_of_mem h

theorem Joined.placed {classes : List (List BinaryOperator)} {room : ℕ∞} {read : List Token}
    {expr : Expr} (h : Joined classes room read expr) (hread : read ⊆ tokens) :
    (Node.expr expr).Placed tokens := by
  induction h with
  | number | string | boolean | identifier =>
    exact placed_of_mem (hread List.mem_cons_self) rfl nofun
  | @array _ token items =>
    have htoken : token ∈ tokens := hread List.mem_cons_self
    refine placed_of_mem htoken rfl (List.forall_mem_map.mpr (List.forall_mem_map.mpr ?_))
    -- The items share the span of the literal.
    rintro (value | value | value | name) -
    all_goals exact placed_of_mem htoken rfl nofun
  | index _ _ _ _ ih =>
    simp only [List.cons_subset, List.append_subset] at hread
    obtain ⟨hname, -, hposition, hright, -⟩ := hread
    exact Node.all_of_children ((Span.between_of_mem hname).cover (Span.between_of_mem hright))
      (List.forall_mem_singleton.mpr (ih hposition))
  | property =>
    simp only [List.cons_subset] at hread
    obtain ⟨hname, -, hproperty, -⟩ := hread
    exact Node.all_of_children ((Span.between_of_mem hname).cover (Span.between_of_mem hproperty))
      nofun
  | group _ _ _ ih =>
    -- Parentheses are no part of the tree, nor of any span.
    simp only [List.cons_subset, List.append_subset] at hread
    exact ih hread.2.1
  | unary _ _ ih =>
    obtain ⟨hsign, hread⟩ := List.cons_subset.mp hread
    have hoperand := ih hread
    exact Node.all_of_children ((Span.between_of_mem hsign).cover (hoperand _ .self))
      (List.forall_mem_singleton.mpr hoperand)
  | tighter _ ih => exact ih hread
  | binary _ _ _ _ ihleft ihright =>
    simp only [List.cons_subset, List.append_subset] at hread
    have hleft := ihleft hread.1
    have hright := ihright hread.2.2
    exact Node.all_of_children ((hleft _ .self).cover (hright _ .self))
      (List.forall_mem_cons.mpr ⟨hleft, List.forall_mem_singleton.mpr hright⟩)

theorem Separated.forall_item {Item : List Token → α → Prop} {P : α → Prop} {read : List Token}
    {items : List α} (hitem : ∀ read item, Item read item → read ⊆ tokens → P item)
    (h : Separated Item read items) (hread : read ⊆ tokens) : ∀ item ∈ items, P item := by
  induction h with
  | one hone => exact List.forall_mem_singleton.mpr (hitem _ _ hone hread)
  | more _ _ hnext ih =>
    simp only [List.cons_subset, List.append_subset] at hread
    exact List.forall_mem_append.mpr
      ⟨ih hread.1, List.forall_mem_singleton.mpr (hitem _ _ hnext hread.2.2)⟩

theorem Listed.placed {room : ℕ∞} {read : List Token} {args : List Expr}
    (h : Listed (Expression room) read args) (hread : read ⊆ tokens) :
    ∀ arg ∈ args, (Node.expr arg).Placed tokens := by
  cases h with
  | none => exact nofun
  | some hargs => exact hargs.forall_item (fun _ _ hexpr => hexpr.placed) hread

mutual

theorem Statement.placed {room : ℕ∞} {read : List Token} {stmt : Stmt}
    (h : Statement room read stmt) (hread : read ⊆ tokens) : (Node.stmt stmt).Placed tokens := by
  match h with
  | .print _ _ hvalue =>
    simp only [List.cons_subset, List.append_subset] at hread
    have hvalue := hvalue.placed hread.2.2
    exact Node.all_of_children ((Span.between_of_mem hread.1).cover (hvalue _ .self))
      (List.forall_mem_singleton.mpr hvalue)
  | .declare _ _ _ hvalue =>
    simp only [List.cons_subset] at hread
    have hvalue := hvalue.placed hread.2.2.2
    exact Node.all_of_children ((Span.between_of_mem hread.1).cover (hvalue _ .self))
      (List.forall_mem_singleton.mpr hvalue)
  | .assign _ _ hvalue =>
    simp only [List.cons_subset] at hread
    have hvalue := hvalue.placed hread.2.2
    exact Node.all_of_children ((Span.between_of_mem hread.1).cover (hvalue _ .self))
      (List.forall_mem_singleton.mpr hvalue)
  | .function _ _ _ _ _ hblock =>
    simp only [List.cons_subset, List.append_subset] at hread
    obtain ⟨hbody, hclose⟩ := hblock.placed hread.2.2.2.2.2
    exact Node.all_of_children ((Span.between_of_mem hread.1).cover hclose)
      (List.forall_mem_map.mpr hbody)
  | .branch _ _ hcondition _ _ hblock =>
    -- A missing alternative has no statements.
    simp only [List.cons_subset, List.append_subset] at hread
    obtain ⟨hkeyword, -, hread, -, -, hrest⟩ := hread
    obtain ⟨hbody, hclose⟩ := hblock.placed hrest
    exact Node.all_of_children ((Span.between_of_mem hkeyword).cover hclose)
      (List.forall_mem_cons.mpr ⟨hcondition.placed hread,
        List.forall_mem_append.mpr ⟨List.forall_mem_map.mpr hbody, nofun⟩⟩)
  | .branchElse _ _ hcondition _ _ hblock _ hother =>
    -- The statement stops with its second block.
    simp only [List.cons_subset, List.append_subset] at hread
    obtain ⟨hkeyword, -, hread, -, -, hrest, -, hlast⟩ := hread
    obtain ⟨hbody, -⟩ := hblock.placed hrest
    obtain ⟨hother, hclose⟩ := hother.placed hlast
    exact Node.all_of_children ((Span.between_of_mem hkeyword).cover hclose)
      (List.forall_mem_cons.mpr ⟨hcondition.placed hread,
        List.forall_mem_append.mpr
          ⟨List.forall_mem_map.mpr hbody, List.forall_mem_map.mpr hother⟩⟩)
  | .loop _ hcount _ hblock =>
    simp only [List.cons_subset, List.append_subset] at hread
    obtain ⟨hkeyword, hread, -, hrest⟩ := hread
    obtain ⟨hbody, hclose⟩ := hblock.placed hrest
    exact Node.all_of_children ((Span.between_of_mem hkeyword).cover hclose)
      (List.forall_mem_cons.mpr ⟨hcount.placed hread, List.forall_mem_map.mpr hbody⟩)
  | .call _ _ hargs _ =>
    simp only [List.cons_subset, List.append_subset] at hread
    obtain ⟨hname, -, hread, hright, -⟩ := hread
    exact Node.all_of_children ((Span.between_of_mem hname).cover (Span.between_of_mem hright))
      (List.forall_mem_map.mpr (hargs.placed hread))

theorem Statements.placed {room : ℕ∞} {read : List Token} {statements : List Stmt}
    (h : Statements room read statements) (hread : read ⊆ tokens) :
    ∀ stmt ∈ statements, (Node.stmt stmt).Placed tokens := by
  match h with
  | .none => exact nofun
  | .more hstatements hstatement =>
    obtain ⟨hread, hrest⟩ := List.append_subset.mp hread
    exact List.forall_mem_append.mpr
      ⟨hstatements.placed hread, List.forall_mem_singleton.mpr (hstatement.placed hrest)⟩

/-- A block ends where its closing brace does. -/
theorem Block.placed {room : ℕ∞} {read : List Token} {body : List Stmt} {close : Span}
    (h : Block room read body close) (hread : read ⊆ tokens) :
    (∀ stmt ∈ body, (Node.stmt stmt).Placed tokens) ∧ close.Between tokens := by
  match h with
  | .braces _ hbody _ =>
    simp only [List.cons_subset, List.append_subset] at hread
    exact ⟨hbody.placed hread.2.1, Span.between_of_mem hread.2.2.1⟩

end

/-- The nodes of a program start and stop where tokens do from which the program is derived. -/
theorem Derives.between {room : ℕ∞} {read : List Token} {program : Program}
    (h : Derives room read program) {node : Node} (hnode : program.Has node) :
    node.span.Between read := by
  obtain ⟨stmt, hstmt, hnode⟩ := hnode
  cases h with
  | program _ _ hbody _ _ =>
    refine hbody.placed (fun token hmem => ?_) stmt hstmt node hnode
    simp [hmem]

end Grammar

end LineScript
