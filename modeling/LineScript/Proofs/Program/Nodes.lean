import LineScript.Program

/-!
# Nodes of programs

The nodes of a syntax tree are its statements and expressions. A node has the children that its
constructor holds, and below it are its children and whatever is below them.
-/

namespace LineScript

/-- A node of a syntax tree. -/
inductive Node where
  | expr (tree : Expr)
  | stmt (tree : Stmt)

namespace Node

/-- The bytes a node was read from. -/
def span : Node → Span
  | .expr tree => tree.span
  | .stmt tree => tree.span

/-- The nodes that the constructor of a node holds, in the order in which they were read. -/
def children : Node → List Node
  | expr (.number _ _) | expr (.string _ _) | expr (.boolean _ _) | expr (.identifier _ _)
  | expr (.property _ _ _) => []
  | expr (.array items _) => items.map expr
  | expr (.index _ position _) => [expr position]
  | expr (.unary _ operand _) => [expr operand]
  | expr (.binary _ left right _) => [expr left, expr right]
  | stmt (.print value _) => [expr value]
  | stmt (.assign _ value _ _) => [expr value]
  | stmt (.function _ _ body _) => body.map stmt
  | stmt (.branch condition consequence alternative _) =>
    expr condition :: (consequence.map stmt ++ (alternative.getD []).map stmt)
  | stmt (.loop count body _) => expr count :: body.map stmt
  | stmt (.call _ args _) => args.map expr

/-- A node is another one or below it. -/
inductive Has (root : Node) : Node → Prop
  | self : Has root root
  | child {outer inner : Node} : Has root outer → inner ∈ outer.children → Has root inner

/-- A node below another one is below one of its children, unless it is that one. -/
theorem Has.eq_or_exists {root node : Node} (h : root.Has node) :
    node = root ∨ ∃ child ∈ root.children, child.Has node := by
  induction h with
  | self => exact .inl rfl
  | @child outer inner _ hmem ih =>
    rcases ih with rfl | ⟨child, hchild, houter⟩
    · exact .inr ⟨inner, hmem, .self⟩
    · exact .inr ⟨child, hchild, .child houter hmem⟩

/-- What is below a child of a node is below the node. -/
theorem Has.of_child {root child node : Node} (hmem : child ∈ root.children)
    (h : child.Has node) : root.Has node := by
  induction h with
  | self => exact .child .self hmem
  | child _ hinner ih => exact .child ih hinner

/-- A node and all below it have a property. -/
def All (P : Node → Prop) (root : Node) : Prop :=
  ∀ node, root.Has node → P node

/-- A property is shown of a node and of all below it from the children upwards. -/
theorem all_of_children {P : Node → Prop} {root : Node} (hroot : P root)
    (hchildren : ∀ child ∈ root.children, child.All P) : root.All P := by
  intro node hnode
  rcases hnode.eq_or_exists with rfl | ⟨child, hchild, hbelow⟩
  · exact hroot
  · exact hchildren child hchild node hbelow

end Node

/-- A node is one of the statements of a program or below it. -/
def Program.Has (program : Program) (node : Node) : Prop :=
  ∃ stmt ∈ program.body, (Node.stmt stmt).Has node

/-- What is below a node of a program is one of its nodes. -/
theorem Program.Has.child {program : Program} {outer inner : Node} (h : program.Has outer)
    (hmem : inner ∈ outer.children) : program.Has inner := by
  obtain ⟨stmt, hstmt, houter⟩ := h
  exact ⟨stmt, hstmt, houter.child hmem⟩

end LineScript
