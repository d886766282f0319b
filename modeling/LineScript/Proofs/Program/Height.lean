import LineScript.Proofs.Program.Nodes
import Mathlib.Order.Lattice

/-!
# Heights of trees

The height of a tree says how deeply a walk through it can nest. A step down from an operation to
its left operand may be given a weight of its own: with weight one `Node.height` is the height, and
with weight zero it does not see how far a tree leans to the left. The two are compared through the
longest sequence of left operands (`Node.height_le_of_leading_le`).
-/

namespace LineScript

namespace Expr

mutual

/-- The height of an expression, where a step to a left operand has weight `left` and all other
steps have weight one. -/
def height (left : Nat) : Expr → Nat
  | number _ _ | string _ _ | boolean _ _ | identifier _ _ | property _ _ _ => 1
  | array items _ => heightAll left items + 1
  | index _ position _ => position.height left + 1
  | unary _ operand _ => operand.height left + 1
  | binary _ first second _ => max (first.height left + left) (second.height left + 1)

/-- The greatest height of some expressions. -/
def heightAll (left : Nat) : List Expr → Nat
  | [] => 0
  | expr :: exprs => max (expr.height left) (heightAll left exprs)

end

theorem heightAll_le_iff {left bound : Nat} {exprs : List Expr} :
    heightAll left exprs ≤ bound ↔ ∀ expr ∈ exprs, expr.height left ≤ bound := by
  induction exprs with
  | nil => simp [heightAll]
  | cons expr exprs ih => simp [heightAll, ih]

/-- How many steps in a row lead from an expression to left operands. -/
def leading : Expr → Nat
  | binary _ first _ _ => first.leading + 1
  | _ => 0

end Expr

namespace Stmt

mutual

/-- The height of a statement, where a step to a left operand has weight `left`. -/
def height (left : Nat) : Stmt → Nat
  | print value _ | assign _ value _ _ => value.height left + 1
  | function _ _ body _ => heightAll left body + 1
  | branch condition consequence alternative _ =>
    max (condition.height left)
      (max (heightAll left consequence) (heightAlternative left alternative)) + 1
  | loop count body _ => max (count.height left) (heightAll left body) + 1
  | call _ args _ => Expr.heightAll left args + 1

/-- The greatest height of some statements. -/
def heightAll (left : Nat) : List Stmt → Nat
  | [] => 0
  | stmt :: stmts => max (stmt.height left) (heightAll left stmts)

/-- The greatest height of the statements of an alternative, if there is one. -/
def heightAlternative (left : Nat) : Option (List Stmt) → Nat
  | none => 0
  | some stmts => heightAll left stmts

end

theorem heightAll_le_iff {left bound : Nat} {stmts : List Stmt} :
    heightAll left stmts ≤ bound ↔ ∀ stmt ∈ stmts, stmt.height left ≤ bound := by
  induction stmts with
  | nil => simp [heightAll]
  | cons stmt stmts ih => simp [heightAll, ih]

theorem heightAlternative_le_iff {left bound : Nat} {alternative : Option (List Stmt)} :
    heightAlternative left alternative ≤ bound ↔
      ∀ stmt ∈ alternative.getD [], stmt.height left ≤ bound := by
  cases alternative with
  | none => simp [heightAlternative]
  | some stmts => simp [heightAlternative, heightAll_le_iff]

end Stmt

namespace Node

/-- The height of a node, where a step to a left operand has weight `left`. -/
def height (left : Nat) : Node → Nat
  | expr tree => tree.height left
  | stmt tree => tree.height left

/-- How many steps in a row lead from a node to left operands. -/
def leading : Node → Nat
  | expr tree => tree.leading
  | stmt _ => 0

/-- The children of a node, each with the weight of the step to it. -/
def steps (left : Nat) : Node → List (Node × Nat)
  | expr (.binary _ first second _) => [(expr first, left), (expr second, 1)]
  | node => node.children.map (·, 1)

/-- A node is as high as the highest way down to a child and on from there. -/
theorem height_le_iff {left bound : Nat} {node : Node} : node.height left ≤ bound + 1 ↔
    ∀ step ∈ node.steps left, step.1.height left + step.2 ≤ bound + 1 := by
  rcases node with tree | tree <;> cases tree <;>
    simp [height, Expr.height, Stmt.height, steps, children, Expr.heightAll_le_iff,
      Stmt.heightAll_le_iff, Stmt.heightAlternative_le_iff, or_imp, forall_and]

theorem height_pos (left : Nat) (node : Node) : 0 < node.height left := by
  rcases node with tree | tree <;> cases tree <;>
    simp only [height, Expr.height, Stmt.height] <;> omega

theorem height_add_le {left : Nat} {node : Node} {step : Node × Nat} (h : step ∈ node.steps left) :
    step.1.height left + step.2 ≤ node.height left := by
  obtain ⟨bound, hbound⟩ := Nat.exists_eq_add_one_of_ne_zero (Nat.ne_of_gt (node.height_pos left))
  rw [hbound]
  exact height_le_iff.mp (Nat.le_of_eq hbound) step h

/-- A step leads to the left operand of an operation, or it goes down by one whatever the weight of
left operands is. -/
theorem steps_cases {left : Nat} {node : Node} {step : Node × Nat} (h : step ∈ node.steps left) :
    step.1 ∈ node.children ∧
      (step.2 = left ∧ node.leading = step.1.leading + 1 ∧ (step.1, 0) ∈ node.steps 0 ∨
        step.2 = 1 ∧ (step.1, 1) ∈ node.steps 0) := by
  rcases node with tree | tree <;> cases tree <;>
    simp only [steps, children, List.mem_map, List.mem_cons] at h ⊢ <;>
    grind [leading, Expr.leading]

theorem exists_mem_steps (left : Nat) {child node : Node} (h : child ∈ node.children) :
    ∃ weight, (child, weight) ∈ node.steps left := by
  rcases node with tree | tree <;> cases tree <;> simp_all [steps, children] <;> grind

/-- What is below a node is no higher. -/
theorem Has.height_le {root node : Node} (h : root.Has node) (left : Nat) :
    node.height left ≤ root.height left := by
  induction h with
  | self => exact Nat.le_refl _
  | child _ hmem ih =>
    obtain ⟨weight, hstep⟩ := exists_mem_steps left hmem
    exact Nat.le_trans (Nat.le_trans (Nat.le_add_right _ _) (height_add_le hstep)) ih

/-- Where no more than `longest` steps in a row lead to left operands, there are at most as many
between any two other steps on a way down. -/
theorem height_add_le_of_leading_le {longest : Nat} {root : Node}
    (h : root.All fun node => node.leading ≤ longest) :
    root.height 1 + longest ≤ root.leading + root.height 0 * (longest + 1) := by
  -- Ways down get shorter with every step.
  induction hheight : root.height 1 using Nat.strongRecOn generalizing root with
  | _ height ih =>
    have hpos := Nat.mul_le_mul_right (longest + 1) (root.height_pos 0)
    obtain ⟨bound, hbound⟩ : ∃ bound,
        root.leading + root.height 0 * (longest + 1) = bound + 1 + longest :=
      ⟨root.leading + root.height 0 * (longest + 1) - 1 - longest, by omega⟩
    have hroot : root.height 1 ≤ bound + 1 := by
      refine height_le_iff.mpr fun step hstep => ?_
      have hlower := height_add_le hstep
      obtain ⟨hchild, hcases⟩ := steps_cases hstep
      have hchildren : step.1.All fun node => node.leading ≤ longest :=
        fun node hnode => h node (.of_child hchild hnode)
      rcases hcases with ⟨hweight, hleading, hzero⟩ | ⟨hweight, hzero⟩
      · have hbelow := ih (step.1.height 1) (by omega) hchildren rfl
        have hle := Nat.mul_le_mul_right (longest + 1) (height_add_le hzero)
        dsimp only [Nat.add_zero] at hle
        omega
      · have hbelow := ih (step.1.height 1) (by omega) hchildren rfl
        have hle := Nat.mul_le_mul_right (longest + 1) (height_add_le hzero)
        have hlongest := hchildren step.1 .self
        rw [Nat.add_mul] at hle
        dsimp only at hle
        omega
    omega

/-- The height of a tree is at most the height without left operands, times the greatest number of
left operands one inside the other and one more. -/
theorem height_le_of_leading_le {longest : Nat} {root : Node}
    (h : root.All fun node => node.leading ≤ longest) :
    root.height 1 ≤ root.height 0 * (longest + 1) := by
  have hroot := height_add_le_of_leading_le h
  have hlongest := h root .self
  omega

end Node

end LineScript
