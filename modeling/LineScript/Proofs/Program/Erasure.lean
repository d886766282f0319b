import LineScript.Reading.Expression

/-!
# Trees without spans

Two trees are the same up to spans if they are the same once all their spans are erased.
-/

namespace LineScript

namespace Expr

mutual

/-- An expression with all its spans erased. -/
def erase : Expr → Expr
  | number value _ => number value ⟨0, 0⟩
  | string value _ => string value ⟨0, 0⟩
  | boolean value _ => boolean value ⟨0, 0⟩
  | array items _ => array (eraseAll items) ⟨0, 0⟩
  | identifier name _ => identifier name ⟨0, 0⟩
  | index name position _ => index name position.erase ⟨0, 0⟩
  | property name key _ => property name key ⟨0, 0⟩
  | unary operator operand _ => unary operator operand.erase ⟨0, 0⟩
  | binary operator left right _ => binary operator left.erase right.erase ⟨0, 0⟩

/-- Expressions with all their spans erased. -/
def eraseAll : List Expr → List Expr
  | [] => []
  | expr :: exprs => expr.erase :: eraseAll exprs

end

theorem eraseAll_eq_map (exprs : List Expr) : eraseAll exprs = exprs.map erase := by
  induction exprs with
  | nil => rfl
  | cons expr exprs ih => rw [eraseAll, ih, List.map_cons]

end Expr

@[simp]
theorem Literal.erase_toExpr (span : Span) (literal : Literal) :
    (literal.toExpr span).erase = literal.toExpr ⟨0, 0⟩ := by
  cases literal <;> rfl

namespace Stmt

mutual

/-- A statement with all its spans erased. -/
def erase : Stmt → Stmt
  | print value _ => print value.erase ⟨0, 0⟩
  | assign name value isList _ => assign name value.erase isList ⟨0, 0⟩
  | function name params body _ => function name params (eraseAll body) ⟨0, 0⟩
  | branch condition consequence alternative _ =>
    branch condition.erase (eraseAll consequence) (eraseAlternative alternative) ⟨0, 0⟩
  | loop count body _ => loop count.erase (eraseAll body) ⟨0, 0⟩
  | call name args _ => call name (Expr.eraseAll args) ⟨0, 0⟩

/-- Statements with all their spans erased. -/
def eraseAll : List Stmt → List Stmt
  | [] => []
  | stmt :: stmts => stmt.erase :: eraseAll stmts

/-- The block of an alternative, if there is one, with all its spans erased. -/
def eraseAlternative : Option (List Stmt) → Option (List Stmt)
  | none => none
  | some stmts => some (eraseAll stmts)

end

theorem eraseAll_eq_map (stmts : List Stmt) : eraseAll stmts = stmts.map erase := by
  induction stmts with
  | nil => rfl
  | cons stmt stmts ih => rw [eraseAll, ih, List.map_cons]

end Stmt

/-- A program with all its spans erased. -/
def Program.erase (program : Program) : Program :=
  ⟨Stmt.eraseAll program.body⟩

end LineScript
