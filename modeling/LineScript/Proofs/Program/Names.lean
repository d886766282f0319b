import LineScript.Program

/-!
# Names in programs

The names that occur in a syntax tree, in the order in which they were read, and trees in which they
are replaced by others. Those of variables and those of functions are listed and replaced apart. The
name of a property belongs to neither.
-/

namespace LineScript

/-! ### Occurrences -/

namespace Expr

mutual

/-- The names of variables in an expression. -/
def names : Expr → List String
  | number _ _ | string _ _ | boolean _ _ => []
  | array items _ => namesAll items
  | identifier name _ => [name]
  | index name position _ => name :: position.names
  | property name _ _ => [name]
  | unary _ operand _ => operand.names
  | binary _ left right _ => left.names ++ right.names

/-- The names of variables in expressions. -/
def namesAll : List Expr → List String
  | [] => []
  | expr :: exprs => expr.names ++ namesAll exprs

end

end Expr

namespace Stmt

mutual

/-- The names of variables in a statement, those of parameters included. -/
def variableNames : Stmt → List String
  | print value _ => value.names
  | assign name value _ _ => name :: value.names
  | function _ params body _ => params ++ variableNamesAll body
  | branch condition consequence alternative _ =>
    condition.names ++ (variableNamesAll consequence ++ variableNamesAlternative alternative)
  | loop count body _ => count.names ++ variableNamesAll body
  | call _ args _ => Expr.namesAll args

/-- The names of variables in statements. -/
def variableNamesAll : List Stmt → List String
  | [] => []
  | stmt :: stmts => stmt.variableNames ++ variableNamesAll stmts

/-- The names of variables in the block of an alternative, if there is one. -/
def variableNamesAlternative : Option (List Stmt) → List String
  | none => []
  | some stmts => variableNamesAll stmts

end

mutual

/-- The names of functions in a statement. -/
def functionNames : Stmt → List String
  | print _ _ | assign _ _ _ _ => []
  | function name _ body _ => name :: functionNamesAll body
  | branch _ consequence alternative _ =>
    functionNamesAll consequence ++ functionNamesAlternative alternative
  | loop _ body _ => functionNamesAll body
  | call name _ _ => [name]

/-- The names of functions in statements. -/
def functionNamesAll : List Stmt → List String
  | [] => []
  | stmt :: stmts => stmt.functionNames ++ functionNamesAll stmts

/-- The names of functions in the block of an alternative, if there is one. -/
def functionNamesAlternative : Option (List Stmt) → List String
  | none => []
  | some stmts => functionNamesAll stmts

end

end Stmt

/-- The names of variables in a program. -/
def Program.variableNames (program : Program) : List String :=
  Stmt.variableNamesAll program.body

/-- The names of functions in a program. -/
def Program.functionNames (program : Program) : List String :=
  Stmt.functionNamesAll program.body

/-! ### Replacement -/

/-- Other names for variables and for functions. -/
structure Renaming where
  /-- The other name of a variable. -/
  ofVariable : String → String
  /-- The other name of a function. -/
  ofFunction : String → String

variable (names : Renaming)

namespace Expr

mutual

/-- An expression with other names. -/
def rename : Expr → Expr
  | number value span => number value span
  | string value span => string value span
  | boolean value span => boolean value span
  | array items span => array (renameAll items) span
  | identifier name span => identifier (names.ofVariable name) span
  | index name position span => index (names.ofVariable name) position.rename span
  | property name key span => property (names.ofVariable name) key span
  | unary operator operand span => unary operator operand.rename span
  | binary operator left right span => binary operator left.rename right.rename span

/-- Expressions with other names. -/
def renameAll : List Expr → List Expr
  | [] => []
  | expr :: exprs => expr.rename :: renameAll exprs

end

/-- An expression with other names stands at the same bytes. -/
@[simp]
theorem span_rename (expr : Expr) : (expr.rename names).span = expr.span := by
  cases expr <;> rfl

end Expr

namespace Stmt

mutual

/-- A statement with other names. -/
def rename : Stmt → Stmt
  | print value span => print (value.rename names) span
  | assign name value isList span =>
    assign (names.ofVariable name) (value.rename names) isList span
  | function name params body span =>
    function (names.ofFunction name) (params.map names.ofVariable) (renameAll body) span
  | branch condition consequence alternative span =>
    branch (condition.rename names) (renameAll consequence) (renameAlternative alternative) span
  | loop count body span => loop (count.rename names) (renameAll body) span
  | call name args span => call (names.ofFunction name) (Expr.renameAll names args) span

/-- Statements with other names. -/
def renameAll : List Stmt → List Stmt
  | [] => []
  | stmt :: stmts => stmt.rename :: renameAll stmts

/-- The block of an alternative, if there is one, with other names. -/
def renameAlternative : Option (List Stmt) → Option (List Stmt)
  | none => none
  | some stmts => some (renameAll stmts)

end

end Stmt

/-- A program with other names. -/
def Program.rename (program : Program) : Program :=
  ⟨Stmt.renameAll names program.body⟩

end LineScript
