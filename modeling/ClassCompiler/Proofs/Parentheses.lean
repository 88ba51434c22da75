import ClassCompiler.Compile
import ClassCompiler.Proofs.Effects

/-!
# Parentheses

Every decision of lowering that depends on the form of an expression has to look through
parentheses: the target of an assignment, the array whose elements are assigned to, the
value that is written straight into a variable, the receiver of a call, the expression that
is evaluated for its effects. A program without its parentheses is therefore lowered to the
same class, from every state and into the same state, and fails where the program fails.
The one trace that parentheses leave is the text in which an error describes an expression
that cannot be assigned to.
-/

namespace ClassCompiler

open Effects

/-! ## Programs without parentheses -/

mutual

/-- An expression without the parentheses in it, at any depth. -/
def Expr.strip : Expr → Expr
  | .int value => .int value
  | .bool value => .bool value
  | .string value => .string value
  | .self => .self
  | .var name => .var name
  | .binary op left right => .binary op left.strip right.strip
  | .not operand => .not operand.strip
  | .paren inner => inner.strip
  | .index array position => .index array.strip position.strip
  | .length array => .length array.strip
  | .newArray elem size => .newArray elem size.strip
  | .arrayInit elements => .arrayInit (stripAll elements)
  | .newObject className => .newObject className
  | .selfCall name args => .selfCall name (stripAll args)
  | .call receiver name args => .call receiver.strip name (stripAll args)

/-- Expressions without the parentheses in them. -/
def Expr.stripAll : List Expr → List Expr
  | [] => []
  | expr :: rest => expr.strip :: stripAll rest

end

mutual

/-- A statement without the parentheses in its expressions. -/
def Stmt.strip : Stmt → Stmt
  | .assign target value => .assign target.strip value.strip
  | .expr value => .expr value.strip
  | .ret value => .ret (value.map Expr.strip)
  | .ifElse cond thenBranch elseBranch =>
      .ifElse cond.strip thenBranch.strip elseBranch.strip
  | .whileLoop cond body => .whileLoop cond.strip body.strip
  | .block body => .block (stripAll body)

/-- Statements without the parentheses in their expressions. -/
def Stmt.stripAll : List Stmt → List Stmt
  | [] => []
  | stmt :: rest => stmt.strip :: stripAll rest

end

/-- A method without the parentheses in its body. -/
def MethodDecl.strip (decl : MethodDecl) : MethodDecl :=
  { decl with body := Stmt.stripAll decl.body }

/-- A program without the parentheses in its methods. -/
def Program.strip (program : Program) : Program :=
  { program with decl.methods := program.decl.methods.map MethodDecl.strip }

/-- An error without the description of an expression that cannot be assigned to. Errors
that agree in all but this description have the same cause. -/
def CompileError.undescribed : CompileError → CompileError
  | .malformed kind (.invalidTarget _) => .malformed kind (.invalidTarget "")
  | error => error

theorem CompileError.undescribed_invalidTarget (kind : Kind) (first second : String) :
    (malformed kind (.invalidTarget first)).undescribed =
      (malformed kind (.invalidTarget second)).undescribed := rfl

/-! ## Expressions -/

namespace ThreeAddress

variable {table : SymbolTable}

/-- A receiver names a class whether it stands in parentheses or not. -/
theorem explicitReceiver_strip (lowered : Lowering Lowered) : (expr : Expr) →
    explicitReceiver table expr.strip lowered = explicitReceiver table expr lowered
  | .paren inner => by
      rw [Expr.strip]
      exact explicitReceiver_strip lowered inner
  | .int _ | .bool _ | .string _ | .self | .var _ | .newObject _ => by
      rw [Expr.strip]
  | .binary _ _ _ | .not _ | .index _ _ | .length _ | .newArray _ _ | .arrayInit _
  | .selfCall _ _ | .call _ _ _ => by
      rw [Expr.strip]
      rfl

mutual

/-- An expression without parentheses is lowered as the expression is. -/
theorem lowerExpr_strip : (expr : Expr) → ∀ expected,
    lowerExpr table expr.strip expected = lowerExpr table expr expected
  | .int _, _ | .bool _, _ | .string _, _ | .self, _ | .var _, _ | .newObject _, _ => by
      rw [Expr.strip]
  | .paren inner, expected => by
      rw [Expr.strip, lowerExpr, lowerExpr_strip inner]
  | .binary op left right, _ => by
      simp only [Expr.strip, lowerExpr, lowerExpr_strip left, lowerExpr_strip right]
  | .index array position, _ => by
      simp only [Expr.strip, lowerExpr, lowerExpr_strip array, lowerExpr_strip position]
  | .not operand, _ | .length operand, _ | .newArray _ operand, _ => by
      simp only [Expr.strip, lowerExpr, lowerExpr_strip operand]
  | .arrayInit elements, _ => by
      simp only [Expr.strip, lowerExpr, lowerExprs_strip elements]
  | .selfCall name args, _ => by
      simp only [Expr.strip, lowerExpr, lowerExprs_strip args]
  | .call receiver name args, _ => by
      simp only [Expr.strip, lowerExpr, lowerExpr_strip receiver, explicitReceiver_strip,
        lowerExprs_strip args]

theorem lowerExprs_strip : (exprs : List Expr) → ∀ expectedAt,
    lowerExprs table expectedAt (Expr.stripAll exprs) = lowerExprs table expectedAt exprs
  | [], _ => by
      rw [Expr.stripAll]
  | expr :: rest, _ => by
      simp only [Expr.stripAll, lowerExprs, lowerExpr_strip expr, lowerExprs_strip rest]

end

/-! ## Statements -/

/-- The value of an assignment is written straight into a variable whether it stands in
parentheses or not. -/
theorem lowerIntoVariable_strip (name : String) (ty : Ty) : (value : Expr) →
    lowerIntoVariable table name ty value.strip = lowerIntoVariable table name ty value
  | .paren inner => by
      rw [Expr.strip, lowerIntoVariable_strip name ty inner]
      simp only [lowerIntoVariable, Expr.unparen, lowerExpr]
  | .int _ | .bool _ | .string _ | .self | .var _ | .newObject _ => by
      rw [Expr.strip]
  | .binary op left right => by
      simp only [Expr.strip, lowerIntoVariable, Expr.unparen, lowerExpr, lowerExpr_strip]
  | .selfCall method args => by
      simp only [Expr.strip, lowerIntoVariable, Expr.unparen, lowerSelfCall, lowerExprs_strip]
  | .call receiver method args => by
      simp only [Expr.strip, lowerIntoVariable, Expr.unparen, lowerCall, lowerExpr_strip,
        explicitReceiver_strip, lowerExprs_strip]
  | .not _ | .index _ _ | .length _ | .newArray _ _ | .arrayInit _ => by
      simp only [Expr.strip, lowerIntoVariable, Expr.unparen, lowerExpr, lowerExpr_strip,
        lowerExprs_strip]

theorem storedElementTy_strip : (array : Expr) →
    storedElementTy table array.strip = storedElementTy table array
  | .paren inner => by
      rw [Expr.strip]
      exact storedElementTy_strip inner
  | .int _ | .bool _ | .string _ | .self | .var _ | .newObject _ => by
      rw [Expr.strip]
  | .binary _ _ _ | .not _ | .index _ _ | .length _ | .newArray _ _ | .arrayInit _
  | .selfCall _ _ | .call _ _ _ => by
      rw [Expr.strip]
      rfl

theorem lowerExprStmt_strip : (expr : Expr) →
    lowerExprStmt table expr.strip = lowerExprStmt table expr
  | .paren inner => by
      rw [Expr.strip, lowerExprStmt_strip inner]
      simp only [lowerExprStmt, Expr.unparen, lowerExpr]
  | .int _ | .bool _ | .string _ | .self | .var _ | .newObject _ => by
      rw [Expr.strip]
  | .selfCall name args => by
      simp only [Expr.strip, lowerExprStmt, Expr.unparen, lowerSelfCall, lowerExprs_strip]
  | .call receiver name args => by
      simp only [Expr.strip, lowerExprStmt, Expr.unparen, lowerCall, lowerExpr_strip,
        explicitReceiver_strip, lowerExprs_strip]
  | .binary _ _ _ | .not _ | .index _ _ | .length _ | .newArray _ _ | .arrayInit _ => by
      simp only [Expr.strip, lowerExprStmt, Expr.unparen, lowerExpr, lowerExpr_strip,
        lowerExprs_strip]

/-- An assignment agrees with the one without parentheses but for the description of its
target, if nothing can be assigned to it. -/
theorem agree_lowerAssign (value : Expr) : (target : Expr) →
    Agree CompileError.undescribed (lowerAssign table target value)
      (lowerAssign table target.strip value.strip)
  | .paren inner => by
      rw [Expr.strip]
      exact agree_lowerAssign value inner
  | .var name => by
      apply Agree.of_eq
      simp only [Expr.strip, lowerAssign, Expr.unparen, lowerExpr_strip, lowerIntoVariable_strip]
  | .index array position => by
      apply Agree.of_eq
      simp only [Expr.strip, lowerAssign, Expr.unparen, lowerExpr_strip, storedElementTy_strip]
  | .int _ | .bool _ | .string _ | .self | .binary _ _ _ | .not _ | .length _ | .newArray _ _
  | .arrayInit _ | .newObject _ | .selfCall _ _ | .call _ _ _ => by
      simp only [Expr.strip, lowerAssign, Expr.unparen]
      exact .throw (CompileError.undescribed_invalidTarget _ _ _)

theorem lowerReturn_strip (value : Option Expr) :
    lowerReturn table (value.map Expr.strip) = lowerReturn table value := by
  cases value with
  | none => rfl
  | some value => simp only [lowerReturn, Option.map_some, lowerExpr_strip]

mutual

/-- A statement agrees with the one without parentheses. -/
theorem agree_lowerStmt : (stmt : Stmt) →
    Agree CompileError.undescribed (lowerStmt table stmt) (lowerStmt table stmt.strip)
  | .assign target value => by
      rw [Stmt.strip, lowerStmt, lowerStmt]
      exact agree_lowerAssign value target
  | .expr expr => by
      rw [Stmt.strip, lowerStmt, lowerStmt, lowerExprStmt_strip]
      exact .of_eq rfl
  | .ret value => by
      rw [Stmt.strip, lowerStmt, lowerStmt, lowerReturn_strip]
      exact .of_eq rfl
  | .ifElse cond thenBranch elseBranch => by
      rw [Stmt.strip, lowerStmt, lowerStmt, lowerExpr_strip]
      apply Agree.bind (.of_eq rfl)
      intro cond
      apply Agree.bind (.of_eq rfl)
      rintro ⟨thenLabel, endLabel⟩
      apply (agree_lowerStmt elseBranch).bind
      intro elseCode
      apply (agree_lowerStmt thenBranch).bind
      intro thenCode
      exact .of_eq rfl
  | .whileLoop cond body => by
      rw [Stmt.strip, lowerStmt, lowerStmt, lowerExpr_strip]
      apply Agree.bind (.of_eq rfl)
      rintro ⟨condLabel, endLabel⟩
      apply Agree.bind (.of_eq rfl)
      intro cond
      apply Agree.bind (.of_eq rfl)
      intro negated
      apply (agree_lowerStmt body).bind
      intro bodyCode
      exact .of_eq rfl
  | .block body => by
      rw [Stmt.strip, lowerStmt, lowerStmt]
      exact agree_lowerStmts body

theorem agree_lowerStmts : (stmts : List Stmt) →
    Agree CompileError.undescribed (lowerStmts table stmts)
      (lowerStmts table (Stmt.stripAll stmts))
  | [] => by
      rw [Stmt.stripAll]
      exact .of_eq rfl
  | stmt :: rest => by
      rw [Stmt.stripAll, lowerStmts, lowerStmts]
      apply (agree_lowerStmt stmt).bind
      intro code
      apply (agree_lowerStmts rest).bind
      intro restCode
      exact .of_eq rfl

end

/-! ## Programs -/

theorem agree_lowerMethod (decl : MethodDecl) :
    Agree CompileError.undescribed (lowerMethod table decl) (lowerMethod table decl.strip) := by
  unfold lowerMethod MethodDecl.strip
  cases table.method? decl.name with
  | none => exact .of_eq rfl
  | some signature =>
      apply Agree.bind (.of_eq rfl)
      intro _
      apply (agree_lowerStmts decl.body).bind
      intro code
      exact .of_eq rfl

theorem agree_lowerMethods (decls : List MethodDecl) :
    Agree CompileError.undescribed (lowerMethods table decls)
      (lowerMethods table (decls.map MethodDecl.strip)) := by
  induction decls with
  | nil => exact .of_eq rfl
  | cons decl rest ih =>
      rw [List.map_cons, lowerMethods, lowerMethods]
      apply (agree_lowerMethod decl).bind
      intro method
      apply ih.bind
      intro methods
      exact .of_eq rfl

theorem agree_lowerProgram (table : SymbolTable) (program : Program) :
    Agree CompileError.undescribed (lowerProgram table program)
      (lowerProgram table program.strip) := by
  apply (agree_lowerMethods program.decl.methods).bind
  intro methods
  exact .of_eq rfl

theorem mapError_lowerFresh_strip (table : SymbolTable) (program : Program) :
    (lowerFresh table program.strip).mapError CompileError.undescribed =
      (lowerFresh table program).mapError CompileError.undescribed := by
  have ends := agree_lowerProgram table program {}
  unfold lowerFresh
  generalize lowerProgram table program {} = firstRun at ends ⊢
  generalize lowerProgram table program.strip {} = secondRun at ends ⊢
  cases ends with
  | ok unit after => rfl
  | error same after => exact congrArg Except.error same.symm

end ThreeAddress

theorem mapError_compile_strip (options : Options) (table : SymbolTable) (program : Program) :
    (compile options table program.strip).mapError CompileError.undescribed =
      (compile options table program).mapError CompileError.undescribed :=
  mapError_bind_congr _ (ThreeAddress.mapError_lowerFresh_strip table program)

/-- Parentheses do not matter: without them a program is lowered from every state to the
same class and into the same state, or fails in the same state with the same error up to
the description of an expression that cannot be assigned to. So it is compiled to the same
stack code, against any symbol table and against the one that it declares. -/
theorem parentheses_do_not_matter (table : SymbolTable) (program : Program) :
    (∀ state, EndsSame CompileError.undescribed (ThreeAddress.lowerProgram table program state)
        (ThreeAddress.lowerProgram table program.strip state)) ∧
      (∀ options, (compile options table program.strip).mapError CompileError.undescribed =
        (compile options table program).mapError CompileError.undescribed) ∧
      ∀ options, (compileProgram options program.strip).mapError CompileError.undescribed =
        (compileProgram options program).mapError CompileError.undescribed := by
  refine ⟨ThreeAddress.agree_lowerProgram table program,
    fun options => mapError_compile_strip options table program, fun options => ?_⟩
  have tableEq : SymbolTable.ofProgram program.strip = SymbolTable.ofProgram program := by
    simp only [SymbolTable.ofProgram, Program.strip, List.map_map]
    rfl
  rw [compileProgram, compileProgram, tableEq]
  exact mapError_compile_strip options _ program

end ClassCompiler
