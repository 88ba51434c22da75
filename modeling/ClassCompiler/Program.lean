import ClassCompiler.Operator

/-!
# Typed programs

A program is a list of imports and one class. Statements and expressions are
closed inductive types, so the later stages treat every form. Parentheses are
kept in the tree and removed by `Expr.unparen` where only the inner form counts.
-/

namespace ClassCompiler

/-- A declared name with its type. -/
structure Symbol where
  name : String
  ty : Ty
deriving DecidableEq, Repr, Inhabited

/-- Expressions. A call without a receiver is a form of its own: it addresses the
current object or, where there is none, the current class. -/
inductive Expr where
  | int (value : Int32)
  | bool (value : Bool)
  | string (value : String)
  | self
  | var (name : String)
  | binary (op : BinaryOp) (left right : Expr)
  | not (operand : Expr)
  | paren (inner : Expr)
  | index (array position : Expr)
  | length (array : Expr)
  | newArray (elem : Ty) (size : Expr)
  | arrayInit (elements : List Expr)
  | newObject (className : String)
  | selfCall (name : String) (args : List Expr)
  | call (receiver : Expr) (name : String) (args : List Expr)
deriving Repr, Inhabited

/-- Statements. -/
inductive Stmt where
  | assign (target value : Expr)
  | expr (expr : Expr)
  | ret (value : Option Expr)
  | ifElse (cond : Expr) (thenBranch elseBranch : Stmt)
  | whileLoop (cond : Expr) (body : Stmt)
  | block (body : List Stmt)
deriving Repr, Inhabited

/-- A method with its declarations and its body. -/
structure MethodDecl where
  name : String
  returnTy : Ty
  params : List Symbol
  locals : List Symbol
  body : List Stmt
  isStatic : Bool
  isPublic : Bool
deriving Repr, Inhabited

/-- The entry point is the static method called `main`. -/
def MethodDecl.isMain (method : MethodDecl) : Bool := method.name == "main" && method.isStatic

/-- One class with its fields and methods in declaration order. -/
structure ClassDecl where
  name : String
  superClass : Option String
  fields : List Symbol
  methods : List MethodDecl
deriving Repr, Inhabited

/-- A compilation unit: dotted import names and one class. -/
structure Program where
  imports : List String
  decl : ClassDecl
deriving Repr, Inhabited

/-- The expression inside any number of parentheses. -/
def Expr.unparen : Expr → Expr
  | .paren inner => inner.unparen
  | expr => expr

@[simp] theorem Expr.unparen_paren (inner : Expr) : (Expr.paren inner).unparen = inner.unparen :=
  rfl

/-- Nothing is left to remove after parentheses have been removed. -/
@[simp] theorem Expr.unparen_unparen (expr : Expr) : expr.unparen.unparen = expr.unparen := by
  fun_induction Expr.unparen expr with
  | case1 inner ih => exact ih
  | case2 expr notParen =>
      cases expr with
      | paren inner => exact absurd rfl (notParen inner)
      | _ => rfl

end ClassCompiler
