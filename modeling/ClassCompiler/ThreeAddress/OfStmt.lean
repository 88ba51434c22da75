import ClassCompiler.Program.Description
import ClassCompiler.ThreeAddress.OfExpr

/-!
# Three-address code of statements

Results of operators and calls are written straight into a variable that takes
them, so that `x = x + 1` stays one instruction. A conditional runs its negative
branch first, and a loop leaves when the negation of its condition holds.
-/

namespace ClassCompiler.ThreeAddress

open Lowering

/-- Assign to a declared variable. An operator writes into the variable itself if
its result has exactly the declared type; a call always does. -/
def lowerIntoVariable (table : SymbolTable) (name : String) (ty : Ty) (value : Expr) :
    Lowering Code := do
  let dest := Value.var name ty
  match value.unparen with
  | .binary op left right =>
      if op.resultTy = ty then
        let left ← lowerExpr table left op.operandTy
        let right ← lowerExpr table right op.operandTy
        return left.code ++ right.code ++ [.binary dest op left.value right.value]
      else
        let value ← lowerExpr table value ty
        return value.code ++ [.assign dest value.value]
  | .selfCall method args =>
      let (code, site) ← lowerSelfCall table method args ty
      return code ++ [.call (some dest) site]
  | .call receiver method args =>
      let (code, site) ← lowerCall table receiver method args ty
      return code ++ [.call (some dest) site]
  | _ =>
      let value ← lowerExpr table value ty
      return value.code ++ [.assign dest value.value]

/-- The element type expected of a value stored into an array: that of a variable
or field that is named, and `int` for any other array. -/
def storedElementTy (table : SymbolTable) (array : Expr) : Lowering Ty :=
  match array.unparen with
  | .var name => do
      match ← resolve table name with
      | .declared ty => return ty.element
      | .field ty => return ty.element
      | .className => return Ty.int
  | _ => return Ty.int

/-- Assign to a variable, a field or an array element. An element assignment
computes the value, then the array, then the position. -/
def lowerAssign (table : SymbolTable) (target value : Expr) : Lowering Code :=
  match target.unparen with
  | .var name => do
      match ← resolve table name with
      | .declared ty => lowerIntoVariable table name ty value
      | .field ty =>
          let value ← lowerExpr table value ty
          return value.code ++ [.putField (selfValue table) name value.value]
      | .className => throw (.malformed .assignStmt (.assignedClass name))
  | .index array position => do
      let expected ← storedElementTy table array
      let value ← lowerExpr table value expected
      let array ← lowerExpr table array (Ty.arrayOf expected.name)
      let position ← lowerExpr table position Ty.int
      let dest := Value.element array.value position.value array.value.ty.element
      return value.code ++ array.code ++ position.code ++ [.assign dest value.value]
  | other => throw (.malformed .assignStmt (.invalidTarget other.description))

/-- Compute an expression for its effects. The result of a call is dropped. -/
def lowerExprStmt (table : SymbolTable) (expr : Expr) : Lowering Code :=
  match expr.unparen with
  | .selfCall name args => do
      let (code, site) ← lowerSelfCall table name args Ty.void
      return code ++ [.call none site]
  | .call receiver name args => do
      let (code, site) ← lowerCall table receiver name args Ty.void
      return code ++ [.call none site]
  | _ => do
      let lowered ← lowerExpr table expr Ty.void
      return lowered.code

/-- Leave the method. The entry point returns without computing a value. -/
def lowerReturn (table : SymbolTable) (value : Option Expr) : Lowering Code := do
  let signature := (← scope).signature
  match value with
  | none => return [.ret none]
  | some value =>
      if signature.isMain then return [.ret none]
      else
        let value ← lowerExpr table value signature.returnTy
        return value.code ++ [.ret (some value.value)]

mutual

/-- Lower a statement. -/
def lowerStmt (table : SymbolTable) : Stmt → Lowering Code
  | .assign target value => lowerAssign table target value
  | .expr expr => lowerExprStmt table expr
  | .ret value => lowerReturn table value
  | .ifElse cond thenBranch elseBranch => do
      let cond ← lowerExpr table cond Ty.boolean
      let (thenLabel, endLabel) ← ifLabels
      let elseCode ← lowerStmt table elseBranch
      let thenCode ← lowerStmt table thenBranch
      return cond.code ++ [.branch cond.value thenLabel] ++ elseCode ++
        [.goto endLabel, .label thenLabel] ++ thenCode ++ [.label endLabel]
  | .whileLoop cond body => do
      let (condLabel, endLabel) ← whileLabels
      let cond ← lowerExpr table cond Ty.boolean
      let negated ← negate table cond.value
      let bodyCode ← lowerStmt table body
      return [.label condLabel] ++ cond.code ++ negated.code ++
        [.branch negated.value endLabel] ++ bodyCode ++ [.goto condLabel, .label endLabel]
  | .block body => lowerStmts table body

/-- Lower statements in order. -/
def lowerStmts (table : SymbolTable) : List Stmt → Lowering Code
  | [] => return []
  | stmt :: rest => do
      let code ← lowerStmt table stmt
      let restCode ← lowerStmts table rest
      return code ++ restCode

end

end ClassCompiler.ThreeAddress
