import ClassCompiler.Proofs.Effects
import ClassCompiler.Proofs.Semantics.Hints
import ClassCompiler.ThreeAddress.OfProgram

/-!
# What lowering can produce

Lowering is a computation on a state. The relations here say for every form of
expression and statement which code a successful lowering produces and in which
state it ends. They hold of the lowering functions, so a property of all lowered
code needs one case for each form and never opens the functions again.
-/

namespace ClassCompiler.ThreeAddress

open Lowering Effects
open Semantics (Context collected? writesInto)

/-! ## States -/

namespace LoweringState

/-- The number of the next temporary. -/
def tempNumber (table : SymbolTable) (state : LoweringState) : Nat :=
  NameSupply.freeNumber (state.scope.takenNames table) state.names.temps

/-- The next temporary, as an operand of a type. -/
def nextTemp (table : SymbolTable) (state : LoweringState) (ty : Ty) : Value :=
  .temp (tempName (state.tempNumber table)) ty

/-- The state after the next temporary has been taken for a type. -/
def withTemp (table : SymbolTable) (state : LoweringState) (ty : Ty) : LoweringState where
  names := { state.names with temps := state.tempNumber table + 1 }
  scope := { state.scope with
    temps := state.scope.temps ++ [⟨tempName (state.tempNumber table), ty⟩] }

/-- The state after two labels have been taken. -/
def withLabels (state : LoweringState) (first second : LabelKind) : LoweringState :=
  { state with names := (state.names.skipLabel first).skipLabel second }

/-- The next label of a kind. -/
def nextLabel (state : LoweringState) (kind : LabelKind) : String :=
  labelName kind (state.names.nextLabel kind)

/-- The class and the method that are being lowered. -/
def context (table : SymbolTable) (state : LoweringState) : Context :=
  ⟨table, state.scope.signature⟩

@[simp] theorem context_withTemp (table : SymbolTable) (state : LoweringState) (ty : Ty) :
    (state.withTemp table ty).context table = state.context table := rfl

@[simp] theorem context_withLabels (table : SymbolTable) (state : LoweringState)
    (first second : LabelKind) :
    (state.withLabels first second).context table = state.context table := rfl

@[simp] theorem signature_context (table : SymbolTable) (state : LoweringState) :
    (state.context table).signature = state.scope.signature := rfl

@[simp] theorem table_context (table : SymbolTable) (state : LoweringState) :
    (state.context table).table = table := rfl

end LoweringState

/-- The assignments that fill an array. -/
def elementStores (array : Value) (elem : Ty) (values : List Value) : Code :=
  values.zipIdx.map fun (value, position) =>
    Instr.assign (.element array (.int (Int32.ofNat position)) elem) value

/-- The code that packs values into an array. -/
def packCode (table : SymbolTable) (elem : Ty) (values : List Value) (state : LoweringState) :
    Code :=
  .call (some (state.nextTemp table (Ty.arrayOf elem.name)))
      (Call.newArray elem (.int (Int32.ofNat values.length))) ::
    elementStores (state.nextTemp table (Ty.arrayOf elem.name)) elem values

/-! ## Expressions -/

/-- What becomes of the arguments of a call. -/
inductive PacksArguments (table : SymbolTable) (own : Option MethodSignature)
    (values : List Value) : LoweringState → Code → List Value → LoweringState → Prop where
  | kept {state : LoweringState} (collects : collected? own (values.map Value.ty) = none) :
      PacksArguments table own values state [] values state
  | collected {state : LoweringState} {fixed : Nat} {elem : Ty}
      (collects : collected? own (values.map Value.ty) = some (fixed, elem))
      (bound : (values.drop fixed).length < 2147483648) :
      PacksArguments table own values state (packCode table elem (values.drop fixed) state)
        (values.take fixed ++ [state.nextTemp table (Ty.arrayOf elem.name)])
        (state.withTemp table (Ty.arrayOf elem.name))

mutual

/-- An expression is lowered where a type is expected. -/
inductive LowersExpr (table : SymbolTable) :
    Expr → Ty → LoweringState → Lowered → LoweringState → Prop where
  | int (value : Int32) (expected : Ty) (state : LoweringState) :
      LowersExpr table (.int value) expected state ⟨[], .int value⟩ state
  | bool (value : Bool) (expected : Ty) (state : LoweringState) :
      LowersExpr table (.bool value) expected state ⟨[], .bool value⟩ state
  | string (value : String) (expected : Ty) (state : LoweringState) :
      LowersExpr table (.string value) expected state ⟨[], .string value⟩ state
  | self (expected : Ty) (state : LoweringState) :
      LowersExpr table .self expected state ⟨[], selfValue table⟩ state
  | paren {inner : Expr} {expected : Ty} {state after : LoweringState} {lowered : Lowered}
      (lowers : LowersExpr table inner expected state lowered after) :
      LowersExpr table (.paren inner) expected state lowered after
  | declared {name : String} {ty expected : Ty} {state : LoweringState}
      (resolves : (state.context table).resolve? name = some (.declared ty)) :
      LowersExpr table (.var name) expected state ⟨[], .var name ty⟩ state
  | field {name : String} {ty expected : Ty} {state : LoweringState}
      (resolves : (state.context table).resolve? name = some (.field ty)) :
      LowersExpr table (.var name) expected state
        ⟨[.getField (state.nextTemp table ty) (selfValue table) name ty], state.nextTemp table ty⟩
        (state.withTemp table ty)
  | binary {op : BinaryOp} {left right : Expr} {expected : Ty}
      {state middle after : LoweringState} {first second : Lowered}
      (lowersLeft : LowersExpr table left op.operandTy state first middle)
      (lowersRight : LowersExpr table right op.operandTy middle second after) :
      LowersExpr table (.binary op left right) expected state
        ⟨first.code ++ second.code ++
          [.binary (after.nextTemp table op.resultTy) op first.value second.value],
          after.nextTemp table op.resultTy⟩
        (after.withTemp table op.resultTy)
  | not {operand : Expr} {expected : Ty} {state after : LoweringState} {lowered : Lowered}
      (lowers : LowersExpr table operand Ty.boolean state lowered after) :
      LowersExpr table (.not operand) expected state
        ⟨lowered.code ++ [.not (after.nextTemp table Ty.boolean) lowered.value],
          after.nextTemp table Ty.boolean⟩
        (after.withTemp table Ty.boolean)
  | index {array position : Expr} {expected : Ty} {state middle after : LoweringState}
      {base offset : Lowered}
      (lowersArray : LowersExpr table array (Ty.arrayOf "int") state base middle)
      (lowersPosition : LowersExpr table position Ty.int middle offset after) :
      LowersExpr table (.index array position) expected state
        ⟨base.code ++ offset.code ++
          [.assign (after.nextTemp table base.value.ty.element)
            (.element base.value offset.value base.value.ty.element)],
          after.nextTemp table base.value.ty.element⟩
        (after.withTemp table base.value.ty.element)
  | length {array : Expr} {expected : Ty} {state after : LoweringState} {base : Lowered}
      (lowersArray : LowersExpr table array (Ty.arrayOf "int") state base after) :
      LowersExpr table (.length array) expected state
        ⟨base.code ++ [.call (some (after.nextTemp table Ty.int)) (.arrayLength base.value)],
          after.nextTemp table Ty.int⟩
        (after.withTemp table Ty.int)
  | newArray {elem : Ty} {size : Expr} {expected : Ty} {state after : LoweringState}
      {lowered : Lowered} (lowersSize : LowersExpr table size Ty.int state lowered after) :
      LowersExpr table (.newArray elem size) expected state
        ⟨lowered.code ++ [.call (some (after.nextTemp table (Ty.arrayOf elem.name)))
            (.newArray elem lowered.value)],
          after.nextTemp table (Ty.arrayOf elem.name)⟩
        (after.withTemp table (Ty.arrayOf elem.name))
  | arrayInit {elements : List Expr} {expected : Ty} {state after : LoweringState}
      {code : Code} {values : List Value}
      (lowersElements :
        LowersExprs table (fun _ => literalElement expected) elements state code values after)
      (bound : values.length < 2147483648) :
      LowersExpr table (.arrayInit elements) expected state
        ⟨code ++ packCode table (literalElement expected) values after,
          after.nextTemp table (Ty.arrayOf (literalElement expected).name)⟩
        (after.withTemp table (Ty.arrayOf (literalElement expected).name))
  | newObject (className : String) (expected : Ty) (state : LoweringState) :
      LowersExpr table (.newObject className) expected state
        ⟨[.call (some (state.nextTemp table (Ty.named className))) (.newObject className),
            .call none (.construct (state.nextTemp table (Ty.named className)))],
          state.nextTemp table (Ty.named className)⟩
        (state.withTemp table (Ty.named className))
  | call {expr : Expr} {expected : Ty} {state after : LoweringState} {code : Code}
      {site : Call} (lowersCall : LowersCall table expr expected state code site after)
      (hasValue : site.returnTy.isVoid = false) :
      LowersExpr table expr expected state
        ⟨code ++ [.call (some (after.nextTemp table site.returnTy)) site],
          after.nextTemp table site.returnTy⟩
        (after.withTemp table site.returnTy)

/-- Expressions are lowered from left to right, each where its own type is
expected. -/
inductive LowersExprs (table : SymbolTable) :
    (Nat → Ty) → List Expr → LoweringState → Code → List Value → LoweringState → Prop where
  | nil (expectedAt : Nat → Ty) (state : LoweringState) :
      LowersExprs table expectedAt [] state [] [] state
  | cons {expectedAt : Nat → Ty} {expr : Expr} {rest : List Expr}
      {state middle after : LoweringState} {first : Lowered} {code : Code} {values : List Value}
      (lowersFirst : LowersExpr table expr (expectedAt 0) state first middle)
      (lowersRest :
        LowersExprs table (fun position => expectedAt (position + 1)) rest middle code values
          after) :
      LowersExprs table expectedAt (expr :: rest) state (first.code ++ code)
        (first.value :: values) after

/-- The code that runs before a call, and the call. -/
inductive LowersCall (table : SymbolTable) :
    Expr → Ty → LoweringState → Code → Call → LoweringState → Prop where
  | onClass {name : String} {args : List Expr} {expected : Ty}
      {state middle after : LoweringState} {code packing : Code} {values packed : List Value}
      (isStatic : state.scope.signature.isStatic ∨
        (table.method? name).any MethodSignature.isStatic)
      (lowersArgs :
        LowersExprs table (argumentTy (table.method? name)) args state code values middle)
      (packs : PacksArguments table (table.method? name) values middle packing packed after) :
      LowersCall table (.selfCall name args) expected state (code ++ packing)
        (.invoke .static (.classRef table.className) name packed
          (Context.resultTy (table.method? name) expected)) after
  | onSelf {name : String} {args : List Expr} {expected : Ty}
      {state middle after : LoweringState} {code packing : Code} {values packed : List Value}
      (isInstance : state.scope.signature.isStatic = false)
      (calleeInstance : (table.method? name).any MethodSignature.isStatic = false)
      (lowersArgs :
        LowersExprs table (argumentTy (table.method? name)) args state code values middle)
      (packs : PacksArguments table (table.method? name) values middle packing packed after) :
      LowersCall table (.selfCall name args) expected state (code ++ packing)
        (.invoke .virtual (selfValue table) name packed
          (Context.resultTy (table.method? name) expected)) after
  | onNamed {receiver : Expr} {className name : String} {args : List Expr} {expected : Ty}
      {state middle after : LoweringState} {code packing : Code} {values packed : List Value}
      (names : (state.context table).classNamed? receiver = some className)
      (lowersArgs : LowersExprs table
        (argumentTy ((state.context table).staticCallee? className name)) args state code values
        middle)
      (packs : PacksArguments table ((state.context table).staticCallee? className name) values
        middle packing packed after) :
      LowersCall table (.call receiver name args) expected state (code ++ packing)
        (.invoke .static (.classRef className) name packed
          (Context.resultTy ((state.context table).staticCallee? className name) expected)) after
  | onObject {receiver : Expr} {name : String} {args : List Expr} {expected : Ty}
      {state reached middle after : LoweringState} {object : Lowered} {code packing : Code}
      {values packed : List Value} {own : Option MethodSignature} {mode : InvokeMode}
      {target : Value}
      (namesNone : (state.context table).classNamed? receiver = none)
      (lowersReceiver : LowersExpr table receiver table.classTy state object reached)
      (ownEq : own = (state.context table).instanceCallee? object.value.ty name)
      (lowersArgs : LowersExprs table (argumentTy own) args reached code values middle)
      (packs : PacksArguments table own values middle packing packed after)
      (targetEq : (mode, target) =
        if own.any MethodSignature.isStatic then (.static, .classRef table.className)
        else (.virtual, object.value)) :
      LowersCall table (.call receiver name args) expected state
        (object.code ++ code ++ packing)
        (.invoke mode target name packed (Context.resultTy own expected)) after

end

/-- Parentheses do not matter. -/
theorem LowersExpr.unparen {table : SymbolTable} {expr : Expr} {expected : Ty}
    {state after : LoweringState}
    {lowered : Lowered} (lowers : LowersExpr table expr expected state lowered after) :
    LowersExpr table expr.unparen expected state lowered after := by
  fun_induction Expr.unparen expr with
  | case1 inner ih =>
      cases lowers with
      | paren lowers => exact ih lowers
      | call lowersCall => cases lowersCall
  | case2 => exact lowers

/-! ## Statements -/

/-- A statement is lowered to code. -/
inductive LowersStmt (table : SymbolTable) :
    Stmt → LoweringState → Code → LoweringState → Prop where
  | assignOperator {target value left right : Expr} {name : String} {op : BinaryOp}
      {state middle after : LoweringState} {first second : Lowered}
      (targetEq : target.unparen = .var name)
      (resolves : (state.context table).resolve? name = some (.declared op.resultTy))
      (valueEq : value.unparen = .binary op left right)
      (lowersLeft : LowersExpr table left op.operandTy state first middle)
      (lowersRight : LowersExpr table right op.operandTy middle second after) :
      LowersStmt table (.assign target value) state
        (first.code ++ second.code ++
          [.binary (.var name op.resultTy) op first.value second.value]) after
  | assignCall {target value : Expr} {name : String} {ty : Ty} {state after : LoweringState}
      {code : Code} {site : Call}
      (targetEq : target.unparen = .var name)
      (resolves : (state.context table).resolve? name = some (.declared ty))
      (lowersCall : LowersCall table value.unparen ty state code site after) :
      LowersStmt table (.assign target value) state
        (code ++ [.call (some (.var name ty)) site]) after
  | assignValue {target value : Expr} {name : String} {ty : Ty} {state after : LoweringState}
      {lowered : Lowered}
      (targetEq : target.unparen = .var name)
      (resolves : (state.context table).resolve? name = some (.declared ty))
      (apart : writesInto value ty = false)
      (lowers : LowersExpr table value ty state lowered after) :
      LowersStmt table (.assign target value) state
        (lowered.code ++ [.assign (.var name ty) lowered.value]) after
  | assignField {target value : Expr} {name : String} {ty : Ty} {state after : LoweringState}
      {lowered : Lowered}
      (targetEq : target.unparen = .var name)
      (resolves : (state.context table).resolve? name = some (.field ty))
      (lowers : LowersExpr table value ty state lowered after) :
      LowersStmt table (.assign target value) state
        (lowered.code ++ [.putField (selfValue table) name lowered.value]) after
  | assignElement {target value array position : Expr}
      {state first second after : LoweringState} {lowered base offset : Lowered}
      (targetEq : target.unparen = .index array position)
      (lowers : LowersExpr table value ((state.context table).assignedElement array) state lowered
        first)
      (lowersArray : LowersExpr table array
        (Ty.arrayOf ((state.context table).assignedElement array).name) first base second)
      (lowersPosition : LowersExpr table position Ty.int second offset after) :
      LowersStmt table (.assign target value) state
        (lowered.code ++ base.code ++ offset.code ++
          [.assign (.element base.value offset.value base.value.ty.element) lowered.value]) after
  | exprCall {expr : Expr} {state after : LoweringState} {code : Code} {site : Call}
      (lowersCall : LowersCall table expr.unparen Ty.void state code site after) :
      LowersStmt table (.expr expr) state (code ++ [.call none site]) after
  | exprValue {expr : Expr} {state after : LoweringState} {lowered : Lowered}
      (noSelfCall : ∀ name args, expr.unparen ≠ .selfCall name args)
      (noCall : ∀ receiver name args, expr.unparen ≠ .call receiver name args)
      (lowers : LowersExpr table expr Ty.void state lowered after) :
      LowersStmt table (.expr expr) state lowered.code after
  | returnNothing {value : Option Expr} {state : LoweringState}
      (nothing : value = none ∨ state.scope.signature.isMain) :
      LowersStmt table (.ret value) state [.ret none] state
  | returnValue {value : Expr} {state after : LoweringState} {lowered : Lowered}
      (notMain : state.scope.signature.isMain = false)
      (lowers : LowersExpr table value state.scope.signature.returnTy state lowered after) :
      LowersStmt table (.ret (some value)) state (lowered.code ++ [.ret (some lowered.value)])
        after
  | ifElse {cond : Expr} {thenBranch elseBranch : Stmt} {state first second after : LoweringState}
      {lowered : Lowered} {elseCode thenCode : Code}
      (lowersCond : LowersExpr table cond Ty.boolean state lowered first)
      (lowersElse :
        LowersStmt table elseBranch (first.withLabels .ifThen .ifEnd) elseCode second)
      (lowersThen : LowersStmt table thenBranch second thenCode after) :
      LowersStmt table (.ifElse cond thenBranch elseBranch) state
        (lowered.code ++ [.branch lowered.value (first.nextLabel .ifThen)] ++ elseCode ++
          [.goto (first.nextLabel .ifEnd), .label (first.nextLabel .ifThen)] ++ thenCode ++
          [.label (first.nextLabel .ifEnd)]) after
  | whileLoop {cond : Expr} {body : Stmt} {state first after : LoweringState} {lowered : Lowered}
      {bodyCode : Code}
      (lowersCond :
        LowersExpr table cond Ty.boolean (state.withLabels .whileCond .whileEnd) lowered first)
      (lowersBody : LowersStmt table body (first.withTemp table Ty.boolean) bodyCode after) :
      LowersStmt table (.whileLoop cond body) state
        ([.label (state.nextLabel .whileCond)] ++ lowered.code ++
          [.not (first.nextTemp table Ty.boolean) lowered.value] ++
          [.branch (first.nextTemp table Ty.boolean) (state.nextLabel .whileEnd)] ++ bodyCode ++
          [.goto (state.nextLabel .whileCond), .label (state.nextLabel .whileEnd)]) after
  | blockNil (state : LoweringState) : LowersStmt table (.block []) state [] state
  | blockCons {stmt : Stmt} {rest : List Stmt} {state middle after : LoweringState}
      {code restCode : Code}
      (lowersFirst : LowersStmt table stmt state code middle)
      (lowersRest : LowersStmt table (.block rest) middle restCode after) :
      LowersStmt table (.block (stmt :: rest)) state (code ++ restCode) after

/-! ## Methods -/

/-- Whether the last instruction of code leaves the method. -/
def endsInReturn (code : Code) : Bool :=
  match code.getLast? with
  | some instr => instr.isReturn
  | none => false

theorem completeBody_eq (signature : MethodSignature) (code : Code) :
    completeBody signature code =
      if (signature.isMain || signature.returnTy.isVoid) && !endsInReturn code then
        code ++ [.ret none]
      else code := rfl

/-- The method that stands for a signature, with the temporaries and the code of
its body. -/
def methodOf (signature : MethodSignature) (temps : List Symbol) (code : Code) : Method where
  name := signature.name
  returnTy := signature.returnTy
  isPublic := signature.isPublic
  isStatic := signature.isStatic
  params := signature.params
  locals := signature.locals
  temps := temps
  body := completeBody signature code
  labels := Code.record [] 0 (completeBody signature code)

/-- The state in which the lowering of a method begins. -/
def LoweringState.entering (state : LoweringState) (signature : MethodSignature) : LoweringState :=
  { state with scope := { signature } }

/-- A declared method is lowered against its signature. -/
inductive LowersMethod (table : SymbolTable) (decl : MethodDecl) :
    LoweringState → Method → LoweringState → Prop where
  | intro {signature : MethodSignature} {state after : LoweringState} {code : Code}
      (found : table.method? decl.name = some signature)
      (lowers : LowersStmt table (.block decl.body) (state.entering signature) code after) :
      LowersMethod table decl state (methodOf signature after.scope.temps code)
        { after with scope.temps := [] }

end ClassCompiler.ThreeAddress
