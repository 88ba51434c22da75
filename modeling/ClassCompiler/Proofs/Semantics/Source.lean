import ClassCompiler.Proofs.Semantics.ThreeAddress
import ClassCompiler.Proofs.Semantics.Typing

/-!
# Running source programs

Expressions are evaluated from left to right and each of them once. They change
the memory, never a local variable, so the variables of the method are only read
while an expression is evaluated. The conjunction evaluates both operands, and the
assignment to an array element evaluates the value, then the array, then the
index.

A statement completes normally, returns or aborts; a loop may do none of these.
-/

namespace ClassCompiler.Semantics

section Expressions

variable (context : Context) (world : World Scalar)

/-- The key of a field of the current object. -/
def Context.fieldKey (name : String) : FieldKey := ⟨world.path context.table.className, name⟩

/-- The value of a name: a variable, or a field of the current object. -/
def evalVar (env : String → Val Scalar) (name : String) :
    Action (Memory Scalar) (Val Scalar) :=
  match context.resolve? name with
  | some (.declared _) => return env name
  | some (.field ty) => do
      attempt (readField (← get).heap (context.fieldKey world name) (storageOf ty)
        (.ref world.self))
  | _ => throw .mismatch

/-- Assign values to the elements of an array from a position on. -/
def storeAll (elem : Ty) (array : Val Scalar) :
    Nat → List (Val Scalar) → Action (Memory Scalar) Unit
  | _, [] => return ()
  | position, value :: rest => do
      writeElement (storageOf elem) array (.int (Int32.ofNat position)) value
      storeAll elem array (position + 1) rest

/-- A new array that holds values. -/
def evalArray (elem : Ty) (values : List (Val Scalar)) :
    Action (Memory Scalar) (Val Scalar) := do
  let array ← createArray (world.path elem.name) (storageOf elem)
    (.int (Int32.ofNat values.length))
  storeAll elem array 0 values
  return array

/-- The arguments of a call and their types, after trailing arguments have been
collected. -/
def collectArguments (own : Option MethodSignature) (tys : List Ty)
    (values : List (Val Scalar)) : Action (Memory Scalar) (List Ty × List (Val Scalar)) :=
  match collected? own tys with
  | none => return (tys, values)
  | some (fixed, elem) => do
      let array ← evalArray world elem (values.drop fixed)
      return (tys.take fixed ++ [Ty.arrayOf elem.name], values.take fixed ++ [array])

/-- The call that is made with arguments that have been evaluated. -/
def callEvent (own : Option MethodSignature) (owner : Owner) (receiver : Option (Val Scalar))
    (name : String) (tys : List Ty) (values : List (Val Scalar)) (expected : Ty) :
    Action (Memory Scalar) (CallEvent Scalar) := do
  let (params, args) ← collectArguments world own tys values
  return ⟨owner, name, params, Context.resultTy own expected, receiver, args⟩

/-- A call without a receiver goes to the current object, or to the current class
if the caller or the callee is static. -/
def callOnSelf (name : String) (args : List Expr)
    (evaluated : (Nat → Ty) → Action (Memory Scalar) (List (Val Scalar))) (expected : Ty) :
    Action (Memory Scalar) (CallEvent Scalar) := do
  let own := context.table.method? name
  let values ← evaluated (expectedArgument own args)
  let tys := context.typesOf (expectedArgument own args) args
  if context.signature.isStatic || own.any MethodSignature.isStatic then
    callEvent world own (.static context.table.className) none name tys values expected
  else
    callEvent world own (.virtual context.table.classTy) (some (.ref world.self)) name tys values
      expected

/-- A call on a class, or on an object, which is evaluated before the arguments. A
static method of the current class is called on the class. -/
def callOn (receiver : Expr) (object : Action (Memory Scalar) (Val Scalar)) (name : String)
    (args : List Expr)
    (evaluated : (Nat → Ty) → Action (Memory Scalar) (List (Val Scalar))) (expected : Ty) :
    Action (Memory Scalar) (CallEvent Scalar) :=
  match context.classNamed? receiver with
  | some className => do
      let own := context.staticCallee? className name
      let values ← evaluated (expectedArgument own args)
      callEvent world own (.static className) none name
        (context.typesOf (expectedArgument own args) args) values expected
  | none => do
      let object ← object
      let ty := context.typeOf receiver context.table.classTy
      let own := context.instanceCallee? ty name
      let values ← evaluated (expectedArgument own args)
      let tys := context.typesOf (expectedArgument own args) args
      if own.any MethodSignature.isStatic then
        callEvent world own (.static context.table.className) none name tys values expected
      else callEvent world own (.virtual ty) (some object) name tys values expected

/-- The result of a call that is used as a value. -/
def callResult (call : Action (Memory Scalar) (CallEvent Scalar)) :
    Action (Memory Scalar) (Val Scalar) := do
  match ← invoke world (← call) with
  | some value => return value
  | none => throw .mismatch

variable (env : String → Val Scalar)

mutual

/-- Evaluate an expression where a type is expected. -/
def eval : Expr → Ty → Action (Memory Scalar) (Val Scalar)
  | .int value, _ => return .int value
  | .bool value, _ => return .bool value
  | .string value, _ => return .string value
  | .self, _ => return .ref world.self
  | .paren inner, expected => eval inner expected
  | .var name, _ => evalVar context world env name
  | .binary op left right, _ => do
      let left ← eval left op.operandTy
      let right ← eval right op.operandTy
      attempt (Val.binary op left right)
  | .not operand, _ => do
      let operand ← eval operand Ty.boolean
      attempt operand.not
  | .index array position, _ => do
      let elem := context.elementOf array
      let array ← eval array (Ty.arrayOf "int")
      let position ← eval position Ty.int
      attempt (readElement (← get).heap (storageOf elem) array position)
  | .length array, _ => do
      let array ← eval array (Ty.arrayOf "int")
      attempt (readLength (← get).heap array)
  | .newArray elem size, _ => do
      let size ← eval size Ty.int
      createArray (world.path elem.name) (storageOf (Ty.named elem.name)) size
  | .arrayInit elements, expected => do
      let values ← evalAll (fun _ => Context.elementTy expected) elements
      evalArray world (Context.elementTy expected) values
  | .newObject className, _ => do
      let object ← createObject (world.path className)
      let _ ← invoke world
        ⟨.special (Ty.named className), "<init>", [], Ty.void, some object, []⟩
      return object
  | .selfCall name args, expected =>
      callResult world
        (callOnSelf context world name args (fun expectedAt => evalAll expectedAt args) expected)
  | .call receiver name args, expected =>
      callResult world
        (callOn context world receiver (eval receiver context.table.classTy) name args
          (fun expectedAt => evalAll expectedAt args) expected)

/-- Evaluate expressions from left to right, each where its own type is expected. -/
def evalAll : (Nat → Ty) → List Expr → Action (Memory Scalar) (List (Val Scalar))
  | _, [] => return []
  | expectedAt, expr :: rest => do
      let value ← eval expr (expectedAt 0)
      let values ← evalAll (fun position => expectedAt (position + 1)) rest
      return value :: values

end

/-- The call that an expression makes after its receiver and arguments have been
evaluated. -/
def evalCall (expr : Expr) (expected : Ty) : Action (Memory Scalar) (CallEvent Scalar) :=
  match expr with
  | .selfCall name args =>
      callOnSelf context world name args
        (fun expectedAt => evalAll context world env expectedAt args) expected
  | .call receiver name args =>
      callOn context world receiver
        (eval context world env receiver context.table.classTy) name args
        (fun expectedAt => evalAll context world env expectedAt args) expected
  | _ => throw .mismatch

/-- Evaluate an expression for its effects. A call need not have a result. -/
def evalDropped (expr : Expr) : Action (Memory Scalar) Unit :=
  match expr.unparen with
  | .selfCall name args => do
      let event ← evalCall context world env (.selfCall name args) Ty.void
      let _ ← invoke world event
  | .call receiver name args => do
      let event ← evalCall context world env (.call receiver name args) Ty.void
      let _ ← invoke world event
  | _ => do
      let _ ← eval context world env expr Ty.void

/-- Evaluate a condition. -/
def evalCondition (cond : Expr) : Action (Memory Scalar) Bool := do
  let value ← eval context world env cond Ty.boolean
  attempt value.test

end Expressions

/-! ## Statements -/

/-- How a statement completes. -/
inductive Completion where
  | normal (env : String → Val Scalar) (memory : Memory Scalar)
  | returned (value : Option (Val Scalar)) (memory : Memory Scalar)
  | aborted (reason : Abort) (memory : Memory Scalar)

/-- Whether a completion goes on with the next statement. -/
def Completion.isNormal : Completion → Bool
  | .normal _ _ => true
  | _ => false

/-- The completion of a computation: what becomes of its value, or an abort. -/
def Completion.of {α : Type} (complete : α → Memory Scalar → Completion) :
    EStateM.Result Abort (Memory Scalar) α → Completion
  | .ok value memory => complete value memory
  | .error reason memory => .aborted reason memory

section Statements

variable (context : Context) (world : World Scalar)

/-- Assign to a variable, a field or an array element. -/
def execAssign (target value : Expr) (env : String → Val Scalar)
    (memory : Memory Scalar) : Completion :=
  match target.unparen with
  | .var name =>
      match context.resolve? name with
      | some (.declared ty) =>
          .of (fun result => .normal (assignVariable env name result))
            (eval context world env value ty memory)
      | some (.field ty) =>
          .of (fun _ => .normal env) ((do
            let result ← eval context world env value ty
            writeField (context.fieldKey world name) (storageOf (context.typeOf value ty))
              (.ref world.self) result : Action (Memory Scalar) Unit) memory)
      | _ => .aborted .mismatch memory
  | .index array position =>
      let elem := context.elementOf array
      .of (fun _ => .normal env) ((do
        let result ← eval context world env value elem
        let base ← eval context world env array (Ty.arrayOf "int")
        let index ← eval context world env position Ty.int
        writeElement (storageOf elem) base index result : Action (Memory Scalar) Unit) memory)
  | _ => .aborted .mismatch memory

/-- Evaluate an expression for its effects. -/
def execExpr (expr : Expr) (env : String → Val Scalar) (memory : Memory Scalar) :
    Completion :=
  .of (fun _ => .normal env) (evalDropped context world env expr memory)

/-- Return. The entry point returns nothing and does not evaluate its value; an
expression of type `void` has no value to return. -/
def execReturn (value : Option Expr) (env : String → Val Scalar)
    (memory : Memory Scalar) : Completion :=
  match value with
  | none => .returned none memory
  | some value =>
      if context.signature.isMain then .returned none memory
      else
        .of (fun result => .returned
            (if (context.typeOf value context.signature.returnTy).isVoid then none
              else some result))
          (eval context world env value context.signature.returnTy memory)

/-- A statement, started with variables and a memory, completes. -/
inductive Exec : Stmt → (String → Val Scalar) → Memory Scalar → Completion → Prop where
  | assign (target value : Expr) (env : String → Val Scalar) (memory : Memory Scalar) :
      Exec (.assign target value) env memory
        (execAssign context world target value env memory)
  | expr (expr : Expr) (env : String → Val Scalar) (memory : Memory Scalar) :
      Exec (.expr expr) env memory (execExpr context world expr env memory)
  | ret (value : Option Expr) (env : String → Val Scalar) (memory : Memory Scalar) :
      Exec (.ret value) env memory (execReturn context world value env memory)
  | ifAborts {cond : Expr} {thenBranch elseBranch : Stmt} {env : String → Val Scalar}
      {memory after : Memory Scalar} {reason : Abort} :
      evalCondition context world env cond memory = .error reason after →
      Exec (.ifElse cond thenBranch elseBranch) env memory (.aborted reason after)
  | ifTrue {cond : Expr} {thenBranch elseBranch : Stmt} {env : String → Val Scalar}
      {memory after : Memory Scalar} {completion : Completion} :
      evalCondition context world env cond memory = .ok true after →
      Exec thenBranch env after completion →
      Exec (.ifElse cond thenBranch elseBranch) env memory completion
  | ifFalse {cond : Expr} {thenBranch elseBranch : Stmt} {env : String → Val Scalar}
      {memory after : Memory Scalar} {completion : Completion} :
      evalCondition context world env cond memory = .ok false after →
      Exec elseBranch env after completion →
      Exec (.ifElse cond thenBranch elseBranch) env memory completion
  | whileAborts {cond : Expr} {body : Stmt} {env : String → Val Scalar}
      {memory after : Memory Scalar} {reason : Abort} :
      evalCondition context world env cond memory = .error reason after →
      Exec (.whileLoop cond body) env memory (.aborted reason after)
  | whileEnds {cond : Expr} {body : Stmt} {env : String → Val Scalar}
      {memory after : Memory Scalar} :
      evalCondition context world env cond memory = .ok false after →
      Exec (.whileLoop cond body) env memory (.normal env after)
  | whileLeaves {cond : Expr} {body : Stmt} {env : String → Val Scalar}
      {memory after : Memory Scalar} {completion : Completion} :
      evalCondition context world env cond memory = .ok true after →
      Exec body env after completion → completion.isNormal = false →
      Exec (.whileLoop cond body) env memory completion
  | whileTurns {cond : Expr} {body : Stmt} {env next : String → Val Scalar}
      {memory after last : Memory Scalar} {completion : Completion} :
      evalCondition context world env cond memory = .ok true after →
      Exec body env after (.normal next last) →
      Exec (.whileLoop cond body) next last completion →
      Exec (.whileLoop cond body) env memory completion
  | blockEnds (env : String → Val Scalar) (memory : Memory Scalar) :
      Exec (.block []) env memory (.normal env memory)
  | blockLeaves {stmt : Stmt} {rest : List Stmt} {env : String → Val Scalar}
      {memory : Memory Scalar} {completion : Completion} :
      Exec stmt env memory completion → completion.isNormal = false →
      Exec (.block (stmt :: rest)) env memory completion
  | blockTurns {stmt : Stmt} {rest : List Stmt} {env next : String → Val Scalar}
      {memory after : Memory Scalar} {completion : Completion} :
      Exec stmt env memory (.normal next after) →
      Exec (.block rest) next after completion →
      Exec (.block (stmt :: rest)) env memory completion

/-- How a method ends when its body completes. A body that completes normally
returns if the method has no result. -/
def Completion.ending (signature : MethodSignature) :
    Completion → Outcome Scalar × Memory Scalar
  | .normal _ memory =>
      (if signature.isMain || signature.returnTy.isVoid then .returned none else .fellThrough,
        memory)
  | .returned value memory => (.returned value, memory)
  | .aborted reason memory => (.aborted reason, memory)

/-- The body of a method, started with variables and a memory, ends. -/
def BodyEnds (body : List Stmt) (env : String → Val Scalar) (memory : Memory Scalar)
    (ending : Outcome Scalar × Memory Scalar) : Prop :=
  ∃ completion, Exec context world (.block body) env memory completion ∧
    completion.ending context.signature = ending

end Statements

end ClassCompiler.Semantics
