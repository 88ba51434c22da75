import ClassCompiler.ThreeAddress.Instr
import ClassCompiler.ThreeAddress.Scope

/-!
# Three-address code of expressions

An expression becomes the code that computes it and the value that holds the
result afterwards. The value is always a simple operand: whatever takes a step to
compute is held in a new temporary, so that every call is evaluated once and in
the order in which the source writes it.

Each expression is lowered with the type its context expects. The expectation
types the result of calls about which the symbol table says nothing, and the
elements of array literals.
-/

namespace ClassCompiler.ThreeAddress

open Lowering

/-- The code of an expression and the value it leaves. -/
structure Lowered where
  code : Code
  value : Value
deriving DecidableEq, Repr, Inhabited

/-- Who receives a call: a class or an object. -/
inductive Receiver where
  | static (className : String)
  | object (value : Value)
deriving DecidableEq, Repr, Inhabited

/-- The current object. -/
def selfValue (table : SymbolTable) : Value := .self table.classTy

/-- The value of a name. A field is read into a temporary, and a class name is no
value. -/
def lowerVar (table : SymbolTable) (name : String) : Lowering Lowered := do
  match ← resolve table name with
  | .declared ty => return ⟨[], .var name ty⟩
  | .field ty =>
      let dest ← freshTemp table ty
      return ⟨[.getField dest (selfValue table) name ty], dest⟩
  | .className => throw (.unresolvedSymbol name (← scope).signature.name)

/-- The negation of a value in a temporary. -/
def negate (table : SymbolTable) (value : Value) : Lowering Lowered := do
  let dest ← freshTemp table Ty.boolean
  return ⟨[.not dest value], dest⟩

/-- A new object, whose constructor has run. -/
def lowerNewObject (table : SymbolTable) (className : String) : Lowering Lowered := do
  let site := Call.newObject className
  let object ← freshTemp table site.returnTy
  return ⟨[.call (some object) site, .call none (.construct object)], object⟩

/-- A new array that holds the given values. -/
def packArray (table : SymbolTable) (elem : Ty) (values : List Value) : Lowering Lowered := do
  if values.length < 2147483648 then
    let site := Call.newArray elem (.int (Int32.ofNat values.length))
    let array ← freshTemp table site.returnTy
    let stores := values.zipIdx.map fun (value, position) =>
      Instr.assign (.element array (.int (Int32.ofNat position)) elem) value
    return ⟨.call (some array) site :: stores, array⟩
  else throw (.unsupported .oversizedArrayLiteral)

/-! ## Calls -/

/-- The method of the current class that a call addresses, if it does. -/
def ownMethod? (table : SymbolTable) (receiver : Receiver) (name : String) :
    Option MethodSignature :=
  match receiver with
  | .static className => if className = table.className then table.method? name else none
  | .object value => if value.ty = table.classTy then table.method? name else none

/-- The mode and target of a call. A static method of the current class is called
on the class, also when the source names an object. -/
def callTarget (table : SymbolTable) (own : Option MethodSignature) :
    Receiver → InvokeMode × Value
  | .static className => (.static, .classRef className)
  | .object value =>
      if own.any MethodSignature.isStatic then (.static, .classRef table.className)
      else (.virtual, value)

/-- The parameters of a callee; none are known of a method of another class. -/
def calleeParams (own : Option MethodSignature) : List Symbol :=
  match own with
  | some signature => signature.params
  | none => []

/-- The element type into which a callee collects trailing arguments. -/
def varargElement? (own : Option MethodSignature) : Option Ty :=
  match own with
  | some signature =>
      if signature.isVararg then signature.params.getLast?.map fun param => param.ty.element
      else none
  | none => none

/-- The type expected of an argument: that of its parameter, the element type for
the trailing arguments of a vararg method, and `int` where nothing is known. -/
def argumentTy (own : Option MethodSignature) (position : Nat) : Ty :=
  let declared := match (calleeParams own)[position]? with
    | some param => param.ty
    | none => Ty.int
  match varargElement? own with
  | some elem => if (calleeParams own).length - 1 ≤ position then elem else declared
  | none => declared

/-- The arguments a callee receives. Trailing arguments of a vararg method are
packed into a new array, unless a single array takes their place. -/
def packArguments (table : SymbolTable) (own : Option MethodSignature) (values : List Value) :
    Lowering (Code × List Value) :=
  match varargElement? own with
  | none => pure ([], values)
  | some elem => do
      let fixed := (calleeParams own).length - 1
      let leading := values.take fixed
      let trailing := values.drop fixed
      if trailing.length = 1 ∧ trailing.all (fun value => value.ty.isArray) then
        return ([], leading ++ trailing)
      else
        let packed ← packArray table elem trailing
        return (packed.code, leading ++ [packed.value])

/-- The code that runs before a call, and the call. The receiver is computed
first, then the arguments, each with the type its parameter expects. -/
def prepareCall (table : SymbolTable) (receiver : Lowering (Code × Receiver)) (name : String)
    (arguments : (Nat → Ty) → Lowering (Code × List Value)) (expected : Ty) :
    Lowering (Code × Call) := do
  let (receiverCode, receiver) ← receiver
  let own := ownMethod? table receiver name
  let (mode, target) := callTarget table own receiver
  let returnTy := match own with
    | some signature => signature.returnTy
    | none => expected
  let (argumentCode, values) ← arguments (argumentTy own)
  let (packCode, values) ← packArguments table own values
  return (receiverCode ++ argumentCode ++ packCode, .invoke mode target name values returnTy)

/-- The receiver of a call that names none: the current object, or the current
class if the caller or the callee is static. -/
def implicitReceiver (table : SymbolTable) (name : String) : Lowering (Code × Receiver) := do
  if (← scope).signature.isStatic || (table.method? name).any MethodSignature.isStatic then
    return ([], .static table.className)
  else return ([], .object (selfValue table))

/-- An object that receives a call is computed. -/
def objectReceiver (lowered : Lowering Lowered) : Lowering (Code × Receiver) := do
  let object ← lowered
  return (object.code, .object object.value)

/-- The receiver a call names. A name that stands for a class is the class; any
other expression is an object. -/
def explicitReceiver (table : SymbolTable) (expr : Expr) (lowered : Lowering Lowered) :
    Lowering (Code × Receiver) :=
  match expr.unparen with
  | .var name => do
      match ← resolve table name with
      | .className => return ([], .static name)
      | _ => objectReceiver lowered
  | _ => objectReceiver lowered

/-- The result of a call in a temporary. A `void` call has none. -/
def callValue (table : SymbolTable) (name : String) (prepared : Lowering (Code × Call)) :
    Lowering Lowered := do
  let (code, site) ← prepared
  if site.returnTy.isVoid then throw (.unsupported (.voidCallAsValue name))
  else
    let dest ← freshTemp table site.returnTy
    return ⟨code ++ [.call (some dest) site], dest⟩

/-! ## Expressions -/

/-- The element type of an array literal where a type is expected. -/
def literalElement (expected : Ty) : Ty := if expected.isArray then expected.element else Ty.int

mutual

/-- Lower an expression where a type is expected. -/
def lowerExpr (table : SymbolTable) : Expr → Ty → Lowering Lowered
  | .int value, _ => return ⟨[], .int value⟩
  | .bool value, _ => return ⟨[], .bool value⟩
  | .string value, _ => return ⟨[], .string value⟩
  | .self, _ => return ⟨[], selfValue table⟩
  | .paren inner, expected => lowerExpr table inner expected
  | .var name, _ => lowerVar table name
  | .binary op left right, _ => do
      let left ← lowerExpr table left op.operandTy
      let right ← lowerExpr table right op.operandTy
      let dest ← freshTemp table op.resultTy
      return ⟨left.code ++ right.code ++ [.binary dest op left.value right.value], dest⟩
  | .not operand, _ => do
      let operand ← lowerExpr table operand Ty.boolean
      let negated ← negate table operand.value
      return ⟨operand.code ++ negated.code, negated.value⟩
  | .index array position, _ => do
      let array ← lowerExpr table array (Ty.arrayOf "int")
      let position ← lowerExpr table position Ty.int
      let elem := array.value.ty.element
      let dest ← freshTemp table elem
      return ⟨array.code ++ position.code ++
        [.assign dest (.element array.value position.value elem)], dest⟩
  | .length array, _ => do
      let array ← lowerExpr table array (Ty.arrayOf "int")
      let dest ← freshTemp table Ty.int
      return ⟨array.code ++ [.call (some dest) (.arrayLength array.value)], dest⟩
  | .newArray elem size, _ => do
      let size ← lowerExpr table size Ty.int
      let site := Call.newArray elem size.value
      let dest ← freshTemp table site.returnTy
      return ⟨size.code ++ [.call (some dest) site], dest⟩
  | .arrayInit elements, expected => do
      let elem := literalElement expected
      let (code, values) ← lowerExprs table (fun _ => elem) elements
      let packed ← packArray table elem values
      return ⟨code ++ packed.code, packed.value⟩
  | .newObject className, _ => lowerNewObject table className
  | .selfCall name args, expected =>
      callValue table name
        (prepareCall table (implicitReceiver table name) name
          (fun expectedAt => lowerExprs table expectedAt args) expected)
  | .call receiver name args, expected =>
      callValue table name
        (prepareCall table
          (explicitReceiver table receiver (lowerExpr table receiver table.classTy)) name
          (fun expectedAt => lowerExprs table expectedAt args) expected)

/-- Lower expressions from left to right, each where its own type is expected. -/
def lowerExprs (table : SymbolTable) :
    (Nat → Ty) → List Expr → Lowering (Code × List Value)
  | _, [] => return ([], [])
  | expectedAt, expr :: rest => do
      let first ← lowerExpr table expr (expectedAt 0)
      let (code, values) ← lowerExprs table (fun position => expectedAt (position + 1)) rest
      return (first.code ++ code, first.value :: values)

end

/-- The code before a call without a receiver, and the call. -/
def lowerSelfCall (table : SymbolTable) (name : String) (args : List Expr) (expected : Ty) :
    Lowering (Code × Call) :=
  prepareCall table (implicitReceiver table name) name
    (fun expectedAt => lowerExprs table expectedAt args) expected

/-- The code before a call on a receiver, and the call. -/
def lowerCall (table : SymbolTable) (receiver : Expr) (name : String) (args : List Expr)
    (expected : Ty) : Lowering (Code × Call) :=
  prepareCall table
    (explicitReceiver table receiver (lowerExpr table receiver table.classTy)) name
    (fun expectedAt => lowerExprs table expectedAt args) expected

/-- A call without a receiver leaves its result in a temporary. -/
theorem lowerExpr_selfCall (table : SymbolTable) (name : String) (args : List Expr)
    (expected : Ty) :
    lowerExpr table (.selfCall name args) expected =
      callValue table name (lowerSelfCall table name args expected) := by
  rw [lowerExpr, lowerSelfCall]

/-- A call on a receiver leaves its result in a temporary. -/
theorem lowerExpr_call (table : SymbolTable) (receiver : Expr) (name : String)
    (args : List Expr) (expected : Ty) :
    lowerExpr table (.call receiver name args) expected =
      callValue table name (lowerCall table receiver name args expected) := by
  rw [lowerExpr, lowerCall]

end ClassCompiler.ThreeAddress
