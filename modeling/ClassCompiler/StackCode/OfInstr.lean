import ClassCompiler.StackCode.Comparison
import ClassCompiler.StackCode.Frame
import ClassCompiler.StackCode.Paths
import ClassCompiler.StackCode.Selection
import ClassCompiler.ThreeAddress.Listing

/-!
# Stack code of a three-address instruction

Operands are pushed from left to right, the operation is applied, and the result
is popped into its destination. The emitter keeps the numbers of comparison
labels beside the frame, so that they go on counting when a method fails.
-/

namespace ClassCompiler.StackCode

open ThreeAddress (Value Call Method)

/-- The state of an emission: the frame of the method at hand, and the numbers of
the comparison labels of the whole class. -/
structure Emitter where
  frame : Frame Instr
  comparisons : ComparisonCounts

/-- An emission may fail, and keeps its state when it does. -/
abbrev Emission := EStateM CompileError Emitter

/-- What code depends on beyond its method: the paths of classes, and the path of
the parent class. -/
structure Linkage where
  paths : ClassPaths
  superPath : String
deriving Repr, Inhabited

namespace Emission

/-- Continue with a result or fail with its error. -/
def attempt {α : Type} : Except CompileError α → Emission α
  | .ok value => pure value
  | .error error => throw error

/-- Change the frame. -/
def modifyFrame (change : Frame Instr → Frame Instr) : Emission Unit :=
  modify fun emitter => { emitter with frame := change emitter.frame }

/-- Add an instruction. -/
def emit (instr : Instr) : Emission Unit := modifyFrame (·.emit instr)

/-- Add a label. -/
def emitLabel (name : String) : Emission Unit := modifyFrame (·.emitLabel name)

/-- Account for values pushed. -/
def push (count : Nat) : Emission Unit := modifyFrame (·.push count)

/-- Account for values popped. -/
def pop (count : Nat) : Emission Unit := do
  let emitter ← get
  let frame ← attempt (emitter.frame.pop count)
  set { emitter with frame }

/-- The slot of a variable. -/
def slot (name : String) : Emission Nat := do
  attempt ((← get).frame.slot name)

/-- Take the number of the next comparison of a kind. -/
def takeComparison (kind : Comparison) : Emission Nat := do
  let emitter ← get
  set { emitter with comparisons := emitter.comparisons.skip kind }
  return emitter.comparisons.next kind

end Emission

open Emission

/-- Push a value. -/
def loadValue : Value → Emission Unit
  | .const (.int value) => do
      emit (.pushInt value)
      push 1
  | .const (.bool value) => do
      emit (pushBool value)
      push 1
  | .const (.string value) => do
      emit (.pushString value)
      push 1
  | .self _ => do
      emit (.load .ref 0)
      push 1
  | .temp name ty => do
      emit (← attempt (loadInstr ty (← slot name)))
      push 1
  | .var name ty => do
      emit (← attempt (loadInstr ty (← slot name)))
      push 1
  | .element array position ty => do
      loadValue array
      loadValue position
      emit (.arrayLoad (elementKindOf ty))
      pop 2
      push 1
  | .classRef name => throw (.unsupported (.classAsValue name))

/-- Push values from left to right. -/
def loadValues : List Value → Emission Unit
  | [] => pure ()
  | value :: rest => do
      loadValue value
      loadValues rest

/-- Pop the top of the stack into a variable. -/
def storeValue : Value → Emission Unit
  | .temp name ty => do
      emit (← attempt (storeInstr ty (← slot name)))
      pop 1
  | .var name ty => do
      emit (← attempt (storeInstr ty (← slot name)))
      pop 1
  | value => throw (.unsupported (.storeInto value.text))

/-- The path of the class that declares the members of a value. Arrays and
built-in types other than the string class have no members. -/
def ownerOf (linkage : Linkage) (object : Value) : Except CompileError String :=
  let ty := object.ty
  if ty.isArray || (ty.isPrimitive && ty.name != "String") then
    .error (.unsupported (.memberAccess ty))
  else .ok (linkage.paths.classPath ty.name)

/-- The variable and the amount of an operation that only changes a variable by a
small constant: `x := x + k`, `x := k + x` or `x := x - k`. -/
def increment? (dest : Value) (op : BinaryOp) (left right : Value) : Option (String × Int8) :=
  match dest.varName? with
  | none => none
  | some name =>
      if dest.ty.isInt then
        let amount? :=
          if left.varName? = some name then right.asInt?
          else if right.varName? = some name ∧ op = .arith .add then left.asInt?
          else none
        (amount?.bind (incrementDelta? op)).map fun delta => (name, delta)
      else none

/-- Turn the two integers on top of the stack into the truth value of a
comparison. Both branches push one value, which is accounted for once. -/
def emitComparison (kind : Comparison) : Emission Unit := do
  let number ← takeComparison kind
  emit (.arith .sub)
  pop 1
  emit (.branch kind (trueLabel kind number))
  pop 1
  emit (.pushInt 0)
  push 1
  emit (.goto (endLabel kind number))
  emitLabel (trueLabel kind number)
  emit (.pushInt 1)
  emitLabel (endLabel kind number)

/-- Apply a binary operator to the two values on top of the stack. -/
def emitOperator (op : BinaryOp) : Emission Unit :=
  match selectOperator op with
  | .inl instr => do
      emit instr
      pop 1
  | .inr kind => emitComparison kind

/-- The code of a binary operation. -/
def emitBinary (dest : Value) (op : BinaryOp) (left right : Value) : Emission Unit :=
  match increment? dest op left right with
  | some (name, delta) => do emit (.increment (← slot name) delta)
  | none => do
      loadValue left
      loadValue right
      emitOperator op
      storeValue dest

/-- The code of an assignment to a variable or to an array element. -/
def emitAssign (dest value : Value) : Emission Unit :=
  match dest with
  | .element array position ty => do
      loadValue array
      loadValue position
      loadValue value
      emit (.arrayStore (elementKindOf ty))
      pop 3
  | _ => do
      loadValue value
      storeValue dest

/-- The path of the class whose method an invocation names. A constructor called
on the current object is that of the parent class. -/
def invokeOwner (linkage : Linkage) (mode : ThreeAddress.InvokeMode) (target : Value)
    (method : String) : Except CompileError String :=
  match mode, target with
  | .static, .classRef name => .ok (linkage.paths.classPath name)
  | .static, target => .error (.unresolvedCall (target.text ++ "." ++ method))
  | .special, .self _ => .ok linkage.superPath
  | _, target => ownerOf linkage target

/-- The code of an invocation: the receiver of an instance call, the arguments,
and the call itself, which leaves a value unless its result type is `void`. -/
def emitInvoke (linkage : Linkage) (mode : ThreeAddress.InvokeMode) (call : Call) :
    Emission Unit := do
  match call.method, call.target with
  | some method, some target =>
      let owner ← attempt (invokeOwner linkage mode target method)
      let hasReceiver := mode != .static
      if hasReceiver then loadValue target
      loadValues call.args
      let descriptor ← attempt
        (linkage.paths.methodDescriptor (call.args.map Value.ty) call.returnTy)
      emit (.invoke mode owner method descriptor)
      pop (call.args.length + if hasReceiver then 1 else 0)
      if call.returnsValue then push 1
  | _, _ => throw (.unresolvedCall call.text)

/-- What a new array holds, from the type of the array. -/
def arrayElementOf (linkage : Linkage) (arrayTy : Ty) : Except CompileError ArrayElement :=
  let elem := arrayTy.element
  if elem.isInt then .ok .int
  else if elem.isBoolean then .ok .boolean
  else if elem.isVoid then .error (.noDescriptor arrayTy)
  else .ok (.object (linkage.paths.classPath elem.name))

/-- The code of a call up to its result, which is left on the stack. -/
def emitCall (linkage : Linkage) (call : Call) : Emission Unit :=
  match call.invocation with
  | .new => do
      let className := match call.target with
        | some (.classRef name) => name
        | _ => call.returnTy.name
      emit (.new (linkage.paths.classPath className))
      push 1
  | .newArray =>
      match call.args with
      | [] => throw (.internal .missingArraySize)
      | size :: _ => do
          loadValue size
          emit (.newArray (← attempt (arrayElementOf linkage call.returnTy)))
  | .arrayLength =>
      match call.target with
      | none => throw (.internal .missingArrayOperand)
      | some array => do
          loadValue array
          emit .arrayLength
  | .invoke mode => emitInvoke linkage mode call

/-- Store the result of a call, or drop it if there is one that nobody wants. -/
def emitResult (dest : Option Value) (call : Call) : Emission Unit :=
  match dest with
  | some dest => storeValue dest
  | none => do
      if call.returnsValue then
        emit .pop
        pop 1

/-- The code of an instruction of a method. The entry point returns nothing,
whatever its instructions return. -/
def emitInstr (linkage : Linkage) (method : Method) : ThreeAddress.Instr → Emission Unit
  | .assign dest value => emitAssign dest value
  | .binary dest op left right => emitBinary dest op left right
  | .not dest operand => do
      loadValue operand
      emit (.pushInt 1)
      push 1
      emit .xor
      pop 1
      storeValue dest
  | .getField dest object field ty => do
      loadValue object
      let owner ← attempt (ownerOf linkage object)
      emit (.getField owner field (← attempt (linkage.paths.descriptor ty)))
      storeValue dest
  | .putField object field value => do
      loadValue object
      loadValue value
      let owner ← attempt (ownerOf linkage object)
      emit (.putField owner field (← attempt (linkage.paths.descriptor value.ty)))
      pop 2
  | .call dest call => do
      emitCall linkage call
      emitResult dest call
  | .ret (some value) => do
      if method.isMain then emit (.ret none)
      else
        loadValue value
        emit (← attempt (returnInstr value.ty))
        pop 1
  | .ret none => emit (.ret none)
  | .goto target => emit (.goto target)
  | .branch cond target => do
      loadValue cond
      emit (.branch .notEqual target)
      pop 1
  | .label name => emitLabel name

/-- The code of a body. After every instruction the operand stack must be empty. -/
def emitBody (linkage : Linkage) (method : Method) : List ThreeAddress.Instr → Emission Unit
  | [] => pure ()
  | instr :: rest => do
      emitInstr linkage method instr
      let depth := (← get).frame.depth
      if depth ≠ 0 then throw (.unbalancedStack method.name instr.text depth)
      emitBody linkage method rest

end ClassCompiler.StackCode
