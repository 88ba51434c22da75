import ClassCompiler.Error
import ClassCompiler.StackCode.Instr

/-!
# Instruction selection by type

Which instruction loads, stores, returns or moves a value depends on the type of
the value alone.
-/

namespace ClassCompiler.StackCode

/-- The category of the values of a type. `void` has no values. -/
def categoryOf (ty : Ty) : Except CompileError Category :=
  if ty.isVoid then .error (.unsupported .voidOnStack)
  else .ok (if ty.isIntLike then .int else .ref)

/-- The instruction that pushes a truth value. -/
def pushBool (value : Bool) : Instr := .pushInt (if value then 1 else 0)

/-- The instruction that pushes the value of a slot. -/
def loadInstr (ty : Ty) (slot : Nat) : Except CompileError Instr := do
  return .load (← categoryOf ty) slot

/-- The instruction that pops a value into a slot. -/
def storeInstr (ty : Ty) (slot : Nat) : Except CompileError Instr := do
  return .store (← categoryOf ty) slot

/-- The instruction that returns a value of a type. -/
def returnInstr (ty : Ty) : Except CompileError Instr :=
  if ty.isVoid then .ok (.ret none) else do return .ret (some (← categoryOf ty))

/-- The array instructions that move elements of a type. -/
def elementKindOf (elem : Ty) : ElementKind :=
  if elem.isInt then .int else if elem.isBoolean then .boolean else .ref

/-- What a binary operator becomes: a single instruction, or a comparison. -/
def selectOperator : BinaryOp → Instr ⊕ Comparison
  | .arith op => .inl (.arith op)
  | .and => .inl .and
  | .compare kind => .inr kind

/-- The amount by which `x + k` or `x - k` changes `x`, if it fits one byte. -/
def incrementDelta? (op : BinaryOp) (value : Int32) : Option Int8 :=
  let delta? := match op with
    | .arith .add => some value.toInt
    | .arith .sub => some (-value.toInt)
    | _ => none
  delta?.bind fun delta =>
    if -128 ≤ delta ∧ delta ≤ 127 then some (Int8.ofInt delta) else none

end ClassCompiler.StackCode
