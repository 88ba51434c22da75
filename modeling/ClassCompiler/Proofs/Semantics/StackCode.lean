import ClassCompiler.Proofs.Semantics.ThreeAddress
import ClassCompiler.StackCode.Instr

/-!
# Running stack code

The machine has an operand stack, numbered slots and the memory. Instructions take
their operands from the top of the stack, the last operand first, and leave their
result there. Of a call the machine sees what the instruction says: the mode, the
path of the owner, the name and the descriptor, and the values on the stack.

As with three-address code, a checked run wants the values that are loaded,
stored, passed and returned to be of the category that the instruction names.
-/

namespace ClassCompiler.StackCode

open Semantics
open ThreeAddress (InvokeMode acceptReceiver)

/-! ## States -/

/-- A call as an instruction makes it. -/
structure LinkedCall where
  mode : InvokeMode
  owner : String
  method : String
  descriptor : MethodDescriptor
  receiver : Option (Val Word)
  args : List (Val Word)
deriving DecidableEq, Repr, Inhabited

/-- The state of the machine. -/
structure Machine where
  stack : List (Val Word)
  slots : Nat → Val Word
  memory : Store LinkedCall

/-- The machine with another value in a slot. -/
def Machine.setSlot (machine : Machine) (slot : Nat) (value : Val Word) : Machine :=
  { machine with slots := fun other => if other = slot then value else machine.slots other }

/-! ## Sorts of values -/

/-- A value where a category is expected. -/
def Category.accept (checked : Bool) (category : Category) (value : Val Word) :
    Except Abort (Val Word) :=
  if checked ∧ value.isScalar ≠ decide (category = .int) then .error .mismatch else .ok value

/-- The category of the values that a descriptor describes. -/
def Descriptor.category : Descriptor → Category
  | .int | .boolean => .int
  | _ => .ref

/-- The sort of place that holds what a descriptor describes. -/
def Descriptor.storage : Descriptor → Storage
  | .int => .int
  | .boolean => .bool
  | _ => .ref

/-- The sort of result of a method. -/
def Descriptor.resultStorage (descriptor : Descriptor) : Option Storage :=
  if descriptor = .void then none else some descriptor.storage

/-- The sort of place that the elements of an array are. -/
def ElementKind.storage : ElementKind → Storage
  | .int => .int
  | .boolean => .bool
  | .ref => .ref

/-- A new array. -/
def ArrayElement.create : ArrayElement → Val Word → Action (Store LinkedCall) (Val Word)
  | .int => createArray "" .int
  | .boolean => createArray "" .bool
  | .object path => createArray path .ref

/-- Arguments where a method expects its parameters. -/
def acceptArguments (checked : Bool) : List Descriptor → List (Val Word) → Except Abort Unit
  | descriptor :: descriptors, value :: values => do
      let _ ← descriptor.category.accept checked value
      acceptArguments checked descriptors values
  | _, _ => .ok ()

/-! ## Operands -/

/-- Put a value on the stack. -/
def pushOperand (value : Val Word) : Action Machine Unit :=
  modify fun machine => { machine with stack := value :: machine.stack }

/-- Take the top of the stack. -/
def popOperand : Action Machine (Val Word) := fun machine =>
  match machine.stack with
  | [] => .error .mismatch machine
  | value :: rest => .ok value { machine with stack := rest }

/-- Take values from the stack, in the order in which they were put there. -/
def popOperands (count : Nat) : Action Machine (List (Val Word)) := fun machine =>
  if count ≤ machine.stack.length then
    .ok (machine.stack.take count).reverse
      { machine with stack := machine.stack.drop count }
  else .error .mismatch machine

/-- Take the receiver of a call, unless the call is static. -/
def popReceiver (mode : InvokeMode) : Action Machine (Option (Val Word)) :=
  if mode = .static then pure none else do return some (← popOperand)

/-- Put the result of a call on the stack, if there is one. -/
def pushResult : Option (Val Word) → Action Machine Unit
  | none => pure ()
  | some value => pushOperand value

/-- Change the memory of the machine. -/
def onStore {α : Type} (action : Action (Store LinkedCall) α) : Action Machine α := fun machine =>
  match action machine.memory with
  | .ok value memory => .ok value { machine with memory }
  | .error reason memory => .error reason { machine with memory }

/-- Replace the two integers on top of the stack by one. -/
def combine (operation : Word → Word → Except Abort Word) : Action Machine Unit := do
  let right ← popOperand
  let left ← popOperand
  match left, right with
  | .scalar left, .scalar right => pushOperand (.scalar (← attempt (operation left right)))
  | _, _ => throw .mismatch

/-! ## Instructions -/

section

variable (answer : List LinkedCall → Heap → Answer) (checked : Bool)

/-- Make a call, and leave its result if there is one. -/
def performCall (mode : InvokeMode) (owner method : String) (descriptor : MethodDescriptor) :
    Action Machine Unit := do
  let args ← popOperands descriptor.params.length
  let receiver ← popReceiver mode
  attempt (acceptArguments checked descriptor.params args)
  attempt (acceptReceiver checked receiver)
  let call := ⟨mode, owner, method, descriptor, receiver, args⟩
  pushResult (← onStore (consult answer call descriptor.result.resultStorage))

/-- What an instruction does that is no jump and no return. -/
def Instr.perform : Instr → Action Machine Unit
  | .pushInt value => pushOperand (.scalar value)
  | .pushString value => pushOperand (.string value)
  | .load category slot => do
      pushOperand (← attempt (category.accept checked ((← get).slots slot)))
  | .store category slot => do
      let value ← attempt (category.accept checked (← popOperand))
      modify fun machine => machine.setSlot slot value
  | .increment slot delta => do
      match (← get).slots slot with
      | .scalar value => modify fun machine =>
          machine.setSlot slot (.scalar (value + Int32.ofInt delta.toInt))
      | .ref _ => throw .mismatch
  | .arith op => combine (evalArith op)
  | .and => combine fun left right => .ok (left &&& right)
  | .xor => combine fun left right => .ok (left ^^^ right)
  | .new path => do pushOperand (← onStore (createObject path))
  | .newArray element => do
      let size ← popOperand
      pushOperand (← onStore (element.create size))
  | .arrayLength => do
      let array ← popOperand
      pushOperand (← attempt (readLength (← get).memory.heap array))
  | .arrayLoad kind => do
      let position ← popOperand
      let array ← popOperand
      pushOperand (← attempt (readElement (← get).memory.heap kind.storage array position))
  | .arrayStore kind => do
      let value ← popOperand
      let position ← popOperand
      let array ← popOperand
      onStore (writeElement kind.storage array position value)
  | .getField owner field descriptor => do
      let object ← popOperand
      pushOperand (← attempt
        (readField (← get).memory.heap ⟨owner, field⟩ descriptor.storage object))
  | .putField owner field descriptor => do
      let value ← popOperand
      let object ← popOperand
      onStore (writeField ⟨owner, field⟩ descriptor.storage object value)
  | .invoke mode owner method descriptor => performCall answer checked mode owner method descriptor
  | .pop => do let _ ← popOperand
  | .goto _ | .branch _ _ | .ret _ => pure ()

/-! ## Code -/

/-- The place of the next line, and the state. -/
structure Position where
  place : Nat
  machine : Machine

/-- How a run ends, and in which state. -/
structure Halt where
  outcome : Outcome Word
  machine : Machine

/-- The place of a label. -/
def labelPlace? (lines : List (Line Instr)) (name : String) : Option Nat :=
  lines.findIdx? fun line => decide (line = .label name)

/-- Go to a label. -/
def jumpTo (lines : List (Line Instr)) (target : String) (machine : Machine) :
    Progress Position Halt :=
  match labelPlace? lines target with
  | some place => .next ⟨place, machine⟩
  | none => .stop ⟨.aborted .noTarget, machine⟩

/-- Whether a branch is taken, which takes the top of the stack. -/
def decideBranch (test : Comparison) : Action Machine Bool := do
  match ← popOperand with
  | .scalar value => pure (holds test value.toInt 0)
  | .ref _ => throw .mismatch

/-- What a return hands on, which is the top of the stack if there is to be a
value. -/
def returnOperand : Option Category → Action Machine (Option (Val Word))
  | none => pure none
  | some category => do return some (← attempt (category.accept checked (← popOperand)))

/-- One step of the machine. -/
def step (lines : List (Line Instr)) (position : Position) : Progress Position Halt :=
  let machine := position.machine
  match lines[position.place]? with
  | none => .stop ⟨.fellThrough, machine⟩
  | some (.label _) => .next ⟨position.place + 1, machine⟩
  | some (.instr (.goto target)) => jumpTo lines target machine
  | some (.instr (.branch test target)) =>
      match decideBranch test machine with
      | .error reason machine => .stop ⟨.aborted reason, machine⟩
      | .ok true machine => jumpTo lines target machine
      | .ok false machine => .next ⟨position.place + 1, machine⟩
  | some (.instr (.ret category)) =>
      match returnOperand checked category machine with
      | .error reason machine => .stop ⟨.aborted reason, machine⟩
      | .ok value machine => .stop ⟨.returned value, machine⟩
  | some (.instr instr) =>
      match instr.perform answer checked machine with
      | .error reason machine => .stop ⟨.aborted reason, machine⟩
      | .ok _ machine => .next ⟨position.place + 1, machine⟩

end

end ClassCompiler.StackCode
