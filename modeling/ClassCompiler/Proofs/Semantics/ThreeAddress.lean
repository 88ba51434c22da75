import ClassCompiler.Proofs.Semantics.Transition
import ClassCompiler.Proofs.Semantics.World
import ClassCompiler.ThreeAddress.Method

/-!
# Running three-address code

The body of a method runs from its first instruction. Instructions read and write
variables by name, temporaries and declared variables alike, and labels and jumps
move the place of the next instruction.

Whether a variable may hold a value of any sort is a matter of choice: in a
checked run a variable is read and written only at types that fit its value, and
arguments and results fit their types too.
-/

namespace ClassCompiler.Semantics

variable {S : Type}

/-- The state of a method: its variables and the memory. -/
structure State (S : Type) where
  env : String → Val S
  memory : Memory S

/-- The variables after one of them has been assigned to. -/
def assignVariable (env : String → Val S) (name : String) (value : Val S) :
    String → Val S :=
  fun other => if other = name then value else env other

@[simp] theorem assignVariable_same (env : String → Val S) (name : String)
    (value : Val S) : assignVariable env name value name = value := by
  simp [assignVariable]

@[simp] theorem assignVariable_other (env : String → Val S) {name other : String}
    (value : Val S) (differs : other ≠ name) :
    assignVariable env name value other = env other := by
  simp [assignVariable, differs]

/-- Change the memory of a method. -/
def onMemory {α : Type} (action : Action (Memory S) α) : Action (State S) α := fun state =>
  match action state.memory with
  | .ok value memory => .ok value { state with memory }
  | .error reason memory => .error reason { state with memory }

/-- A value where a type is expected. A checked run accepts scalars as integers and
truth values only, and references as anything else. -/
def accept (checked : Bool) (ty : Ty) (value : Val S) : Except Abort (Val S) :=
  if checked ∧ value.isScalar ≠ ty.isIntLike then .error .mismatch else .ok value

/-- Values where types are expected. -/
def acceptAll (checked : Bool) : List Ty → List (Val S) → Except Abort Unit
  | ty :: tys, value :: values => do
      let _ ← accept checked ty value
      acceptAll checked tys values
  | _, _ => .ok ()

/-- How a run ends: with a return, with an abort, or at the end of the code. -/
inductive Outcome (S : Type) where
  | returned (value : Option (Val S))
  | aborted (reason : Abort)
  | fellThrough
deriving DecidableEq, Repr, Inhabited

end ClassCompiler.Semantics

namespace ClassCompiler.ThreeAddress

open Semantics

variable {S : Type} [Arithmetic S]

/-! ## Operands -/

/-- The value of a constant. -/
def Constant.value : Constant → Val S
  | .int value => .int value
  | .bool value => .bool value
  | .string value => .string value

/-- The value of an operand. A class is no value. -/
def Value.read (world : World S) (checked : Bool) (state : State S) :
    Value → Except Abort (Val S)
  | .temp name ty => accept checked ty (state.env name)
  | .var name ty => accept checked ty (state.env name)
  | .const constant => .ok constant.value
  | .self _ => .ok (.ref world.self)
  | .classRef _ => .error .mismatch
  | .element array position ty => do
      let array ← array.read world checked state
      let position ← position.read world checked state
      readElement state.memory.heap (storageOf ty) array position

/-- The values of operands from left to right. -/
def readAll (world : World S) (checked : Bool) (state : State S) :
    List Value → Except Abort (List (Val S))
  | [] => .ok []
  | operand :: rest => do
      let value ← operand.read world checked state
      return value :: (← readAll world checked state rest)

omit [Arithmetic S] in
/-- Assign to a temporary or declared variable. -/
def Value.write (checked : Bool) (value : Val S) : Value → Action (State S) Unit
  | .temp name ty | .var name ty => do
      let value ← attempt (accept checked ty value)
      modify fun state => { state with env := assignVariable state.env name value }
  | _ => throw .mismatch

/-- Read an operand in the current state. -/
def Value.fetch (world : World S) (checked : Bool) (operand : Value) :
    Action (State S) (Val S) := do
  attempt (operand.read world checked (← get))

/-! ## Calls -/

/-- Where the method of an invocation is looked up. A constructor that is called
on the current object is that of the parent class. -/
def ownerOf : InvokeMode → Value → Except Abort Owner
  | .static, .classRef name => .ok (.static name)
  | .static, _ => .error .mismatch
  | .special, .self _ => .ok .parent
  | .special, target => .ok (.special target.ty)
  | .virtual, target => .ok (.virtual target.ty)

/-- The receiver of an instance call, which a checked run wants to be a reference. -/
def fetchReceiver (world : World S) (checked : Bool) (mode : InvokeMode) (target : Value) :
    Action (State S) (Option (Val S)) :=
  if mode = .static then return none
  else return some (← target.fetch world checked)

/-- Whether a run accepts the receiver of a call. -/
def acceptReceiver (checked : Bool) : Option (Val S) → Except Abort Unit
  | some (.scalar _) => if checked then .error .mismatch else .ok ()
  | _ => .ok ()

/-- Invoke a method: compute the receiver and the arguments, and make the call. -/
def performInvoke (world : World S) (checked : Bool) (mode : InvokeMode) (target : Value)
    (method : String) (args : List Value) (returnTy : Ty) :
    Action (State S) (Option (Val S)) := do
  let owner ← attempt (ownerOf mode target)
  let receiver ← fetchReceiver world checked mode target
  let values ← attempt (readAll world checked (← get) args)
  attempt (acceptAll checked (args.map Value.ty) values)
  attempt (acceptReceiver checked receiver)
  onMemory (invoke world ⟨owner, method, args.map Value.ty, returnTy, receiver, values⟩)

/-- What a call computes; the call of a method of type `void` computes nothing. -/
def Call.perform (world : World S) (checked : Bool) (call : Call) :
    Action (State S) (Option (Val S)) :=
  match call.invocation with
  | .new => do
      let className := match call.target with
        | some (.classRef name) => name
        | _ => call.returnTy.name
      return some (← onMemory (createObject (world.path className)))
  | .newArray =>
      match call.args with
      | [] => throw .mismatch
      | size :: _ => do
          let size ← size.fetch world checked
          let elem := call.returnTy.element
          return some (← onMemory (createArray (world.path elem.name) (storageOf elem) size))
  | .arrayLength =>
      match call.target with
      | none => throw .mismatch
      | some array => do
          let array ← array.fetch world checked
          return some (← attempt (readLength (← get).memory.heap array))
  | .invoke mode =>
      match call.method, call.target with
      | some method, some target =>
          performInvoke world checked mode target method call.args call.returnTy
      | _, _ => throw .mismatch

omit [Arithmetic S] in
/-- Keep or drop the result of a call. Nothing can be assigned if there is none. -/
def writeResult (checked : Bool) : Option Value → Option (Val S) → Action (State S) Unit
  | some dest, some value => dest.write checked value
  | some _, none => throw .mismatch
  | none, _ => pure ()

/-! ## Instructions -/

/-- What an instruction does that is no jump, label or return. -/
def Instr.effect (world : World S) (checked : Bool) : Instr → Action (State S) Unit
  | .assign (.element array position ty) value => do
      let array ← array.fetch world checked
      let position ← position.fetch world checked
      let value ← value.fetch world checked
      onMemory (writeElement (storageOf ty) array position value)
  | .assign dest value => do
      let value ← value.fetch world checked
      dest.write checked value
  | .binary dest op left right => do
      let left ← left.fetch world checked
      let right ← right.fetch world checked
      dest.write checked (← attempt (Val.binary op left right))
  | .not dest operand => do
      let operand ← operand.fetch world checked
      dest.write checked (← attempt operand.not)
  | .getField dest object field ty => do
      let reached ← object.fetch world checked
      let value ← attempt (readField (← get).memory.heap ⟨world.path object.ty.name, field⟩
        (storageOf ty) reached)
      dest.write checked value
  | .putField object field value => do
      let reached ← object.fetch world checked
      let stored ← value.fetch world checked
      onMemory (writeField ⟨world.path object.ty.name, field⟩ (storageOf value.ty) reached
        stored)
  | .call dest site => do
      let result ← site.perform world checked
      writeResult checked dest result
  | _ => pure ()

/-! ## Bodies -/

/-- The place of the next instruction, and the state. -/
structure Config (S : Type) where
  place : Nat
  state : State S

/-- How a method ends, and in which state. -/
structure Ending (S : Type) where
  outcome : Outcome S
  state : State S

/-- The place of the last definition of a label. -/
def Code.labelPlace? : Code → String → Option Nat
  | [], _ => none
  | instr :: rest, label =>
      match Code.labelPlace? rest label with
      | some place => some (place + 1)
      | none => if instr = .label label then some 0 else none

/-- Go to a label. -/
def jump (body : Code) (target : String) (state : State S) : Progress (Config S) (Ending S) :=
  match Code.labelPlace? body target with
  | some place => .next ⟨place, state⟩
  | none => .stop ⟨.aborted .noTarget, state⟩

/-- Return from a method. The entry point returns nothing, and so does a return of
type `void`. -/
def Method.finish (method : Method) (world : World S) (checked : Bool) (state : State S) :
    Option Value → Outcome S
  | none => .returned none
  | some value =>
      if method.isMain then .returned none
      else
        match value.read world checked state with
        | .error reason => .aborted reason
        | .ok result =>
            if value.ty.isVoid then .returned none
            else
              match accept checked value.ty result with
              | .error reason => .aborted reason
              | .ok result => .returned (some result)

/-- One step of a method. -/
def Method.step (method : Method) (world : World S) (checked : Bool) (config : Config S) :
    Progress (Config S) (Ending S) :=
  let state := config.state
  match method.body[config.place]? with
  | none => .stop ⟨.fellThrough, state⟩
  | some (.label _) => .next ⟨config.place + 1, state⟩
  | some (.goto target) => jump method.body target state
  | some (.branch cond target) =>
      match cond.read world checked state >>= Val.test with
      | .error reason => .stop ⟨.aborted reason, state⟩
      | .ok false => .next ⟨config.place + 1, state⟩
      | .ok true => jump method.body target state
  | some (.ret value) => .stop ⟨method.finish world checked state value, state⟩
  | some instr =>
      match instr.effect world checked state with
      | .ok _ state => .next ⟨config.place + 1, state⟩
      | .error reason state => .stop ⟨.aborted reason, state⟩

end ClassCompiler.ThreeAddress
