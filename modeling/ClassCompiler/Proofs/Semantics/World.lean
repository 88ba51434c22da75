import ClassCompiler.Proofs.Semantics.Memory
import ClassCompiler.Program

/-!
# The world of a run

A method runs on an object, in a world that answers the calls it makes. The memory
of a run is the heap together with the calls made so far; local variables are no
part of it, so no answer can change them.
-/

namespace ClassCompiler.Semantics

/-- Where the method of a call is looked up: in a named class, in the class of a
receiver, directly in the class of an object that is being constructed, or in the
parent of the current class. -/
inductive Owner where
  | static (className : String)
  | virtual (ty : Ty)
  | special (ty : Ty)
  | parent
deriving DecidableEq, Repr, Inhabited

/-- One call: the method with the types of its arguments and result, the receiver
of an instance call, and the arguments. -/
structure CallEvent (S : Type) where
  owner : Owner
  method : String
  params : List Ty
  result : Ty
  receiver : Option (Val S)
  args : List (Val S)
deriving DecidableEq, Repr, Inhabited

/-- The answer to a call: the heap afterwards, whether the callee returns at all,
and the result it returns, whichever type is asked for. -/
structure Answer where
  heap : Heap
  returns : Bool
  int : Int32
  bool : Bool
  ref : Ref
deriving DecidableEq, Repr, Inhabited

/-- The datum an answer returns for a sort of place. -/
def Answer.datum (answer : Answer) : Storage → Datum
  | .int => .int answer.int
  | .bool => .bool answer.bool
  | .ref => .ref answer.ref

/-- What a method runs in: the current object, the paths of classes, and the
answers to calls, which may depend on all calls made so far and on the heap. -/
structure World (S : Type) where
  self : Ref
  path : String → String
  answer : List (CallEvent S) → Heap → Answer

/-- The heap, and the events of a run in the order in which they happened. -/
structure Store (ε : Type) where
  heap : Heap
  trace : List ε
deriving DecidableEq, Repr, Inhabited

/-- The memory of a run: the heap, and the calls that were made. -/
abbrev Memory (S : Type) := Store (CallEvent S)

/-- A computation on a state that may abort, and keeps the state when it does. -/
abbrev Action (σ : Type) := EStateM Abort σ

/-- Continue with a result, or abort for its reason. -/
def attempt {σ α : Type} : Except Abort α → Action σ α
  | .ok value => pure value
  | .error reason => throw reason

theorem attempt_ok {σ α : Type} (value : α) (state : σ) :
    attempt (.ok value) state = .ok value state := rfl

theorem attempt_error {σ α : Type} (reason : Abort) (state : σ) :
    (attempt (.error reason) : Action σ α) state = .error reason state := rfl

variable {S : Type}

/-- The reference through which an object or array is reached. -/
def Val.toRef : Val S → Except Abort Ref
  | .scalar _ => .error .mismatch
  | .ref value => .ok value

/-- The value of a literal string. -/
def Val.string (text : String) : Val S := .ref (.string text)

variable [Arithmetic S]

/-- The value of an integer. -/
def Val.int (value : Int32) : Val S := .scalar (Arithmetic.int value)

/-- The value of a truth value. -/
def Val.bool (value : Bool) : Val S := .scalar (Arithmetic.bool value)

/-! ## Reading memory -/

/-- An element of an array with places of a sort. -/
def readElement (heap : Heap) (storage : Storage) (array index : Val S) :
    Except Abort (Val S) := do
  let array ← array.toRef
  let index ← index.toInt
  return .ofDatum (← heap.element storage array index)

/-- The length of an array. -/
def readLength (heap : Heap) (array : Val S) : Except Abort (Val S) := do
  let array ← array.toRef
  return .int (← heap.arrayLength array)

/-- A field that is a place of a sort. -/
def readField (heap : Heap) (key : FieldKey) (storage : Storage) (object : Val S) :
    Except Abort (Val S) := do
  let object ← object.toRef
  return .ofDatum (← heap.field object key storage)

/-! ## Changing memory -/

variable {ε : Type}

omit [Arithmetic S] in
/-- Take the next address for a cell. -/
def allocate (cell : Cell) : Action (Store ε) (Val S) := fun memory =>
  .ok (.ref (.address memory.heap.length)) { memory with heap := memory.heap ++ [cell] }

omit [Arithmetic S] in
/-- A new object of the class at a path. -/
def createObject (path : String) : Action (Store ε) (Val S) := allocate (.object path [])

/-- A new array with places of a sort; the path is that of the class of its
elements. -/
def createArray (path : String) (storage : Storage) (size : Val S) :
    Action (Store ε) (Val S) := do
  let size ← attempt size.toInt
  if size < 0 then throw .negativeSize
  else allocate (.newArray path size.toNatClampNeg storage)

/-- Put another heap into the memory. -/
def replaceHeap (change : Heap → Except Abort Heap) : Action (Store ε) Unit := do
  let memory ← get
  set { memory with heap := ← attempt (change memory.heap) }

/-- Assign to an element of an array with places of a sort. -/
def writeElement (storage : Storage) (array index value : Val S) : Action (Store ε) Unit := do
  let array ← attempt array.toRef
  let index ← attempt index.toInt
  let datum ← attempt (value.toDatum storage)
  replaceHeap fun heap => heap.setElement array index datum

/-- Assign to a field that is a place of a sort. -/
def writeField (key : FieldKey) (storage : Storage) (object value : Val S) :
    Action (Store ε) Unit := do
  let object ← attempt object.toRef
  let datum ← attempt (value.toDatum storage)
  replaceHeap fun heap => heap.setField object key datum

/-- What an answer leads to. Its result is read as the given sort of result, if there
is to be one. -/
def Answer.conclude (answer : Answer) (trace : List ε) (result : Option Storage) :
    EStateM.Result Abort (Store ε) (Option (Val S)) :=
  if answer.returns then
    .ok (result.map fun storage => .ofDatum (answer.datum storage)) ⟨answer.heap, trace⟩
  else .error .callee ⟨answer.heap, trace⟩

/-- Record an event and let it be answered. -/
def consult (answer : List ε → Heap → Answer) (event : ε) (result : Option Storage) :
    Action (Store ε) (Option (Val S)) := fun memory =>
  (answer (memory.trace ++ [event]) memory.heap).conclude (memory.trace ++ [event]) result

/-- The sort of result of a type; `void` has none. -/
def resultStorage (ty : Ty) : Option Storage := if ty.isVoid then none else some (storageOf ty)

/-- Make a call, which the world answers. -/
def invoke (world : World S) (event : CallEvent S) : Action (Memory S) (Option (Val S)) :=
  consult world.answer event (resultStorage event.result)

end ClassCompiler.Semantics
