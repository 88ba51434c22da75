import ClassCompiler.Proofs.Effects
import ClassCompiler.Proofs.Emission.Code
import ClassCompiler.Proofs.Semantics.StackCode

/-!
# Linking

A call of three-address code names classes and types where an instruction has paths
and descriptors. Apart from the calls that were made, the memory is the same on both
sides: what is done to the heap does not depend on them, and a call leads to the
same answer if both sides are answered alike.
-/

namespace ClassCompiler.StackCode

open Semantics Effects
open ThreeAddress (InvokeMode)

/-- The mode in which a call is made. -/
def linkMode : Owner → InvokeMode
  | .static _ => .static
  | .virtual _ => .virtual
  | .special _ | .parent => .special

/-- The path of the class in which the method of a call is looked up. -/
def linkPath (linkage : Linkage) : Owner → String
  | .static name => linkage.paths.classPath name
  | .virtual ty | .special ty => linkage.paths.classPath ty.name
  | .parent => linkage.superPath

/-- A call as an instruction makes it. -/
def link (linkage : Linkage) (event : CallEvent Word) : LinkedCall where
  mode := linkMode event.owner
  owner := linkPath linkage event.owner
  method := event.method
  descriptor := linkage.paths.signatureOf event.params event.result
  receiver := event.receiver
  args := event.args

/-- The memory with every call as an instruction makes it. -/
def linkMemory (linkage : Linkage) (memory : Memory Word) : Store LinkedCall :=
  ⟨memory.heap, memory.trace.map (link linkage)⟩

/-- The result of an action, in another view of its state. -/
def mapState {σ τ α : Type} (view : σ → τ) :
    EStateM.Result Abort σ α → EStateM.Result Abort τ α
  | .ok value state => .ok value (view state)
  | .error reason state => .error reason (view state)

/-- Two actions do the same to the memory. -/
def Linked (linkage : Linkage) {α : Type} (action : Action (Memory Word) α)
    (linked : Action (Store LinkedCall) α) : Prop :=
  ∀ memory, linked (linkMemory linkage memory) = mapState (linkMemory linkage) (action memory)

namespace Linked

variable {linkage : Linkage} {α β : Type}

theorem attempt (result : Except Abort α) :
    Linked linkage (Semantics.attempt result) (Semantics.attempt result) := by
  intro memory
  cases result <;> rfl

theorem throw (reason : Abort) :
    Linked linkage (MonadExcept.throw reason : Action (Memory Word) α) (MonadExcept.throw reason) :=
  fun _ => rfl

theorem bind {action : Action (Memory Word) α} {linked : Action (Store LinkedCall) α}
    {next : α → Action (Memory Word) β} {linkedNext : α → Action (Store LinkedCall) β}
    (first : Linked linkage action linked) (second : ∀ value, Linked linkage (next value)
      (linkedNext value)) :
    Linked linkage (action >>= next) (linked >>= linkedNext) := by
  intro memory
  rw [bind_apply, bind_apply, first memory]
  cases action memory with
  | ok value middle => exact second value middle
  | error reason middle => rfl

theorem allocate (cell : Cell) :
    Linked linkage (Semantics.allocate cell : Action (Memory Word) (Val Word))
      (Semantics.allocate cell) :=
  fun _ => rfl

theorem replaceHeap (change : Heap → Except Abort Heap) :
    Linked linkage (Semantics.replaceHeap change) (Semantics.replaceHeap change) := by
  intro memory
  simp only [Semantics.replaceHeap, bind_apply, get_apply, linkMemory]
  cases change memory.heap <;> rfl

theorem createArray (path : String) (storage : Storage) (size : Val Word) :
    Linked linkage (Semantics.createArray path storage size)
      (Semantics.createArray path storage size) := by
  refine (Linked.attempt _).bind fun size => ?_
  by_cases negative : size < 0
  · simp only [negative, if_true]
    exact .throw _
  · simp only [negative, if_false]
    exact .allocate _

theorem writeElement (storage : Storage) (array index value : Val Word) :
    Linked linkage (Semantics.writeElement storage array index value)
      (Semantics.writeElement storage array index value) :=
  (Linked.attempt _).bind fun _ => (Linked.attempt _).bind fun _ => (Linked.attempt _).bind
    fun _ => .replaceHeap _

theorem writeField (key : FieldKey) (storage : Storage) (object value : Val Word) :
    Linked linkage (Semantics.writeField key storage object value)
      (Semantics.writeField key storage object value) :=
  (Linked.attempt _).bind fun _ => (Linked.attempt _).bind fun _ => .replaceHeap _

theorem mapState_conclude (given : Answer) (trace : List (CallEvent Word))
    (storage : Option Storage) :
    mapState (linkMemory linkage) (given.conclude trace storage :
        EStateM.Result Abort (Memory Word) (Option (Val Word))) =
      given.conclude (trace.map (link linkage)) storage := by
  unfold Answer.conclude
  cases given.returns <;> rfl

/-- A call leads to the same result if it is answered alike. -/
theorem consult (answer : List LinkedCall → Heap → Answer) (event : CallEvent Word)
    (storage : Option Storage) :
    Linked linkage
      (Semantics.consult (fun trace heap => answer (trace.map (link linkage)) heap) event storage :
        Action (Memory Word) (Option (Val Word)))
      (Semantics.consult answer (link linkage event) storage) := by
  intro memory
  rw [Semantics.consult, Semantics.consult, linkMemory, mapState_conclude, List.map_append]
  rfl

end Linked

end ClassCompiler.StackCode
