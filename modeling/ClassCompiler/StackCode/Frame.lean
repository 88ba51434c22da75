import ClassCompiler.Error
import ClassCompiler.StackCode.Instr
import ClassCompiler.ThreeAddress.Method
import Std.Data.HashMap

/-!
# Frames

The frame of a method gives every variable a slot and keeps account of the
operand stack while code is emitted: how many values are on it and how many there
were at most. `this` takes slot zero of an instance method; then come parameters,
locals and temporaries in order. The account is kept by the code that emits, in
`push` and `pop`, and is separate from the lines emitted.
-/

namespace ClassCompiler.StackCode

/-- The greatest number of slots a method may have. -/
def maxLocals : Nat := 65535

/-- The names that take a slot, in slot order. -/
def slotNames (method : ThreeAddress.Method) : List String :=
  (if method.isStatic then [] else ["this"]) ++ method.allVariables.map Symbol.name

/-- Slots that have been given out: the slot of each name, and the number of the next
one. Slots are numbered in sixteen bits. -/
structure SlotTable where
  slots : Std.HashMap String Nat := ∅
  next : UInt16 := 0

/-- Give a name the next slot. A full table is noticed before a repeated name. -/
def bindSlot (method : String) (table : SlotTable) (name : String) :
    Except CompileError SlotTable :=
  if maxLocals ≤ table.slots.size then .error (.tooManyLocals method)
  else if table.slots.contains name then .error (.internal (.declaredTwice name method))
  else .ok { slots := table.slots.insert name table.next.toNat, next := table.next + 1 }

/-- The emission state of one method: its slots, the number of the next slot, the
account of the operand stack, and the lines so far. -/
structure Frame (ι : Type) where
  method : String
  slots : Std.HashMap String Nat
  nextSlot : UInt16 := 0
  depth : Nat := 0
  maxDepth : Nat := 0
  lines : Array (Line ι) := #[]

namespace Frame

variable {ι : Type}

/-- The frame of a method with its slots, before any code is emitted. -/
def ofSlots (method : String) (table : SlotTable) : Frame ι :=
  { method, slots := table.slots, nextSlot := table.next }

/-- The frame of a method before any code is emitted. -/
def ofMethod (method : ThreeAddress.Method) : Except CompileError (Frame ι) := do
  return ofSlots method.name (← (slotNames method).foldlM (bindSlot method.name) {})

/-- The slot of a variable. -/
def slot (frame : Frame ι) (name : String) : Except CompileError Nat :=
  match frame.slots[name]? with
  | some slot => .ok slot
  | none => .error (.unresolvedSymbol name frame.method)

/-- The number of slots in use, which is that of the next one. -/
def locals (frame : Frame ι) : Nat := frame.nextSlot.toNat

/-- Account for values pushed. -/
def push (frame : Frame ι) (count : Nat) : Frame ι :=
  { frame with
    depth := frame.depth + count
    maxDepth := max frame.maxDepth (frame.depth + count) }

/-- Account for values popped. No more can be popped than are there. -/
def pop (frame : Frame ι) (count : Nat) : Except CompileError (Frame ι) :=
  if count ≤ frame.depth then .ok { frame with depth := frame.depth - count }
  else .error (.stackUnderflow frame.method)

@[simp] theorem depth_push (frame : Frame ι) (count : Nat) :
    (frame.push count).depth = frame.depth + count := rfl

/-- Add an instruction. -/
def emit (frame : Frame ι) (instr : ι) : Frame ι :=
  { frame with lines := frame.lines.push (.instr instr) }

/-- Add a label. -/
def emitLabel (frame : Frame ι) (name : String) : Frame ι :=
  { frame with lines := frame.lines.push (.label name) }

end Frame

end ClassCompiler.StackCode
