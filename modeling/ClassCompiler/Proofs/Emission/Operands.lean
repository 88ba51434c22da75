import ClassCompiler.Proofs.Emission.Realization
import Mathlib.Data.List.Basic

/-!
# Code of operands

The code that pushes an operand realizes reading it, and the code that pops into a
variable realizes writing it. This needs that the current object stands only in
instance methods, and that no variable goes by its name there.
-/

namespace ClassCompiler.StackCode

open Semantics Effects
open ThreeAddress (Value)

/-- The current object is named in instance methods only, and by no variable. -/
def RespectsSelf (isStatic : Bool) : Value → Prop
  | .temp name _ | .var name _ => isStatic = true ∨ name ≠ "this"
  | .self _ => isStatic = false
  | .element array position _ => RespectsSelf isStatic array ∧ RespectsSelf isStatic position
  | _ => True

theorem accept_valueCategory (checked : Bool) (ty : Ty) (value : Val Word) :
    (valueCategory ty).accept checked value = accept checked ty value := by
  rw [Category.accept, accept, valueCategory]
  cases ty.isIntLike <;> simp

theorem storage_elementKindOf (ty : Ty) : (elementKindOf ty).storage = storageOf ty := by
  rw [elementKindOf, storageOf, Ty.isInt, Ty.isBoolean]
  by_cases isInt : ty = Ty.int
  · simp [isInt, ElementKind.storage]
  · by_cases isBoolean : ty = Ty.boolean
    · subst isBoolean
      decide
    · simp [isInt, isBoolean, ElementKind.storage]

namespace Host

variable {host : Host}

/-! ## Reading -/

theorem Mirrors.heap_eq {state : State Word} {machine : Machine}
    (mirrors : host.Mirrors state machine) : machine.memory.heap = state.memory.heap := by
  rw [mirrors.memory_eq]
  rfl

theorem realizes_constant {instr : Instr} (straight : instr.IsStraight) {constant : Val Word}
    (pushes : instr.perform host.answer host.checked = pushOperand constant) :
    host.Realizes [.instr instr] [] (pure constant) fun value => [value] :=
  .push straight pushes (.pure constant rfl)

theorem realizes_load {category : Category} {slot : Nat} {operand : Value}
    (loads : ∀ state machine, host.Mirrors state machine →
      category.accept host.checked (machine.slots slot) =
        operand.read host.world host.checked state) :
    host.Realizes [.instr (.load category slot)] [] (operand.fetch host.world host.checked)
      fun value => [value] := by
  refine .compute (by trivial) fun state slots memory base mirrors => ?_
  rw [← loads state _ mirrors]
  simp only [Instr.perform, bind_apply, get_apply]
  cases category.accept host.checked (slots slot) with
  | ok value => rfl
  | error reason => exact ⟨base, rfl⟩

theorem realizes_arrayLoad (array position : Val Word) (ty : Ty) :
    host.Realizes [.instr (.arrayLoad (elementKindOf ty))] [position, array]
      (reading fun state => readElement state.memory.heap (storageOf ty) array position)
      fun value => [value] := by
  refine .compute (by trivial) fun state slots memory base mirrors => ?_
  rw [← storage_elementKindOf, ← mirrors.heap_eq]
  simp only [List.cons_append, List.nil_append, Instr.perform, bind_apply, popOperand, get_apply]
  cases readElement memory.heap (elementKindOf ty).storage array position with
  | ok value => rfl
  | error reason => exact ⟨base, rfl⟩

/-- The code that pushes an operand realizes reading it. -/
theorem realizes_loadCode {operand : Value} (loadable : Loadable host.names operand)
    (respects : RespectsSelf host.method.isStatic operand) :
    host.Realizes (loadCode host.names operand) [] (operand.fetch host.world host.checked)
      fun value => [value] := by
  induction operand with
  | const constant => cases constant <;> exact realizes_constant (by trivial) rfl
  | self ty =>
      refine realizes_load fun state machine mirrors => ?_
      rw [mirrors.self_eq respects]
      simp [Category.accept, Val.isScalar]
      rfl
  | temp name ty | var name ty =>
      refine realizes_load fun state machine mirrors => ?_
      rw [mirrors.slot_eq name loadable.1 respects, accept_valueCategory]
      rfl
  | classRef name => exact loadable.elim
  | element array position ty arrayRealizes positionRealizes =>
      rw [loadCode, List.append_assoc]
      exact Realizes.read (arrayRealizes loadable.1 respects.1) fun base =>
        Realizes.read ((positionRealizes loadable.2 respects.2).above [base]) fun offset =>
          realizes_arrayLoad base offset ty

/-- Read operands from left to right. -/
def fetchAll (host : Host) (operands : List Value) : Action (State Word) (List (Val Word)) :=
  reading fun state => ThreeAddress.readAll host.world host.checked state operands

/-- The code that pushes operands realizes reading them; the last one is on top. -/
theorem realizes_loadsCode {operands : List Value}
    (loadable : ∀ operand ∈ operands, Loadable host.names operand)
    (respects : ∀ operand ∈ operands, RespectsSelf host.method.isStatic operand) :
    host.Realizes (loadsCode host.names operands) [] (host.fetchAll operands)
      fun values => values.reverse := by
  induction operands with
  | nil => exact Realizes.pure [] rfl
  | cons operand rest ih =>
      rw [List.forall_mem_cons] at loadable respects
      rw [loadsCode, List.flatMap_cons, ← List.append_nil (rest.flatMap _)]
      exact Realizes.read (realizes_loadCode loadable.1 respects.1) fun value =>
        Realizes.read ((ih loadable.2 respects.2).above [value]) fun values =>
          .pure (value :: values) (List.reverse_cons)

/-! ## Writing -/

theorem Mirrors.setSlot {state : State Word} {machine : Machine}
    (mirrors : host.Mirrors state machine) {name : String} (member : name ∈ host.names)
    (respects : host.method.isStatic = true ∨ name ≠ "this") (value : Val Word) :
    host.Mirrors { state with env := assignVariable state.env name value }
      (machine.setSlot (host.names.idxOf name) value) where
  slot_eq other otherMember otherRespects := by
    by_cases same : other = name
    · subst same
      simp [Machine.setSlot]
    · have otherSlot : host.names.idxOf other ≠ host.names.idxOf name := fun equal =>
        same ((List.idxOf_inj otherMember).mp equal)
      simp [Machine.setSlot, otherSlot, same, mirrors.slot_eq other otherMember otherRespects]
  self_eq isInstance := by
    have notSelf : 0 ≠ host.names.idxOf name := by
      intro atZero
      have names : host.names = "this" :: host.method.allVariables.map Symbol.name := by
        simp [Host.names, slotNames, isInstance]
      rcases respects with isStatic | notThis
      · rw [isInstance] at isStatic
        cases isStatic
      · rw [names, List.idxOf_cons_ne _ (Ne.symm notThis)] at atZero
        cases atZero
    simp [Machine.setSlot, notSelf, mirrors.self_eq isInstance]
  memory_eq := mirrors.memory_eq

theorem realizes_storeVariable {name : String} (member : name ∈ host.names)
    (respects : host.method.isStatic = true ∨ name ≠ "this") (ty : Ty) (value : Val Word) :
    host.Realizes [.instr (.store (valueCategory ty) (host.names.idxOf name))] [value]
      (do
        let value ← attempt (accept host.checked ty value)
        modify fun state => { state with env := assignVariable state.env name value })
      fun _ => [] := by
  refine .instr (by trivial) fun state slots memory base mirrors => ?_
  simp only [List.cons_append, List.nil_append, Instr.perform, bind_apply, popOperand,
    accept_valueCategory]
  cases accept host.checked ty value with
  | ok accepted => exact ⟨_, rfl, (mirrors.withStack base).setSlot member respects accepted, rfl⟩
  | error reason => exact ⟨_, rfl, mirrors.withStack base⟩

/-- The code that pops into a variable realizes writing it. -/
theorem realizes_storeCode {dest : Value} (storable : Storable host.names dest)
    (respects : RespectsSelf host.method.isStatic dest) (value : Val Word) :
    host.Realizes (storeCode host.names dest) [value] (dest.write host.checked value)
      fun _ => [] := by
  cases dest with
  | temp name ty | var name ty => exact realizes_storeVariable storable.1 respects ty value
  | const | self | classRef | element => exact storable.elim

end Host

end ClassCompiler.StackCode
