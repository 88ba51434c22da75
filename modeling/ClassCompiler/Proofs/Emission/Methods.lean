import ClassCompiler.Proofs.Emission.Instructions
import ClassCompiler.Proofs.Emission.Slots
import ClassCompiler.StackCode.OfClass

/-!
# Emitting methods

A method is generated exactly if its names have slots, every instruction of its
body has code, and it has a header. Then its lines are the code of its body, and
its stack limit is the height of its body.
-/

namespace ClassCompiler.StackCode

open Effects Emission
open ThreeAddress (Method)

theorem SlotTable.Holds.gives {table : SlotTable} {names : List String}
    (holds : table.Holds names) (method : String) :
    (Frame.ofSlots method table : Frame Instr).Gives names :=
  holds.numbers.slot_eq

variable {frame : Frame Instr} {names : List String} {counts after : ComparisonCounts}
  {linkage : Linkage} {method : Method} {code : MethodCode}

/-- Emission goes on only from an empty stack. -/
theorem succeeds_whenEmpty {error : Nat → CompileError} {rest : Emission Unit} {condition : Prop}
    {last : Emitter}
    (succeeds : frame.depth = 0 → Succeeds rest ⟨frame, counts⟩ condition () last) :
    Succeeds (do
        let depth := (← get).frame.depth
        if depth ≠ 0 then throw (error depth)
        rest)
      ⟨frame, counts⟩ (frame.depth = 0 ∧ condition) () last := by
  intro found after
  rw [bind_of_ok (get_apply _)]
  by_cases empty : frame.depth = 0
  · simpa [empty] using succeeds empty found after
  · simp [empty, bind_apply, throw_apply]

/-- A body is emitted exactly if every instruction of it is, and leaves the stack
empty. -/
theorem succeeds_emitBody (gives : frame.Gives names) (empty : frame.depth = 0) (method : Method)
    (body : ThreeAddress.Code) :
    Succeeds (emitBody linkage method body) ⟨frame, counts⟩
      (∀ instr ∈ body, Emittable method.isMain names instr) ()
      ⟨frame.add (bodyCode linkage method.isMain names counts body) 0
        (bodyHeight method.isMain body), bodyCounts counts body⟩ := by
  induction body generalizing frame counts with
  | nil =>
      refine (Succeeds.pure () _).congr (by simp) fun _ => ?_
      exact congrArg (Emitter.mk · counts) (Frame.add_nil empty (Nat.zero_le _)).symm
  | cons instr rest ih =>
      refine ((succeeds_emitInstr gives empty method instr).bind (succeeds_whenEmpty fun balanced =>
        ih (gives.add _ _ _) balanced)).congr ?_ fun _ => ?_
      · simp [Emittable, and_assoc]
      · rw [Frame.add_add]
        rfl

/-- The code of a method. -/
def methodCode (linkage : Linkage) (method : Method) (counts : ComparisonCounts) : Lines :=
  bodyCode linkage method.isMain (slotNames method) counts method.body

/-- Methods whose names have slots and whose instructions have code. -/
structure IsEmittable (method : Method) : Prop where
  distinct : (slotNames method).Nodup
  fits : (slotNames method).length ≤ maxLocals
  emittable : ∀ instr ∈ method.body, Emittable method.isMain (slotNames method) instr

/-- A method is generated exactly if it has slots, code and a header. -/
theorem generateMethod_eq_ok_iff :
    generateMethod linkage method counts = .ok code after ↔
      IsEmittable method ∧ headerOf linkage.paths method = .ok code.header ∧
        code.stackLimit = bodyHeight method.isMain method.body ∧
        code.localLimit = (slotNames method).length ∧
        code.lines = methodCode linkage method counts ∧ after = bodyCounts counts method.body := by
  cases made : (Frame.ofMethod method : Except CompileError (Frame Instr)) with
  | error error =>
      refine iff_of_false ?_ ?_
      · simp [generateMethod, made]
      · rintro ⟨isEmittable, _⟩
        rcases (exists_ofMethod_iff method).mpr ⟨isEmittable.distinct, isEmittable.fits⟩ with
          ⟨frame, frameEq⟩
        rw [made] at frameEq
        cases frameEq
  | ok frame =>
      rcases exists_holds_of_ofMethod made with ⟨table, holds, rfl⟩
      have hasSlots := (exists_ofMethod_iff method).mp ⟨_, made⟩
      have succeeds := @succeeds_emitBody _ _ counts linkage (holds.gives method.name) rfl method
        method.body
      cases run : emitBody linkage method method.body ⟨.ofSlots method.name table, counts⟩ with
      | error error emitter =>
          refine iff_of_false ?_ ?_
          · simp [generateMethod, made, run]
          · rintro ⟨isEmittable, _⟩
            have emitted := (succeeds () _).mpr ⟨isEmittable.emittable, rfl, rfl⟩
            rw [run] at emitted
            cases emitted
      | ok _ emitter =>
          rcases (succeeds _ _).mp run with ⟨emittable, _, rfl⟩
          cases headerEq : headerOf linkage.paths method with
          | error error => simp [generateMethod, made, run, headerEq]
          | ok header =>
              rcases code with ⟨codeHeader, stackLimit, localLimit, lines⟩
              have isEmittable : IsEmittable method := ⟨hasSlots.1, hasSlots.2, emittable⟩
              simp only [generateMethod, made, run, headerEq]
              simp [finishMethod, Frame.add, Frame.ofSlots, Frame.locals, holds.next_eq, methodCode,
                isEmittable, eq_comm, and_assoc]

end ClassCompiler.StackCode
