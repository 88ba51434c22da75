import ClassCompiler.Proofs.Emission.Faults
import ClassCompiler.Proofs.Lowering.Simple

/-!
# Lowered classes are simple

A class that has been lowered from a program is simple, so its generation never meets a
name without slot, a call without target, a class as a value, a destination that is no
variable, or an operand stack that is not empty after an instruction. What is left are
faults of types, of the number and the names of variables, and of results that are stored
while there are none.
-/

namespace ClassCompiler

open StackCode (IsTypeFault MethodFault generateClass)
open ThreeAddress (ClassUnit LoweringState lowerProgram)

/-- The errors of three-address code that is not simple. -/
def IsShapeFault : CompileError → Prop
  | .unresolvedSymbol _ _ | .unresolvedCall _ | .unbalancedStack _ _ _ => True
  | .unsupported (.classAsValue _) | .unsupported (.storeInto _) => True
  | .internal .missingArraySize | .internal .missingArrayOperand => True
  | _ => False

theorem not_isShapeFault_of_isTypeFault {error : CompileError} (isTypeFault : IsTypeFault error) :
    ¬IsShapeFault error := by
  intro isShapeFault
  cases error with
  | unsupported construct =>
      cases construct with
      | memberAccess ty | voidOnStack => exact isShapeFault
      | _ => exact isTypeFault
  | noDescriptor ty => exact isShapeFault
  | _ => exact isTypeFault

theorem not_isShapeFault_of_methodFault {method : ThreeAddress.Method} {error : CompileError}
    (isFault : MethodFault method error) : ¬IsShapeFault error := by
  cases isFault with
  | ofType isTypeFault => exact not_isShapeFault_of_isTypeFault isTypeFault
  | tooManyLocals => exact id
  | declaredTwice name repeated => exact id
  | missingResult member invokes isVoid => exact id

/-- The instructions of a lowered class are simple, and where its generation fails, it
fails for another reason than the shape of the instructions. -/
theorem simple_of_lowerProgram {table : SymbolTable} {program : Program}
    {state after : LoweringState} {unit : ClassUnit}
    (run : lowerProgram table program state = .ok unit after) :
    (∀ method ∈ unit.methods, ∀ instr ∈ method.body, instr.IsSimple table.classTy method) ∧
      ∀ rootClass counts error last,
        generateClass rootClass unit counts = .error error last →
          ¬IsShapeFault error ∧
            (IsTypeFault error ∨ ∃ method ∈ unit.methods, MethodFault method error) := by
  have areSimple := ThreeAddress.isSimple_of_lowerProgram run
  refine ⟨areSimple, ?_⟩
  intro rootClass counts error last failed
  have isFault := StackCode.fault_of_generateClass areSimple failed
  refine ⟨?_, isFault⟩
  rcases isFault with ofType | ⟨method, _, ofMethod⟩
  · exact not_isShapeFault_of_isTypeFault ofType
  · exact not_isShapeFault_of_methodFault ofMethod

/-- The clock is simple, and what it lacks is a result. -/
theorem simple_clockUnit :
    ∃ after last, lowerProgram (.ofProgram clockProgram) clockProgram {} = .ok clockUnit after ∧
      generateClass "java.lang.Object" clockUnit {} = .error (.stackUnderflow "keep") last ∧
      (∀ method ∈ clockUnit.methods, ∀ instr ∈ method.body,
        instr.IsSimple (SymbolTable.ofProgram clockProgram).classTy method) ∧
      ¬IsShapeFault (.stackUnderflow "keep") ∧
      (IsTypeFault (.stackUnderflow "keep") ∨
        ∃ method ∈ clockUnit.methods, MethodFault method (.stackUnderflow "keep")) := by
  obtain ⟨after, run⟩ := ThreeAddress.lowerFresh_eq_ok_iff.mp lowerFresh_clockProgram
  obtain ⟨last, failed⟩ := generateClass_clockUnit "java.lang.Object" {}
  obtain ⟨areSimple, faults⟩ := simple_of_lowerProgram run
  exact ⟨after, last, run, failed, areSimple, faults _ _ _ _ failed⟩

end ClassCompiler
