import ClassCompiler.Proofs.Emission.Faults
import ClassCompiler.Proofs.Lowering.Faults
import ClassCompiler.Proofs.Lowering.Simple

/-!
# Calls without a result

A `void` call whose value is needed is a fault, so a lowered class has none. Only an
assignment to a declared variable takes the result of a call without looking at its type:
there a `void` call is lowered to a call with a destination, and generation fails with a
stack underflow. Nothing else brings the operand stack below its bottom.
-/

namespace ClassCompiler.Semantics

/-- A `void` call whose value is needed: as an operand, an argument, a receiver, a
position, a size, a condition, a returned value, or a value that is stored into a field
or an element. -/
def Occurrence.needsVoid : Occurrence → Bool
  | .call _ _ _ _ result .temporary => result.isVoid
  | _ => false

/-- A `void` call that is assigned to a declared variable. -/
def Occurrence.storesVoid : Occurrence → Bool
  | .call _ _ _ _ result (.into _) => result.isVoid
  | _ => false

theorem Occurrence.exists_fault_of_needsVoid {occurrence : Occurrence}
    (isNeeded : occurrence.needsVoid = true) (method : String) :
    ∃ error, occurrence.Faults method error := by
  unfold needsVoid at isNeeded
  split at isNeeded
  · exact ⟨_, .voidAsValue isNeeded⟩
  · cases isNeeded

/-- A `void` call whose value is needed is reported as such. -/
theorem Occurrence.Faults.eq_of_needsVoid {method : String} {occurrence : Occurrence}
    {error : CompileError} (faults : occurrence.Faults method error)
    (isNeeded : occurrence.needsVoid = true) :
    ∃ name, error = .unsupported (.voidCallAsValue name) := by
  cases faults with
  | voidAsValue isVoid => exact ⟨_, rfl⟩
  | _ => cases isNeeded

/-- Some declared method of a program has an occurrence of a kind. -/
def Occurs (table : SymbolTable) (program : Program) (kind : Occurrence → Bool) : Prop :=
  ∃ decl ∈ program.decl.methods, ∃ signature, table.method? decl.name = some signature ∧
    ∃ occurrence ∈ (Context.mk table signature).bodyOccurrences decl.body,
      kind occurrence = true

end ClassCompiler.Semantics

namespace ClassCompiler.ThreeAddress

open Effects
open Semantics (Context Faultless Occurrence Occurs)

variable {table : SymbolTable} {context : Context} {hasSelf : Prop}

/-- A call without a result has a destination if its value is needed, if it is assigned to
a variable, or if it makes an object of a class called `void`. -/
theorem Block.void_call {occurrence : Occurrence} {code : Code} {dest : Value} {site : Call}
    (isBlock : Block context hasSelf occurrence code) (member : .call (some dest) site ∈ code)
    (isVoid : site.returnTy.isVoid = true) :
    occurrence.needsVoid = true ∨ site = .newObject "void" ∨
      ((∃ name ty, dest = .var name ty) ∧ occurrence.storesVoid = true) := by
  have returnEq : site.returnTy = Ty.void := beq_iff_eq.mp isVoid
  have noArray {elem : Ty} {size : Value} (siteEq : site = .newArray elem size) : False := by
    subst siteEq
    cases congrArg Ty.shape returnEq
  cases isBlock with
  | self => cases member
  | declared => cases member
  | length =>
      cases List.mem_singleton.mp member
      cases isVoid
  | newArray =>
      cases List.mem_singleton.mp member
      exact (noArray rfl).elim
  | array =>
      rcases List.mem_cons.mp member with same | later
      · cases same
        exact (noArray rfl).elim
      · obtain ⟨_, _, same⟩ := List.mem_map.mp later
        cases same
  | newObject className dest =>
      rcases List.mem_cons.mp member with same | later
      · cases same
        have nameEq : className = "void" := congrArg Ty.name returnEq
        subst nameEq
        exact .inr (.inl rfl)
      · cases List.mem_singleton.mp later
  | @call _ _ _ _ _ dest _ _ _ _ _ _ isDest =>
      cases List.mem_singleton.mp member
      cases dest with
      | temporary => exact .inl isVoid
      | into declared =>
          obtain ⟨name, destEq, _⟩ := isDest
          cases destEq
          exact .inr (.inr ⟨⟨name, declared, rfl⟩, isVoid⟩)
      | dropped => cases isDest
  | _ => cases List.mem_singleton.mp member

-- The object of a class called `void` has the type of calls without a result.
example : ((lowerExpr (.ofProgram clockProgram) (.newObject "void") Ty.int).run' {}).map
    Lowered.code = some [.call (some (.temp "tmp0" Ty.void)) (.newObject "void"),
      .call none (.construct (.temp "tmp0" Ty.void))] :=
  rfl

/-- Where a lowered method has a call without a result but with a destination, its source
assigns such a call to a variable or makes an object of a class called `void`. -/
theorem LowersMethod.void_call {decl : MethodDecl} {state after : LoweringState} {method : Method}
    (lowers : LowersMethod table decl state method after)
    (faultless : ∀ signature, table.method? decl.name = some signature →
      Faultless signature.name ((Context.mk table signature).bodyOccurrences decl.body))
    {dest : Value} {site : Call} (member : .call (some dest) site ∈ method.body)
    (isVoid : site.returnTy.isVoid = true) :
    site = .newObject "void" ∨ ((∃ name ty, dest = .var name ty) ∧
      ∃ signature, table.method? decl.name = some signature ∧
        ∃ occurrence ∈ (Context.mk table signature).bodyOccurrences decl.body,
          occurrence.storesVoid = true) := by
  obtain ⟨signature, code, found, rfl, _, renders⟩ :=
    @LowersMethod.exists_renders _ _ _ _ _ (fun _ => True) lowers fun _ _ _ => trivial
  rcases mem_of_mem_completeBody member with inCode | ⟨same, _⟩
  · rcases renders.exists_block_of_mem inCode with isControl |
      ⟨occurrence, occurs, _, _, isBlock, inBlock⟩
    · exact isControl.elim
    · rcases isBlock.void_call inBlock isVoid with isNeeded | isNew | ⟨isVariable, isStored⟩
      · obtain ⟨error, faults⟩ := Occurrence.exists_fault_of_needsVoid isNeeded signature.name
        exact absurd faults (faultless signature found occurrence occurs error)
      · exact .inl isNew
      · exact .inr ⟨isVariable, signature, found, occurrence, occurs, isStored⟩
  · cases same

theorem void_call_of_lowerProgram {program : Program} {state after : LoweringState}
    {unit : ClassUnit} (run : lowerProgram table program state = .ok unit after) {method : Method}
    (methodMember : method ∈ unit.methods) {dest : Value} {site : Call}
    (member : .call (some dest) site ∈ method.body) (isVoid : site.returnTy.isVoid = true) :
    site = .newObject "void" ∨
      ((∃ name ty, dest = .var name ty) ∧ Occurs table program Occurrence.storesVoid) := by
  obtain ⟨methods, lowers, rfl⟩ := lowerProgram_eq_ok_iff.mp run
  rcases List.mem_cons.mp methodMember with rfl | lowered
  · rcases List.mem_cons.mp member with same | later
    · cases same
    · cases List.mem_singleton.mp later
  · obtain ⟨decl, declMember, _, _, lowersMethod⟩ :=
      (lowersMethods_of_eq_ok lowers).exists_decl lowered
    rcases lowersMethod.void_call (fun _ found => faultless_of_lowerMethods lowers declMember found)
      member isVoid with isNew | ⟨isVariable, stores⟩
    · exact .inl isNew
    · exact .inr ⟨isVariable, decl, declMember, stores⟩

/-- A method with a `void` call whose value is needed is not lowered. -/
theorem exists_error_of_needsVoid {decl : MethodDecl} {signature : MethodSignature}
    (found : table.method? decl.name = some signature) {occurrence : Occurrence}
    (occurs : occurrence ∈ (Context.mk table signature).bodyOccurrences decl.body)
    (isNeeded : occurrence.needsVoid = true) (state : LoweringState) :
    ∃ error last, lowerMethod table decl state = .error error last ∧
      ∃ other ∈ (Context.mk table signature).bodyOccurrences decl.body,
        other.Faults signature.name error := by
  have outcome := outcome_lowerMethod found state
  cases run : lowerMethod table decl state with
  | ok method last =>
      obtain ⟨error, faults⟩ := Occurrence.exists_fault_of_needsVoid isNeeded signature.name
      exact absurd faults ((outcome.of_ok run).2 occurrence occurs error)
  | error error last => exact ⟨error, last, rfl, (outcome.of_error run).2⟩

end ClassCompiler.ThreeAddress

namespace ClassCompiler

open Semantics (Context Occurrence Occurs)
open StackCode (generateClass)
open ThreeAddress (lowerMethod lowerProgram)

/-- A `void` call whose value is needed is refused. In a class that is lowered, a call with
a destination has a result unless it is assigned to a variable or makes an object of a
class called `void`, and only the former brings generation to a stack underflow. -/
theorem void_call_is_no_value (table : SymbolTable) :
    (∀ program state unit after, lowerProgram table program state = .ok unit after →
      ¬Occurs table program Occurrence.needsVoid ∧
      (∀ method ∈ unit.methods, ∀ dest site, .call (some dest) site ∈ method.body →
        site.returnTy.isVoid = true → site = .newObject "void" ∨
          ((∃ name ty, dest = .var name ty) ∧ Occurs table program Occurrence.storesVoid)) ∧
      (∀ rootClass counts name last,
        generateClass rootClass unit counts = .error (.stackUnderflow name) last →
          Occurs table program Occurrence.storesVoid)) ∧
    ∀ decl signature state, table.method? decl.name = some signature →
      ∀ occurrence ∈ (Context.mk table signature).bodyOccurrences decl.body,
        occurrence.needsVoid = true →
          ∃ error last, lowerMethod table decl state = .error error last ∧
            (∃ other ∈ (Context.mk table signature).bodyOccurrences decl.body,
              other.Faults signature.name error) ∧
            ((∀ other ∈ (Context.mk table signature).bodyOccurrences decl.body,
              ∀ fault, other.Faults signature.name fault → other.needsVoid = true) →
                ∃ name, error = .unsupported (.voidCallAsValue name)) := by
  constructor
  · intro program state unit after run
    refine ⟨?_, ?_, ?_⟩
    · rintro ⟨decl, declMember, signature, found, occurrence, occurs, isNeeded⟩
      obtain ⟨methods, lowers, _⟩ := ThreeAddress.lowerProgram_eq_ok_iff.mp run
      obtain ⟨error, faults⟩ := Occurrence.exists_fault_of_needsVoid isNeeded signature.name
      exact ThreeAddress.faultless_of_lowerMethods lowers declMember found occurrence occurs error
        faults
    · intro method methodMember dest site member isVoid
      exact ThreeAddress.void_call_of_lowerProgram run methodMember member isVoid
    · intro rootClass counts name last failed
      have areSimple := ThreeAddress.isSimple_of_lowerProgram run
      rcases StackCode.fault_of_generateClass areSimple failed with isType |
        ⟨method, methodMember, isFault⟩
      · exact isType.elim
      · cases isFault with
        | ofType isType => exact isType.elim
        | @missingResult dest site mode member invokes isVoid =>
            rcases ThreeAddress.void_call_of_lowerProgram run methodMember member isVoid with
              isNew | ⟨_, stores⟩
            · rw [isNew] at invokes
              cases invokes
            · exact stores
  · intro decl signature state found occurrence occurs isNeeded
    obtain ⟨error, last, failed, other, otherOccurs, faults⟩ :=
      ThreeAddress.exists_error_of_needsVoid found occurs isNeeded state
    refine ⟨error, last, failed, ⟨other, otherOccurs, faults⟩, ?_⟩
    intro onlyVoid
    exact faults.eq_of_needsVoid (onlyVoid other otherOccurs error faults)

/-- A method of the clock that takes its call without a result for a condition. -/
def clockWaitDecl : MethodDecl where
  name := "keep"
  returnTy := Ty.void
  params := []
  locals := [⟨"count", Ty.int⟩]
  body := [.whileLoop (.not (.call .self "tick" [])) (.block [])]
  isStatic := false
  isPublic := true

/-- The clock fails to be generated since it assigns a call without a result, and such a
call is no condition. -/
theorem void_call_is_no_value_clock :
    (∃ last, generateClass "java.lang.Object" clockUnit {} =
        .error (.stackUnderflow "keep") last) ∧
      Occurs (.ofProgram clockProgram) clockProgram Occurrence.storesVoid ∧
      ∃ error last, lowerMethod (.ofProgram clockProgram) clockWaitDecl {} = .error error last ∧
        ∃ name, error = .unsupported (.voidCallAsValue name) := by
  obtain ⟨lowered, refused⟩ := void_call_is_no_value (.ofProgram clockProgram)
  obtain ⟨after, run⟩ := ThreeAddress.lowerFresh_eq_ok_iff.mp lowerFresh_clockProgram
  obtain ⟨last, failed⟩ := generateClass_clockUnit "java.lang.Object" {}
  refine ⟨⟨last, failed⟩, (lowered _ _ _ _ run).2.2 _ _ _ _ failed, ?_⟩
  let context : Context := ⟨.ofProgram clockProgram, .ofDecl clockWaitDecl⟩
  have isSafeOrVoid : ∀ occurrence ∈ context.bodyOccurrences clockWaitDecl.body,
      occurrence.isSafe = true ∨ occurrence.needsVoid = true := by decide
  obtain ⟨occurrence, occurs, isNeeded⟩ : ∃ occurrence ∈
      context.bodyOccurrences clockWaitDecl.body, occurrence.needsVoid = true := by decide
  obtain ⟨error, last, failed, _, isVoid⟩ := refused _ _ {} rfl occurrence occurs isNeeded
  refine ⟨error, last, failed, isVoid ?_⟩
  intro other otherOccurs fault faults
  rcases isSafeOrVoid other otherOccurs with isSafe | isNeeded
  · exact absurd faults (Occurrence.not_faults_of_isSafe isSafe fault)
  · exact isNeeded

/-- An assignment to a variable takes a call without a result: the class is lowered to a
call that has a destination and no result, and its generation ends in a stack
underflow. -/
theorem void_call_is_stored_clock :
    ThreeAddress.lowerFresh (.ofProgram clockProgram) clockProgram = .ok clockUnit ∧
      (∃ method ∈ clockUnit.methods, ∃ dest site, .call (some dest) site ∈ method.body ∧
        site.returnTy.isVoid = true) ∧
      compile {} (.ofProgram clockProgram) clockProgram = .error (.stackUnderflow "keep") := by
  refine ⟨lowerFresh_clockProgram, ?_, ?_⟩
  · exact ⟨clockKeepMethod, by decide, _, clockTickCall, List.mem_cons_self, rfl⟩
  · obtain ⟨last, failed⟩ := generateClass_clockUnit (Options.rootClass {}) {}
    exact compile_eq_error lowerFresh_clockProgram failed

end ClassCompiler
