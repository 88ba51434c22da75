import ClassCompiler.Proofs.Emission.Balance
import ClassCompiler.Proofs.Emission.Classes
import ClassCompiler.Proofs.Emission.Labels

/-!
# What emission does not look at

Emission writes lines, and it takes numbers for the labels of comparisons, but it looks
at neither. The path of the parent class is written into lines too, and no more. So two
emissions that differ in the lines so far, in the numbers of comparisons and in the parent
both succeed or both fail with the same error.
-/

namespace ClassCompiler.StackCode

open Effects Emission
open ThreeAddress (Call ClassUnit Method Value)

/-! ## Two emissions -/

/-- Two emitters that keep the same account of slots and of the operand stack. -/
structure SameAccount (first second : Emitter) : Prop where
  method : first.frame.method = second.frame.method
  slots : first.frame.slots = second.frame.slots
  nextSlot : first.frame.nextSlot = second.frame.nextSlot
  depth : first.frame.depth = second.frame.depth
  maxDepth : first.frame.maxDepth = second.frame.maxDepth

variable {α β : Type}

theorem twin_attempt (result : Except CompileError α) :
    Twin SameAccount (Emission.attempt result) (Emission.attempt result) := by
  cases result with
  | ok value => exact .pure value
  | error error => exact .throw error

/-- Two results that are both there may differ, if what follows ends alike for them. -/
theorem twin_attempt_bind {result other : Except CompileError α} {next follows : α → Emission β}
    (alike : (∃ value found, result = .ok value ∧ other = .ok found) ∨
      ∃ error, result = .error error ∧ other = .error error)
    (each : ∀ value found, Twin SameAccount (next value) (follows found)) :
    Twin SameAccount (Emission.attempt result >>= next) (Emission.attempt other >>= follows) := by
  rcases alike with ⟨value, found, rfl, rfl⟩ | ⟨error, rfl, rfl⟩
  · exact each value found
  · exact .throw error

/-- What instruction is added makes no difference. -/
theorem twin_emit (instr other : Instr) : Twin SameAccount (emit instr) (emit other) :=
  fun _ _ same => .ok () ⟨same.method, same.slots, same.nextSlot, same.depth, same.maxDepth⟩

theorem twin_push (count : Nat) : Twin SameAccount (push count) (push count) := by
  intro first second same
  refine .ok () ⟨same.method, same.slots, same.nextSlot, ?_, ?_⟩
  · exact congrArg (· + count) same.depth
  · exact congrArg₂ (fun highest depth => max highest (depth + count)) same.maxDepth same.depth

theorem twin_pop (count : Nat) : Twin SameAccount (pop count) (pop count) := by
  intro first second same
  change EndsAlike SameAccount
    ((Emission.attempt (first.frame.pop count) >>= fun frame => set { first with frame }) first)
    ((Emission.attempt (second.frame.pop count) >>= fun frame => set { second with frame }) second)
  unfold Frame.pop
  rw [← same.depth]
  by_cases enough : count ≤ first.frame.depth
  · rw [if_pos enough, if_pos enough]
    exact .ok () ⟨same.method, same.slots, same.nextSlot, rfl, same.maxDepth⟩
  · rw [if_neg enough, if_neg enough, ← same.method]
    exact .error _ first second

theorem twin_slot (name : String) : Twin SameAccount (Emission.slot name) (Emission.slot name) := by
  intro first second same
  change EndsAlike SameAccount (Emission.attempt (first.frame.slot name) first)
    (Emission.attempt (second.frame.slot name) second)
  unfold Frame.slot
  rw [← same.slots, ← same.method]
  exact twin_attempt _ first second same

/-! ## Operands -/

theorem twin_emit_push (instr : Instr) :
    Twin SameAccount (do emit instr; push 1) (do emit instr; push 1) :=
  (twin_emit instr instr).bind fun _ => twin_push 1

theorem twin_loadValue (value : Value) : Twin SameAccount (loadValue value) (loadValue value) := by
  induction value with
  | const constant => cases constant <;> exact twin_emit_push _
  | self ty => exact twin_emit_push _
  | temp name ty | var name ty =>
      exact (twin_slot name).bind fun _ => (twin_attempt _).bind fun _ => twin_emit_push _
  | element array position ty twinArray twinPosition =>
      exact twinArray.bind fun _ => twinPosition.bind fun _ => (twin_emit _ _).bind fun _ =>
        (twin_pop 2).bind fun _ => twin_push 1
  | classRef name => exact .throw _

theorem twin_loadValues (values : List Value) :
    Twin SameAccount (loadValues values) (loadValues values) := by
  induction values with
  | nil => exact .pure ()
  | cons value rest ih =>
      exact (twin_loadValue value).bind fun _ => ih

theorem twin_storeValue (dest : Value) : Twin SameAccount (storeValue dest) (storeValue dest) := by
  cases dest with
  | temp name ty | var name ty =>
      exact (twin_slot name).bind fun _ => (twin_attempt _).bind fun _ =>
        (twin_emit _ _).bind fun _ => twin_pop 1
  | _ => exact .throw _

/-! ## Operations -/

/-- Two comparisons that find their operands end alike, and each takes a number of its
own. -/
theorem endsAlike_emitComparison (kind : Comparison) {first second : Emitter}
    (same : SameAccount first second) (enough : 2 ≤ first.frame.depth) :
    EndsAlike SameAccount (emitComparison kind first) (emitComparison kind second) := by
  obtain ⟨frame, counts⟩ := first
  obtain ⟨other, otherCounts⟩ := second
  have depthEq : frame.depth = other.depth := same.depth
  rw [(succeeds_emitComparison kind () _).mpr ⟨enough, rfl, rfl⟩,
    (succeeds_emitComparison kind () _).mpr ⟨depthEq ▸ enough, rfl, rfl⟩]
  refine .ok () ⟨same.method, same.slots, same.nextSlot, congrArg (· - 1) depthEq, ?_⟩
  exact congrArg₂ (fun highest depth => max highest (depth - 1)) same.maxDepth depthEq

theorem endsAlike_emitOperator (op : BinaryOp) {first second : Emitter}
    (same : SameAccount first second) (enough : 2 ≤ first.frame.depth) :
    EndsAlike SameAccount (emitOperator op first) (emitOperator op second) := by
  cases op with
  | arith op | and => exact (twin_emit _ _).bind (fun _ => twin_pop 1) first second same
  | compare kind => exact endsAlike_emitComparison kind same enough

/-- A value that has been pushed is counted. -/
theorem depth_of_loadValue {value : Value} {emitter after : Emitter} {result : Unit}
    (run : loadValue value emitter = .ok result after) :
    after.frame.depth = emitter.frame.depth + 1 :=
  ((shifts_loadValue value emitter rfl).of_ok run).2.1

theorem twin_emitBinary (dest : Value) (op : BinaryOp) (left right : Value) :
    Twin SameAccount (emitBinary dest op left right) (emitBinary dest op left right) := by
  unfold emitBinary
  split
  · exact (twin_slot _).bind fun _ => twin_emit _ _
  · -- The operator finds the two values that were pushed for it.
    intro first second same
    refine (twin_loadValue left first second same).bind fun _ left right leftRun sameLeft => ?_
    refine (twin_loadValue _ left right sameLeft).bind fun _ both others rightRun sameBoth => ?_
    have enough : 2 ≤ both.frame.depth := by
      rw [depth_of_loadValue rightRun, depth_of_loadValue leftRun]
      exact Nat.le_add_left 2 _
    exact (endsAlike_emitOperator op sameBoth enough).bind fun _ last other _ sameLast =>
      twin_storeValue dest last other sameLast

theorem twin_emitAssign (dest value : Value) :
    Twin SameAccount (emitAssign dest value) (emitAssign dest value) := by
  unfold emitAssign
  split
  · exact (twin_loadValue _).bind fun _ => (twin_loadValue _).bind fun _ =>
      (twin_loadValue value).bind fun _ => (twin_emit _ _).bind fun _ => twin_pop 3
  · exact (twin_loadValue value).bind fun _ => twin_storeValue dest

section

variable {paths : ClassPaths} {superPath otherPath : String}

/-- The owner of a method is the parent class in both emissions, the same class, or none. -/
theorem invokeOwner_cases (mode : ThreeAddress.InvokeMode) (target : Value) (method : String) :
    (∃ owner other, invokeOwner ⟨paths, superPath⟩ mode target method = .ok owner ∧
      invokeOwner ⟨paths, otherPath⟩ mode target method = .ok other) ∨
    ∃ error, invokeOwner ⟨paths, superPath⟩ mode target method = .error error ∧
      invokeOwner ⟨paths, otherPath⟩ mode target method = .error error := by
  have sameOwner : invokeOwner ⟨paths, superPath⟩ mode target method =
      invokeOwner ⟨paths, otherPath⟩ mode target method ∨
      (mode = .special ∧ ∃ ty, target = .self ty) := by
    cases mode with
    | static => cases target <;> exact .inl rfl
    | virtual => exact .inl rfl
    | special =>
        cases target with
        | self ty => exact .inr ⟨rfl, ty, rfl⟩
        | _ => exact .inl rfl
  rcases sameOwner with same | ⟨rfl, ty, rfl⟩
  · rw [same]
    cases invokeOwner ⟨paths, otherPath⟩ mode target method with
    | ok owner => exact .inl ⟨owner, owner, rfl, rfl⟩
    | error error => exact .inr ⟨error, rfl, rfl⟩
  · exact .inl ⟨superPath, otherPath, rfl, rfl⟩

theorem twin_emitInvoke (mode : ThreeAddress.InvokeMode) (call : Call) :
    Twin SameAccount (emitInvoke ⟨paths, superPath⟩ mode call)
      (emitInvoke ⟨paths, otherPath⟩ mode call) := by
  cases methodEq : call.method with
  | none =>
      unfold emitInvoke
      rw [methodEq]
      exact .throw _
  | some method =>
      cases targetEq : call.target with
      | none =>
          unfold emitInvoke
          rw [methodEq, targetEq]
          exact .throw _
      | some target =>
          rw [emitInvoke_eq targetEq methodEq, emitInvoke_eq targetEq methodEq]
          refine twin_attempt_bind (invokeOwner_cases mode target method) fun owner other =>
            (twin_loadValues _).bind fun _ => (twin_attempt _).bind fun _ =>
            (twin_emit _ _).bind fun _ => (twin_pop _).bind fun _ => ?_
          split
          · exact twin_push 1
          · exact .pure ()

theorem twin_emitCall (call : Call) :
    Twin SameAccount (emitCall ⟨paths, superPath⟩ call) (emitCall ⟨paths, otherPath⟩ call) := by
  obtain ⟨invocation, target, method, args, returnTy⟩ := call
  cases invocation with
  | new => exact twin_emit_push _
  | newArray =>
      cases args with
      | nil => exact .throw _
      | cons size rest =>
          exact (twin_loadValue size).bind fun _ => (twin_attempt _).bind fun _ =>
            twin_emit _ _
  | arrayLength =>
      cases target with
      | none => exact .throw _
      | some array => exact (twin_loadValue array).bind fun _ => twin_emit _ _
  | invoke mode => exact twin_emitInvoke mode _

theorem twin_emitResult (dest : Option Value) (call : Call) :
    Twin SameAccount (emitResult dest call) (emitResult dest call) := by
  cases dest with
  | some dest => exact twin_storeValue dest
  | none =>
      unfold emitResult
      cases call.returnsValue with
      | true => exact (twin_emit _ _).bind fun _ => twin_pop 1
      | false => exact .pure ()

/-- Whether the code of an instruction is made depends on the account alone. -/
theorem twin_emitInstr (method : Method) (instr : ThreeAddress.Instr) :
    Twin SameAccount (emitInstr ⟨paths, superPath⟩ method instr)
      (emitInstr ⟨paths, otherPath⟩ method instr) := by
  cases instr with
  | assign dest value => exact twin_emitAssign dest value
  | binary dest op left right => exact twin_emitBinary dest op left right
  | not dest operand =>
      exact (twin_loadValue operand).bind fun _ => (twin_emit _ _).bind fun _ =>
        (twin_push 1).bind fun _ => (twin_emit _ _).bind fun _ => (twin_pop 1).bind fun _ =>
        twin_storeValue dest
  | getField dest object field ty =>
      exact (twin_loadValue object).bind fun _ => (twin_attempt _).bind fun _ =>
        (twin_attempt _).bind fun _ => (twin_emit _ _).bind fun _ => twin_storeValue dest
  | putField object field value =>
      exact (twin_loadValue object).bind fun _ => (twin_loadValue value).bind fun _ =>
        (twin_attempt _).bind fun _ => (twin_attempt _).bind fun _ =>
        (twin_emit _ _).bind fun _ => twin_pop 2
  | call dest call => exact (twin_emitCall call).bind fun _ => twin_emitResult dest call
  | ret value =>
      cases value with
      | none => exact twin_emit _ _
      | some value =>
          cases isMain : method.isMain with
          | true =>
              simp only [emitInstr, isMain, if_true]
              exact twin_emit _ _
          | false =>
              simp only [emitInstr, isMain, Bool.false_eq_true, if_false]
              exact (twin_loadValue value).bind fun _ => (twin_attempt _).bind fun _ =>
                (twin_emit _ _).bind fun _ => twin_pop 1
  | goto target => exact twin_emit _ _
  | branch cond target =>
      exact (twin_loadValue cond).bind fun _ => (twin_emit _ _).bind fun _ => twin_pop 1
  | label name =>
      exact fun _ _ same =>
        .ok () ⟨same.method, same.slots, same.nextSlot, same.depth, same.maxDepth⟩

/-! ## Errors -/

theorem twin_emitBody (method : Method) (body : ThreeAddress.Code) :
    Twin SameAccount (emitBody ⟨paths, superPath⟩ method body)
      (emitBody ⟨paths, otherPath⟩ method body) := by
  induction body with
  | nil => exact .pure ()
  | cons instr rest ih =>
      refine (twin_emitInstr method instr).bind fun _ first second same => ?_
      change EndsAlike SameAccount
        ((if first.frame.depth ≠ 0 then
            throw (.unbalancedStack method.name instr.text first.frame.depth)
          else emitBody ⟨paths, superPath⟩ method rest : Emission Unit) first)
        ((if second.frame.depth ≠ 0 then
            throw (.unbalancedStack method.name instr.text second.frame.depth)
          else emitBody ⟨paths, otherPath⟩ method rest : Emission Unit) second)
      rw [← same.depth]
      split
      · exact .error _ _ _
      · exact ih first second same

/-- The error with which a run fails. -/
def failure? {ε σ : Type} : EStateM.Result ε σ α → Option ε
  | .ok _ _ => none
  | .error error _ => some error

theorem failure?_pure {ε σ : Type} (value : α) (state : σ) :
    failure? ((pure value : EStateM ε σ α) state) = none :=
  rfl

theorem exists_of_failure? {ε σ : Type} {run : EStateM.Result ε σ α} {error : ε}
    (failed : failure? run = some error) : ∃ after, run = .error error after := by
  cases run with
  | ok value after => cases failed
  | error found after =>
      cases failed
      exact ⟨after, rfl⟩

/-- A sequence fails as its first part does, or as its second part does from there. -/
theorem failure?_bind {ε σ : Type} {action other : EStateM ε σ α} {next follows : α → EStateM ε σ β}
    {first second : σ} (same : failure? (action first) = failure? (other second))
    (each : ∀ value found middle after, action first = .ok value middle →
      other second = .ok found after →
        failure? (next value middle) = failure? (follows found after)) :
    failure? ((action >>= next) first) = failure? ((other >>= follows) second) := by
  rw [bind_apply, bind_apply]
  cases run : action first with
  | ok value middle =>
      cases otherRun : other second with
      | ok found after => exact each value found middle after run otherRun
      | error error after =>
          rw [run, otherRun] at same
          cases same
  | error error middle =>
      cases otherRun : other second with
      | ok found after =>
          rw [run, otherRun] at same
          cases same
      | error otherError after =>
          rw [run, otherRun] at same
          exact same

theorem failure?_generateMethod (method : Method) (counts otherCounts : ComparisonCounts) :
    failure? (generateMethod ⟨paths, superPath⟩ method counts) =
      failure? (generateMethod ⟨paths, otherPath⟩ method otherCounts) := by
  unfold generateMethod
  cases Frame.ofMethod method with
  | error error => rfl
  | ok frame =>
      have ends : EndsAlike SameAccount
          (emitBody ⟨paths, superPath⟩ method method.body ⟨frame, counts⟩)
          (emitBody ⟨paths, otherPath⟩ method method.body ⟨frame, otherCounts⟩) :=
        twin_emitBody method method.body _ _ ⟨rfl, rfl, rfl, rfl, rfl⟩
      dsimp only
      generalize emitBody ⟨paths, superPath⟩ method method.body ⟨frame, counts⟩ = run at ends ⊢
      generalize emitBody ⟨paths, otherPath⟩ method method.body ⟨frame, otherCounts⟩ = other
        at ends ⊢
      cases ends with
      | ok value same =>
          dsimp only
          cases headerOf paths method <;> rfl
      | error error => rfl

theorem failure?_generateMethods (methods : List Method) (counts otherCounts : ComparisonCounts) :
    failure? (generateMethods ⟨paths, superPath⟩ methods counts) =
      failure? (generateMethods ⟨paths, otherPath⟩ methods otherCounts) := by
  induction methods generalizing counts otherCounts with
  | nil => rfl
  | cons method rest ih =>
      refine failure?_bind (failure?_generateMethod method counts otherCounts) ?_
      intro _ _ middle after _ _
      exact failure?_bind (ih middle after) fun _ _ _ _ _ _ => rfl

end

theorem failure?_generateClass (rootClass otherRoot : String) (unit : ClassUnit)
    (counts otherCounts : ComparisonCounts) :
    failure? (generateClass rootClass unit counts) =
      failure? (generateClass otherRoot unit otherCounts) := by
  have pathsEq (root : String) : (Linkage.ofClass root unit).paths = ClassPaths.ofClass unit := rfl
  unfold generateClass
  rw [pathsEq, pathsEq]
  cases fieldDescriptors (ClassPaths.ofClass unit) unit.fields with
  | error error => rfl
  | ok fields =>
      change failure? ((generateMethods (.ofClass rootClass unit) unit.methods >>= _) counts) =
        failure? ((generateMethods (.ofClass otherRoot unit) unit.methods >>= _) otherCounts)
      exact failure?_bind (failure?_generateMethods _ _ _) fun _ _ _ _ _ _ => rfl

/-- Whether a class is assembled, and the error if it is not, depends neither on the
options nor on the numbers of earlier comparisons. -/
theorem failure?_assemble (options other : Options) (unit : ClassUnit)
    (counts otherCounts : ComparisonCounts) :
    failure? (assemble options unit counts) = failure? (assemble other unit otherCounts) := by
  refine failure?_bind (failure?_generateClass _ _ unit counts otherCounts) ?_
  intro _ _ _ _ _ _
  rw [failure?_pure, failure?_pure]

/-- A class has code, or it fails with one error whatever the options and the counts are. -/
theorem hasClassCode_or_failure (unit : ClassUnit) :
    HasClassCode unit ∨
      ∃ error, ∀ options counts, failure? (assemble options unit counts) = some error := by
  cases run : assemble {} unit {} with
  | ok text after =>
      obtain ⟨file, middle, generated, _⟩ := bind_eq_ok_iff.mp run
      obtain ⟨describable, codes, generates, _⟩ := generateClass_eq_ok_iff.mp generated
      exact .inl ⟨describable, exists_generatesMethods_iff.mp ⟨codes, middle, generates⟩⟩
  | error error after =>
      refine .inr ⟨error, fun options counts => ?_⟩
      rw [failure?_assemble options {} unit counts {}, run]
      rfl

end ClassCompiler.StackCode
