import ClassCompiler.Proofs.Emission.Faults

/-!
# The balance of the operand stack

The emission of any instruction, whatever its values are, moves the account of the operand
stack by an amount that is known beforehand, or fails for a reason that has nothing to do
with the account. Two kinds of calls are out of balance. One creates an object or takes
the length of an array and says that its result is `void`, and nobody stores it: its value
stays on the stack. The other stores the result of a method that has none: there is
nothing to pop. The checks of the account fail at the first call of these kinds and
nowhere else.
-/

namespace ClassCompiler

/-! ## Calls out of balance -/

namespace ThreeAddress.Instr

/-- Whether an instruction creates an object or takes a length, and takes the value for
no result. -/
def leavesResult : Instr → Bool
  | .call none site =>
      match site.invocation with
      | .new | .arrayLength => site.returnTy.isVoid
      | _ => false
  | _ => false

/-- Whether an instruction stores in a variable what a method without a result returns. -/
def lacksResult : Instr → Bool
  | .call (some dest) site =>
      match site.invocation with
      | .invoke _ => site.returnTy.isVoid && dest.varName?.isSome
      | _ => false
  | _ => false

end ThreeAddress.Instr

namespace StackCode

open Effects Emission
open ThreeAddress (Call Method Value)

/-! ## Movements of the account -/

/-- The errors of the account of the operand stack. -/
def IsDepthFault : CompileError → Prop
  | .stackUnderflow _ | .unbalancedStack _ _ _ => True
  | _ => False

/-- Results that are missing for other reasons than the account. -/
def FailsOtherwise {α : Type} (result : Except CompileError α) : Prop :=
  ∀ error, result = .error error → ¬ IsDepthFault error

/-- An emission takes the stack from one depth to another. If it is short of values then it
fails, and only then with an error of the account. -/
def Shifts {α : Type} (low high : Nat) (short : Bool) (action : Emission α) : Prop :=
  ∀ emitter, emitter.frame.depth = low →
    Outcome action emitter
      (fun _ after => short = false ∧ after.frame.depth = high ∧
        after.frame.method = emitter.frame.method)
      (fun error _ => IsDepthFault error →
        short = true ∧ error = .stackUnderflow emitter.frame.method)

variable {α β : Type} {low middle high : Nat} {short : Bool} {linkage : Linkage}

theorem FailsByType.failsOtherwise {result : Except CompileError α} (fails : FailsByType result) :
    FailsOtherwise result := by
  intro error failed isDepthFault
  have isTypeFault := fails error failed
  cases error with
  | stackUnderflow _ | unbalancedStack _ _ _ => exact isTypeFault
  | _ => exact isDepthFault

theorem failsOtherwise_invokeOwner (mode : ThreeAddress.InvokeMode) (target : Value)
    (method : String) : FailsOtherwise (invokeOwner linkage mode target method) := by
  by_cases isTarget : mode = .static → ∃ name, target = .classRef name
  · exact (failsByType_invokeOwner isTarget).failsOtherwise
  · rw [Classical.not_imp] at isTarget
    obtain ⟨rfl, notClass⟩ := isTarget
    cases target with
    | classRef name => exact absurd ⟨name, rfl⟩ notClass
    | _ =>
        intro error failed
        cases failed
        exact id

theorem shifts_pure (value : α) : Shifts low low false (pure value) :=
  fun _ depthEq => ⟨rfl, depthEq, rfl⟩

/-- Movements add up if the first is not short of values. -/
theorem Shifts.bind {action : Emission α} {next : α → Emission β}
    (first : Shifts low middle false action)
    (second : ∀ value, Shifts middle high short (next value)) :
    Shifts low high short (action >>= next) := by
  intro emitter depthEq
  apply Outcome.bind
  apply (first emitter depthEq).mono
  · rintro value between ⟨_, betweenEq, methodEq⟩
    rw [← methodEq]
    exact second value between betweenEq
  · intro error _ fault isDepthFault
    cases (fault isDepthFault).1

theorem shifts_throw {error : CompileError} (notDepthFault : ¬ IsDepthFault error) :
    Shifts low high short (throw error : Emission α) :=
  fun _ _ isDepthFault => absurd isDepthFault notDepthFault

theorem shifts_attempt {result : Except CompileError α} (fails : FailsOtherwise result) :
    Shifts low low false (attempt result) := by
  cases result with
  | ok value => exact shifts_pure value
  | error error => exact shifts_throw (fails error rfl)

theorem shifts_emit (instr : Instr) : Shifts low low false (emit instr) :=
  fun _ depthEq => ⟨rfl, depthEq, rfl⟩

theorem shifts_emitLabel (name : String) : Shifts low low false (emitLabel name) :=
  fun _ depthEq => ⟨rfl, depthEq, rfl⟩

theorem shifts_push (count : Nat) : Shifts low (low + count) false (push count) :=
  fun _ depthEq => ⟨rfl, congrArg (· + count) depthEq, rfl⟩

theorem shifts_takeComparison (kind : Comparison) :
    Shifts low low false (takeComparison kind) :=
  fun _ depthEq => ⟨rfl, depthEq, rfl⟩

/-- Values that are there are popped. -/
theorem shifts_pop (count : Nat) : Shifts (low + count) low false (pop count) := by
  rintro ⟨frame, counts⟩ depthEq
  have popped : frame.pop count = .ok { frame with depth := frame.depth - count } :=
    if_pos (depthEq ▸ Nat.le_add_left count low)
  change Outcome (attempt (frame.pop count) >>= _) _ _ _
  rw [popped]
  exact ⟨rfl, (congrArg (· - count) depthEq).trans (Nat.add_sub_cancel low count), rfl⟩

/-- Nothing is popped from an empty stack. -/
theorem shifts_pop_empty : Shifts 0 high true (pop 1) := by
  rintro ⟨frame, counts⟩ depthEq
  have failed : frame.pop 1 = .error (.stackUnderflow frame.method) :=
    if_neg (depthEq ▸ Nat.not_succ_le_zero 0)
  change Outcome (attempt (frame.pop 1) >>= _) _ _ _
  rw [failed]
  exact fun _ => ⟨rfl, rfl⟩

theorem shifts_slot (name : String) : Shifts low low false (Emission.slot name) := by
  rintro ⟨frame, counts⟩
  change _ → Outcome (attempt (frame.slot name)) _ _ _
  apply shifts_attempt
  intro error failed
  unfold Frame.slot at failed
  split at failed
  · cases failed
  · cases failed
    exact id

/-! ## Values -/

theorem shifts_emit_push (instr : Instr) : Shifts low (low + 1) false (do emit instr; push 1) :=
  (shifts_emit instr).bind fun _ => shifts_push 1

theorem shifts_loadVariable (name : String) (ty : Ty) :
    Shifts low (low + 1) false (do
      emit (← attempt (loadInstr ty (← Emission.slot name)))
      push 1) :=
  (shifts_slot name).bind fun slot =>
    (shifts_attempt (failsByType_loadInstr ty slot).failsOtherwise).bind shifts_emit_push

/-- A value is one more operand, however it is built. -/
theorem shifts_loadValue (value : Value) : Shifts low (low + 1) false (loadValue value) := by
  induction value generalizing low with
  | const constant => cases constant <;> exact shifts_emit_push _
  | self ty => exact shifts_emit_push _
  | temp name ty | var name ty => exact shifts_loadVariable name ty
  | classRef name => exact shifts_throw id
  | element array position ty loadsArray loadsPosition =>
      rw [loadValue]
      exact loadsArray.bind fun _ => loadsPosition.bind fun _ => (shifts_emit _).bind fun _ =>
        (shifts_pop 2).bind fun _ => shifts_push 1

theorem shifts_loadValues (values : List Value) :
    Shifts low (low + values.length) false (loadValues values) := by
  induction values generalizing low with
  | nil => exact shifts_pure ()
  | cons value rest ih =>
      rw [List.length_cons, Nat.add_comm rest.length, ← Nat.add_assoc]
      exact (shifts_loadValue value).bind fun _ => ih

/-- A store pops one value, and is short of it only if there is a variable to store it
in. -/
theorem shifts_storeValue (pops : Shifts low high short (pop 1)) (dest : Value) :
    Shifts low high (short && dest.varName?.isSome) (storeValue dest) := by
  have ofVariable (name : String) (ty : Ty) :
      Shifts low high (short && true) (do
        emit (← attempt (storeInstr ty (← Emission.slot name)))
        pop 1) := by
    rw [Bool.and_true]
    exact (shifts_slot name).bind fun slot =>
      (shifts_attempt (failsByType_storeInstr ty slot).failsOtherwise).bind fun instr =>
      (shifts_emit instr).bind fun _ => pops
  cases dest with
  | temp name ty | var name ty => exact ofVariable name ty
  | _ => exact shifts_throw id

/-- The last value on the stack is stored. -/
theorem shifts_storeLast (dest : Value) : Shifts 1 0 false (storeValue dest) :=
  shifts_storeValue (shifts_pop 1) dest

/-! ## Operations -/

theorem shifts_emitOperator (op : BinaryOp) :
    Shifts (low + 2) (low + 1) false (emitOperator op) := by
  cases op with
  | arith op | and => exact (shifts_emit _).bind fun _ => shifts_pop 1
  | compare kind =>
      exact (shifts_takeComparison kind).bind fun _ => (shifts_emit _).bind fun _ =>
        (shifts_pop 1).bind fun _ => (shifts_emit _).bind fun _ => (shifts_pop 1).bind fun _ =>
        (shifts_emit _).bind fun _ => (shifts_push 1).bind fun _ => (shifts_emit _).bind fun _ =>
        (shifts_emitLabel _).bind fun _ => (shifts_emit _).bind fun _ => shifts_emitLabel _

theorem shifts_emitBinary (dest : Value) (op : BinaryOp) (left right : Value) :
    Shifts 0 0 false (emitBinary dest op left right) := by
  unfold emitBinary
  split
  · exact (shifts_slot _).bind fun _ => shifts_emit _
  · exact (shifts_loadValue left).bind fun _ => (shifts_loadValue right).bind fun _ =>
      (shifts_emitOperator op).bind fun _ => shifts_storeLast dest

theorem shifts_emitAssign (dest value : Value) : Shifts 0 0 false (emitAssign dest value) := by
  have stores : Shifts 0 0 false (do loadValue value; storeValue dest) :=
    (shifts_loadValue value).bind fun _ => shifts_storeLast dest
  cases dest with
  | element array position ty =>
      exact (shifts_loadValue array).bind fun _ => (shifts_loadValue position).bind fun _ =>
        (shifts_loadValue value).bind fun _ => (shifts_emit _).bind fun _ => shifts_pop 3
  | _ => exact stores

/-! ## Calls -/

theorem shifts_emitInvoke (mode : ThreeAddress.InvokeMode) (site : Call) :
    Shifts 0 (if site.returnsValue then 1 else 0) false (emitInvoke linkage mode site) := by
  cases methodEq : site.method with
  | none =>
      rw [emitInvoke, methodEq]
      exact shifts_throw id
  | some method =>
      cases targetEq : site.target with
      | none =>
          rw [emitInvoke, methodEq, targetEq]
          exact shifts_throw id
      | some target =>
          rw [emitInvoke_eq targetEq methodEq]
          apply (shifts_attempt (failsOtherwise_invokeOwner mode target method)).bind
          intro owner
          apply (shifts_loadValues _).bind
          intro
          apply (shifts_attempt (failsByType_methodDescriptor _ _).failsOtherwise).bind
          intro descriptor
          apply (shifts_emit _).bind
          intro
          apply (shifts_pop _).bind
          intro
          split
          · exact shifts_push 1
          · exact shifts_pure ()

/-- A call leaves a value unless it is an invocation without a result. A new array of
nothing cannot be created. -/
theorem shifts_emitCall (site : Call) :
    Shifts 0 (if leavesValue site then 1 else 0) false (emitCall linkage site) := by
  obtain ⟨invocation, target, method, args, returnTy⟩ := site
  cases invocation with
  | invoke mode => exact shifts_emitInvoke mode _
  | new => exact shifts_emit_push _
  | newArray =>
      cases args with
      | nil => exact shifts_throw id
      | cons size rest =>
          exact (shifts_loadValue size).bind fun _ =>
            (shifts_attempt (failsByType_arrayElementOf returnTy).failsOtherwise).bind fun _ =>
            shifts_emit _
  | arrayLength =>
      cases target with
      | none => exact shifts_throw id
      | some array => exact (shifts_loadValue array).bind fun _ => shifts_emit _

/-- There are no arrays of nothing. -/
theorem shifts_voidArray {site : Call} (creates : site.invocation = .newArray)
    (isVoid : site.returnTy.isVoid = true) : Shifts 0 high short (emitCall linkage site) := by
  have noElement : arrayElementOf linkage site.returnTy = .error (.noDescriptor site.returnTy) := by
    rw [beq_iff_eq.mp isVoid]
    rfl
  rw [emitCall, creates]
  cases site.args with
  | nil => exact shifts_throw id
  | cons size rest =>
      apply (shifts_loadValue size).bind
      intro
      rw [noElement]
      exact shifts_throw id

/-- A stored call is in balance unless it is an invocation without a result. -/
theorem shifts_storedCall (method : Method) (dest : Value) (site : Call) :
    Shifts 0 0 (ThreeAddress.Instr.call (some dest) site).lacksResult
      (emitInstr linkage method (.call (some dest) site)) := by
  have calls : Shifts 0 (if leavesValue site then 1 else 0) false (emitCall linkage site) :=
    shifts_emitCall site
  obtain ⟨invocation, target, name, args, returnTy⟩ := site
  cases invocation with
  | invoke mode =>
      change Shifts 0 (if (!returnTy.isVoid) then 1 else 0) false _ at calls
      change Shifts 0 0 (returnTy.isVoid && dest.varName?.isSome) (emitCall linkage _ >>= _)
      cases isVoid : returnTy.isVoid with
      | true =>
          rw [isVoid] at calls
          exact calls.bind fun _ => shifts_storeValue shifts_pop_empty dest
      | false =>
          rw [isVoid] at calls
          exact calls.bind fun _ => shifts_storeLast dest
  | new | newArray | arrayLength => exact calls.bind fun _ => shifts_storeLast dest

/-- A result that is wanted by nobody is dropped. -/
theorem shifts_dropResult {site : Call} (returns : site.returnTy.isVoid = false) :
    Shifts 1 0 false (emitResult none site) := by
  rw [emitResult, Call.returnsValue, returns]
  exact (shifts_emit _).bind fun _ => shifts_pop 1

/-- Where there should be no result, none is dropped. -/
theorem shifts_noResult {site : Call} (isVoid : site.returnTy.isVoid = true) :
    Shifts low low false (emitResult none site) := by
  rw [emitResult, Call.returnsValue, isVoid]
  exact shifts_pure ()

/-- A call whose result is not stored is in balance unless the result is there and its type
says that it is not. -/
theorem shifts_unstoredCall (method : Method) (site : Call) :
    Shifts 0 (if (ThreeAddress.Instr.call none site).leavesResult then 1 else 0) false
      (emitInstr linkage method (.call none site)) := by
  have calls : Shifts 0 (if leavesValue site then 1 else 0) false (emitCall linkage site) :=
    shifts_emitCall site
  cases isVoid : site.returnTy.isVoid with
  | true =>
      cases invokes : site.invocation with
      | invoke mode =>
          rw [leavesValue, invokes, Call.returnsValue, isVoid] at calls
          rw [ThreeAddress.Instr.leavesResult, invokes]
          exact calls.bind fun _ => shifts_noResult isVoid
      | newArray => exact (shifts_voidArray invokes isVoid).bind fun _ => shifts_noResult isVoid
      | new | arrayLength =>
          rw [leavesValue, invokes] at calls
          rw [ThreeAddress.Instr.leavesResult, invokes, isVoid]
          exact calls.bind fun _ => shifts_noResult isVoid
  | false =>
      have leaves : leavesValue site = true := by
        cases invokes : site.invocation <;>
          simp [leavesValue, invokes, Call.returnsValue, isVoid]
      have inBalance : (ThreeAddress.Instr.call none site).leavesResult = false := by
        cases invokes : site.invocation <;>
          simp [ThreeAddress.Instr.leavesResult, invokes, isVoid]
      rw [leaves] at calls
      rw [inBalance]
      exact calls.bind fun _ => shifts_dropResult isVoid

/-! ## Instructions -/

/-- An instruction takes an empty stack to an empty stack, unless it is a call of one of the
two kinds. -/
theorem shifts_emitInstr (method : Method) (instr : ThreeAddress.Instr) :
    Shifts 0 (if instr.leavesResult then 1 else 0) instr.lacksResult
      (emitInstr linkage method instr) := by
  cases instr with
  | assign dest value => exact shifts_emitAssign dest value
  | binary dest op left right => exact shifts_emitBinary dest op left right
  | not dest operand =>
      exact (shifts_loadValue operand).bind fun _ => (shifts_emit _).bind fun _ =>
        (shifts_push 1).bind fun _ => (shifts_emit _).bind fun _ =>
        (shifts_pop 1).bind fun _ => shifts_storeLast dest
  | getField dest object field ty =>
      exact (shifts_loadValue object).bind fun _ =>
        (shifts_attempt (failsByType_ownerOf object).failsOtherwise).bind fun _ =>
        (shifts_attempt (failsByType_descriptor ty).failsOtherwise).bind fun _ =>
        (shifts_emit _).bind fun _ => shifts_storeLast dest
  | putField object field value =>
      exact (shifts_loadValue object).bind fun _ => (shifts_loadValue value).bind fun _ =>
        (shifts_attempt (failsByType_ownerOf object).failsOtherwise).bind fun _ =>
        (shifts_attempt (failsByType_descriptor value.ty).failsOtherwise).bind fun _ =>
        (shifts_emit _).bind fun _ => shifts_pop 2
  | call dest site =>
      cases dest with
      | some dest => exact shifts_storedCall method dest site
      | none => exact shifts_unstoredCall method site
  | ret value =>
      cases value with
      | none => exact shifts_emit _
      | some value =>
          rw [emitInstr]
          cases method.isMain with
          | true => exact shifts_emit _
          | false =>
              exact (shifts_loadValue value).bind fun _ =>
                (shifts_attempt (failsByType_returnInstr value.ty).failsOtherwise).bind fun _ =>
                (shifts_emit _).bind fun _ => shifts_pop 1
  | goto target => exact shifts_emit _
  | branch cond target =>
      exact (shifts_loadValue cond).bind fun _ => (shifts_emit _).bind fun _ => shifts_pop 1
  | label name => exact shifts_emitLabel name

/-! ## Methods -/

/-- An instruction that the account allows. -/
def InBalance (instr : ThreeAddress.Instr) : Prop :=
  instr.leavesResult = false ∧ instr.lacksResult = false

/-- The instruction at which the account of a body fails, and the error: the first one that
is out of balance. -/
inductive BodyFault (method : Method) (body : ThreeAddress.Code) : CompileError → Prop where
  | unbalanced {earlier later : ThreeAddress.Code} {instr : ThreeAddress.Instr}
      (bodyEq : body = earlier ++ instr :: later) (balanced : ∀ other ∈ earlier, InBalance other)
      (leaves : instr.leavesResult = true) :
      BodyFault method body (.unbalancedStack method.name instr.text 1)
  | underflow {earlier later : ThreeAddress.Code} {instr : ThreeAddress.Instr}
      (bodyEq : body = earlier ++ instr :: later) (balanced : ∀ other ∈ earlier, InBalance other)
      (lacks : instr.lacksResult = true) :
      BodyFault method body (.stackUnderflow method.name)

theorem BodyFault.cons {method : Method} {body : ThreeAddress.Code} {error : CompileError}
    {instr : ThreeAddress.Instr} (fault : BodyFault method body error)
    (inBalance : InBalance instr) : BodyFault method (instr :: body) error := by
  cases fault with
  | unbalanced bodyEq balanced leaves =>
      exact .unbalanced (bodyEq ▸ List.cons_append.symm)
        (List.forall_mem_cons.mpr ⟨inBalance, balanced⟩) leaves
  | underflow bodyEq balanced lacks =>
      exact .underflow (bodyEq ▸ List.cons_append.symm)
        (List.forall_mem_cons.mpr ⟨inBalance, balanced⟩) lacks

/-- A body has code only if all of it is in balance, and the account fails at its first
instruction that is not. -/
theorem outcome_emitBody {method : Method} (body : ThreeAddress.Code) {emitter : Emitter}
    (methodEq : emitter.frame.method = method.name) (empty : emitter.frame.depth = 0) :
    Outcome (emitBody linkage method body) emitter (fun _ _ => ∀ instr ∈ body, InBalance instr)
      (fun error _ => IsDepthFault error → BodyFault method body error) := by
  induction body generalizing emitter with
  | nil => exact List.forall_mem_nil _
  | cons instr rest ih =>
      apply Outcome.bind
      apply (shifts_emitInstr method instr emitter empty).mono
      · rintro _ ⟨frame, counts⟩ ⟨notShort, depthEq, sameMethod⟩
        apply Outcome.bind
        change Outcome (if frame.depth ≠ 0 then throw _ else emitBody linkage method rest)
          ⟨frame, counts⟩ _ _
        cases leaves : instr.leavesResult with
        | true =>
            rw [leaves] at depthEq
            change frame.depth = 1 at depthEq
            rw [depthEq]
            exact fun _ => .unbalanced (List.nil_append _).symm (List.forall_mem_nil _) leaves
        | false =>
            rw [leaves] at depthEq
            change frame.depth = 0 at depthEq
            rw [if_neg (not_not_intro depthEq)]
            have inBalance : InBalance instr := ⟨leaves, notShort⟩
            apply (ih (sameMethod.trans methodEq) depthEq).mono
            · intro _ _ balanced
              exact List.forall_mem_cons.mpr ⟨inBalance, balanced⟩
            · intro error _ fault isDepthFault
              exact (fault isDepthFault).cons inBalance
      · intro error _ fault isDepthFault
        obtain ⟨lacks, rfl⟩ := fault isDepthFault
        rw [methodEq]
        exact .underflow (List.nil_append _).symm (List.forall_mem_nil _) lacks

/-- A method has code only if its body is in balance, and the account fails at the first
instruction that is not. -/
theorem outcome_generateMethod (method : Method) (counts : ComparisonCounts) :
    Outcome (generateMethod linkage method) counts
      (fun _ _ => ∀ instr ∈ method.body, InBalance instr)
      (fun error _ => IsDepthFault error → BodyFault method method.body error) := by
  unfold Outcome generateMethod
  cases made : (Frame.ofMethod method : Except CompileError (Frame Instr)) with
  | error error =>
      rcases ofMethod_eq_error made with rfl | ⟨_, rfl, _⟩
      · exact False.elim
      · exact False.elim
  | ok frame =>
      obtain ⟨table, _, rfl⟩ := exists_holds_of_ofMethod made
      have outcome : Outcome (emitBody linkage method method.body) _ _ _ :=
        @outcome_emitBody linkage method method.body ⟨.ofSlots method.name table, counts⟩
          rfl rfl
      cases emitted : emitBody linkage method method.body
          ⟨.ofSlots method.name table, counts⟩ with
      | error error emitter =>
          simp only [emitted]
          exact outcome.of_error emitted
      | ok value emitter =>
          simp only [emitted]
          cases headed : headerOf linkage.paths method with
          | error error =>
              intro isDepthFault
              exact absurd isDepthFault ((failsByType_headerOf method).failsOtherwise error headed)
          | ok header => exact outcome.of_ok emitted

/-- The checks of the operand stack fail for calls out of balance, and for nothing else. An
instruction that is emitted leaves the stack empty, unless it is a call that leaves its
result; it is never emitted if it is a call that lacks its result, and only then is the
stack short of values. So a method with code has no such call, and a method whose stack is
not empty or is short of values has a first such call, of the one or the other kind. -/
theorem stack_checks_fail_for_unbalanced_calls (linkage : Linkage) (method : Method) :
    (∀ (instr : ThreeAddress.Instr) (emitter : Emitter), emitter.frame.depth = 0 →
      (∀ after, emitInstr linkage method instr emitter = .ok () after →
        instr.lacksResult = false ∧ after.frame.depth = if instr.leavesResult then 1 else 0) ∧
      ∀ name after, emitInstr linkage method instr emitter = .error (.stackUnderflow name) after →
        instr.lacksResult = true ∧ name = emitter.frame.method) ∧
    ∀ counts,
      (∀ code after, generateMethod linkage method counts = .ok code after →
        ∀ instr ∈ method.body, InBalance instr) ∧
      (∀ name text depth after,
        generateMethod linkage method counts = .error (.unbalancedStack name text depth) after →
        name = method.name ∧ depth = 1 ∧ ∃ earlier instr later,
          method.body = earlier ++ instr :: later ∧ (∀ other ∈ earlier, InBalance other) ∧
          instr.leavesResult = true ∧ text = instr.text) ∧
      ∀ name after, generateMethod linkage method counts = .error (.stackUnderflow name) after →
        name = method.name ∧ ∃ earlier instr later,
          method.body = earlier ++ instr :: later ∧ (∀ other ∈ earlier, InBalance other) ∧
          instr.lacksResult = true := by
  constructor
  · intro instr emitter empty
    have outcome : Outcome (emitInstr linkage method instr) emitter _ _ :=
      shifts_emitInstr method instr emitter empty
    constructor
    · intro after emitted
      obtain ⟨notShort, depthEq, _⟩ := outcome.of_ok emitted
      exact ⟨notShort, depthEq⟩
    · intro name after failed
      obtain ⟨lacks, errorEq⟩ := outcome.of_error failed trivial
      exact ⟨lacks, CompileError.stackUnderflow.inj errorEq⟩
  · intro counts
    have outcome : Outcome (generateMethod linkage method) counts _ _ :=
      outcome_generateMethod method counts
    refine ⟨fun code after generated => outcome.of_ok generated, ?_, ?_⟩
    · intro name text depth after failed
      cases outcome.of_error failed trivial with
      | unbalanced bodyEq balanced leaves =>
          exact ⟨rfl, rfl, _, _, _, bodyEq, balanced, leaves, rfl⟩
    · intro name after failed
      cases outcome.of_error failed trivial with
      | underflow bodyEq balanced lacks => exact ⟨rfl, _, _, _, bodyEq, balanced, lacks⟩

/-- An object that is created where nothing is to be the result. -/
def strayInstr : ThreeAddress.Instr :=
  .call none ⟨.new, some (.classRef "Clock"), none, [], Ty.void⟩

/-- A method that begins well and then leaves an object on the stack. -/
def strayMethod : Method where
  name := "stray"
  returnTy := Ty.void
  isStatic := true
  body := [.goto "start", .label "start", strayInstr, .ret none]

theorem stack_checks_fail_for_unbalanced_calls_stray :
    (∃ after, emitInstr default strayMethod strayInstr ⟨{ method := "stray", slots := ∅ }, {}⟩ =
        .ok () after ∧ strayInstr.lacksResult = false ∧ after.frame.depth = 1) ∧
    (∃ after, generateMethod default strayMethod {} =
        .error (.unbalancedStack "stray" strayInstr.text 1) after) ∧
    (∃ earlier instr later, strayMethod.body = earlier ++ instr :: later ∧
      (∀ other ∈ earlier, InBalance other) ∧ instr.leavesResult = true ∧
      strayInstr.text = instr.text) ∧
    (∃ after, generateMethod default clockKeepMethod {} = .error (.stackUnderflow "keep") after) ∧
    ∃ earlier instr later, clockKeepMethod.body = earlier ++ instr :: later ∧
      (∀ other ∈ earlier, InBalance other) ∧ instr.lacksResult = true := by
  obtain ⟨emitted, left⟩ : (∃ after, emitInstr default strayMethod strayInstr
        ⟨{ method := "stray", slots := ∅ }, {}⟩ = .ok () after) ∧
      ∃ after, generateMethod default strayMethod {} =
        .error (.unbalancedStack "stray" strayInstr.text 1) after := ⟨⟨_, rfl⟩, ⟨_, rfl⟩⟩
  have lacked : ∃ after, generateMethod default clockKeepMethod {} =
      .error (.stackUnderflow clockKeepMethod.name) after :=
    generateMethod_underflows (by decide) (by decide) rfl (by decide) (by decide) rfl
  obtain ⟨after, emitted⟩ := emitted
  obtain ⟨strayAfter, left⟩ := left
  obtain ⟨keepAfter, lacked⟩ := lacked
  obtain ⟨instrs, strays⟩ := stack_checks_fail_for_unbalanced_calls default strayMethod
  obtain ⟨_, keeps⟩ := stack_checks_fail_for_unbalanced_calls default clockKeepMethod
  refine ⟨⟨after, emitted, (instrs _ _ rfl).1 after emitted⟩, ⟨strayAfter, left⟩, ?_,
    ⟨keepAfter, lacked⟩, ?_⟩
  · exact ((strays {}).2.1 _ _ _ _ left).2.2
  · exact ((keeps {}).2.2 _ _ lacked).2

end StackCode

end ClassCompiler
