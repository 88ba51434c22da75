import ClassCompiler.Proofs.Emission.Values

/-!
# Emitting instructions

Emission from an empty operand stack succeeds with an empty stack exactly for the
instructions that have code, and emits that code. So a body is emitted exactly if
all its instructions have code.
-/

namespace ClassCompiler.StackCode

open Effects Emission
open ThreeAddress (Value Call Method)

/-! ## Descriptors and owners -/

theorem descriptor_eq_ok_iff (paths : ClassPaths) (ty : Ty) (descriptor : Descriptor) :
    paths.descriptor ty = .ok descriptor ↔
      Describable ty ∧ descriptor = paths.descriptorOf ty := by
  rw [ClassPaths.descriptor, ClassPaths.descriptorOf, Describable, @eq_comm _ descriptor]
  by_cases isArray : ty.isArray = true
  · by_cases isVoid : ty.name = "void" <;> simp [isArray, isVoid]
  · simp [isArray]

theorem paramDescriptor_eq_ok_iff (paths : ClassPaths) (ty : Ty) (descriptor : Descriptor) :
    paths.paramDescriptor ty = .ok descriptor ↔
      IsParameter ty ∧ descriptor = paths.descriptorOf ty := by
  rw [ClassPaths.paramDescriptor, IsParameter, and_assoc, ← descriptor_eq_ok_iff]
  cases ty.isVoid <;> simp

theorem mapM_paramDescriptor_eq_ok_iff (paths : ClassPaths) (tys : List Ty)
    (descriptors : List Descriptor) :
    tys.mapM paths.paramDescriptor = .ok descriptors ↔
      (∀ ty ∈ tys, IsParameter ty) ∧ descriptors = tys.map paths.descriptorOf := by
  induction tys generalizing descriptors with
  | nil => simp [pure, Except.pure, eq_comm]
  | cons ty rest ih =>
      simp only [List.mapM_cons, except_bind_eq_ok_iff, paramDescriptor_eq_ok_iff,
        ih, List.forall_mem_cons, List.map_cons]
      constructor
      · rintro ⟨_, ⟨isParameter, rfl⟩, _, ⟨allParameters, rfl⟩, same⟩
        cases same
        exact ⟨⟨isParameter, allParameters⟩, rfl⟩
      · rintro ⟨⟨isParameter, allParameters⟩, rfl⟩
        exact ⟨_, ⟨isParameter, rfl⟩, _, ⟨allParameters, rfl⟩, rfl⟩

theorem methodDescriptor_eq_ok_iff (paths : ClassPaths) (params : List Ty) (result : Ty)
    (descriptor : MethodDescriptor) :
    paths.methodDescriptor params result = .ok descriptor ↔
      ((∀ ty ∈ params, IsParameter ty) ∧ Describable result) ∧
        descriptor = paths.signatureOf params result := by
  simp only [ClassPaths.methodDescriptor, except_bind_eq_ok_iff, mapM_paramDescriptor_eq_ok_iff,
    descriptor_eq_ok_iff]
  constructor
  · rintro ⟨_, ⟨allParameters, rfl⟩, _, ⟨describable, rfl⟩, same⟩
    cases same
    exact ⟨⟨allParameters, describable⟩, rfl⟩
  · rintro ⟨⟨allParameters, describable⟩, rfl⟩
    exact ⟨_, ⟨allParameters, rfl⟩, _, ⟨describable, rfl⟩, rfl⟩

theorem ownerOf_eq_ok_iff (linkage : Linkage) (object : Value) (path : String) :
    ownerOf linkage object = .ok path ↔
      HasMembers object.ty ∧ path = linkage.paths.classPath object.ty.name := by
  rw [ownerOf, HasMembers, @eq_comm _ path]
  by_cases isArray : object.ty.isArray = true
  · simp [isArray]
  · by_cases isPrimitive : object.ty.isPrimitive = true
    · by_cases isString : object.ty.name = "String" <;> simp [isArray, isPrimitive, isString]
    · simp [isArray, isPrimitive]

theorem invokeOwner_eq_ok_iff (linkage : Linkage) (mode : ThreeAddress.InvokeMode) (target : Value)
    (method path : String) :
    invokeOwner linkage mode target method = .ok path ↔
      IsTarget mode target ∧ path = linkage.ownerOf mode target := by
  cases mode with
  | static => cases target <;> simp [invokeOwner, IsTarget, Linkage.ownerOf, eq_comm]
  | virtual => exact ownerOf_eq_ok_iff linkage target path
  | special =>
      cases target with
      | self ty => simp [invokeOwner, IsTarget, Linkage.ownerOf, eq_comm]
      | _ => exact ownerOf_eq_ok_iff linkage _ path

theorem isVoid_of_isIntLike {ty : Ty} (intLike : ty.isIntLike = true) : ty.isVoid = false := by
  rw [Ty.isIntLike, Bool.or_eq_true, Ty.isInt, Ty.isBoolean, beq_iff_eq, beq_iff_eq] at intLike
  rcases intLike with rfl | rfl <;> decide

theorem arrayElementOf_eq_ok_iff (linkage : Linkage) (arrayTy : Ty) (element : ArrayElement) :
    arrayElementOf linkage arrayTy = .ok element ↔
      arrayTy.element.isVoid = false ∧ element = linkage.elementOf arrayTy := by
  rw [arrayElementOf, Linkage.elementOf, @eq_comm _ element]
  by_cases isInt : arrayTy.element.isInt = true
  · have notVoid : arrayTy.element.isVoid = false :=
      isVoid_of_isIntLike (by simp [Ty.isIntLike, isInt])
    simp [isInt, notVoid]
  · by_cases isBoolean : arrayTy.element.isBoolean = true
    · have notVoid : arrayTy.element.isVoid = false :=
        isVoid_of_isIntLike (by simp [Ty.isIntLike, isBoolean])
      simp [isInt, isBoolean, notVoid]
    · cases arrayTy.element.isVoid <;> simp [isInt, isBoolean]

theorem returnInstr_eq_ok_iff (ty : Ty) (instr : Instr) :
    returnInstr ty = .ok instr ↔
      True ∧ instr = .ret (if ty.isVoid then none else some (valueCategory ty)) := by
  rw [returnInstr, categoryOf, valueCategory, @eq_comm _ instr, true_and]
  cases ty.isVoid <;> simp [bind, Except.bind, pure, Except.pure]

/-! ## Operations -/

section

variable {frame : Frame Instr} {names : List String} {counts : ComparisonCounts}

theorem succeeds_takeComparison (kind : Comparison) :
    Succeeds (takeComparison kind) ⟨frame, counts⟩ True (counts.next kind)
      ⟨frame, counts.skip kind⟩ := by
  intro found after
  rw [takeComparison, bind_of_ok (get_apply _), bind_of_ok (set_apply _ _), pure_apply,
    EStateM.Result.ok.injEq, true_and, @eq_comm _ found, @eq_comm _ after]

/-- A comparison is emitted exactly if there are two values to compare. -/
theorem succeeds_emitComparison (kind : Comparison) :
    Succeeds (emitComparison kind) ⟨frame, counts⟩ (2 ≤ frame.depth) ()
      ⟨frame.add (comparisonCode kind (counts.next kind)) (frame.depth - 1) (frame.depth - 1),
        counts.skip kind⟩ := by
  refine ((succeeds_takeComparison kind).bind ((succeeds_emit _).bind ((succeeds_pop 1).bind
    ((succeeds_emit _).bind ((succeeds_pop 1).bind ((succeeds_emit _).bind
    ((succeeds_push 1).bind ((succeeds_emit _).bind ((succeeds_emitLabel _).bind
    ((succeeds_emit _).bind (succeeds_emitLabel _))))))))))).congr ?_ fun enough => ?_
  · simp
    omega
  · simp only [Frame.add_add, Frame.depth_add]
    exact Emitter.add_congr rfl (by omega) (by omega)

theorem succeeds_emitOperator (enough : 2 ≤ frame.depth) (counted : frame.depth ≤ frame.maxDepth)
    (op : BinaryOp) :
    Succeeds (emitOperator op) ⟨frame, counts⟩ True ()
      ⟨frame.add (operatorCode counts op) (frame.depth - 1) 0, operatorCounts counts op⟩ := by
  have nonempty : 1 ≤ frame.depth := Nat.le_of_succ_le enough
  have single (instr : Instr) :
      Succeeds (do emit instr; pop 1) ⟨frame, counts⟩ True ()
        ⟨frame.add [.instr instr] (frame.depth - 1) 0, counts⟩ := by
    refine ((succeeds_emit instr).bind (succeeds_pop 1)).congr (by simpa using nonempty) fun _ => ?_
    rw [Frame.add_add]
    rfl
  cases op with
  | arith op => exact single (.arith op)
  | and => exact single .and
  | compare kind =>
      refine (succeeds_emitComparison kind).congr (iff_true_intro enough) fun _ => ?_
      rw [Frame.add_of_le (by omega)]
      rfl

/-! ## Calls -/

variable {linkage : Linkage}

/-- The receiver of an invocation is pushed as the first of its operands. -/
theorem emitInvoke_eq {call : Call} {target : Value} {method : String}
    (targetEq : call.target = some target) (methodEq : call.method = some method)
    (mode : ThreeAddress.InvokeMode) :
    emitInvoke linkage mode call = (do
      let owner ← attempt (invokeOwner linkage mode target method)
      loadValues (operandsOf mode target call.args)
      let descriptor ← attempt
        (linkage.paths.methodDescriptor (call.args.map Value.ty) call.returnTy)
      emit (.invoke mode owner method descriptor)
      pop (operandsOf mode target call.args).length
      if call.returnsValue then push 1) := by
  rw [emitInvoke, methodEq, targetEq]
  cases mode <;> simp [operandsOf, loadValues]

theorem succeeds_pushResult (returns : Bool) (empty : frame.depth = 0) :
    Succeeds (if returns then push 1 else Pure.pure ()) ⟨frame, counts⟩ True ()
      ⟨frame.add [] (if returns then 1 else 0) (if returns then 1 else 0), counts⟩ := by
  cases returns with
  | true =>
      refine (succeeds_push 1).congr Iff.rfl fun _ => ?_
      rw [empty]
      rfl
  | false =>
      refine (Succeeds.pure () _).congr Iff.rfl fun _ => ?_
      exact congrArg (Emitter.mk · counts) (Frame.add_nil empty (Nat.zero_le _)).symm

theorem succeeds_emitInvoke (gives : frame.Gives names) (empty : frame.depth = 0) (call : Call)
    {target : Value} {method : String} (targetEq : call.target = some target)
    (methodEq : call.method = some method) (mode : ThreeAddress.InvokeMode) :
    Succeeds (emitInvoke linkage mode call) ⟨frame, counts⟩
      (IsTarget mode target ∧
        (∀ value ∈ operandsOf mode target call.args, Loadable names value) ∧
        (∀ value ∈ call.args, IsParameter value.ty) ∧ Describable call.returnTy) ()
      ⟨frame.add (loadsCode names (operandsOf mode target call.args) ++
          [.instr (.invoke mode (linkage.ownerOf mode target) method
            (linkage.paths.signatureOf (call.args.map Value.ty) call.returnTy))])
        (if call.returnsValue then 1 else 0)
        (max (loadsHeight (operandsOf mode target call.args))
          (if call.returnsValue then 1 else 0)), counts⟩ := by
  rw [emitInvoke_eq targetEq methodEq]
  refine ((Succeeds.attempt (invokeOwner_eq_ok_iff linkage mode target method) _).bind
    ((succeeds_loadValues gives (empty ▸ Nat.zero_le _) _).bind
    ((Succeeds.attempt (methodDescriptor_eq_ok_iff linkage.paths _ _) _).bind
    ((succeeds_emit _).bind ((succeeds_pop _).bind
    (succeeds_pushResult call.returnsValue ?_)))))).congr ?_ fun _ => ?_
  · simp [Frame.loads, empty]
  · simp [Frame.loads, empty]
  · simp only [Frame.loads, Frame.add_add, Frame.depth_add]
    refine Emitter.add_congr (by simp) rfl ?_
    rw [empty, Nat.zero_add, Nat.max_zero, Nat.max_zero]

theorem succeeds_emitCall (gives : frame.Gives names) (empty : frame.depth = 0) (call : Call) :
    Succeeds (emitCall linkage call) ⟨frame, counts⟩ (Callable names call) ()
      ⟨frame.add (callCode linkage names call) (if leavesValue call then 1 else 0)
        (callHeight call), counts⟩ := by
  rcases call with ⟨invocation, target, method, args, returnTy⟩
  cases invocation with
  | new =>
      refine (succeeds_emit_push _).congr Iff.rfl fun _ => ?_
      rw [empty]
      rfl
  | newArray =>
      cases args with
      | nil => exact .throw id
      | cons size rest =>
          refine ((succeeds_loadValue gives size).bind
            ((Succeeds.attempt (arrayElementOf_eq_ok_iff linkage returnTy) _).bind
            (succeeds_emit _))).congr ?_ fun _ => ?_
          · rw [and_true]
            rfl
          · rw [Frame.load, Frame.add_add, empty, Nat.zero_add, Nat.zero_add, Nat.max_zero]
            rfl
  | arrayLength =>
      cases target with
      | none => exact .throw id
      | some array =>
          refine ((succeeds_loadValue gives array).bind (succeeds_emit _)).congr ?_ fun _ => ?_
          · rw [and_true]
            rfl
          · rw [Frame.load, Frame.add_add, empty, Nat.zero_add, Nat.zero_add, Nat.max_zero]
            rfl
  | invoke mode =>
      cases method with
      | none => cases target <;> exact .throw id
      | some method =>
          cases target with
          | none => exact .throw id
          | some target =>
              exact succeeds_emitInvoke gives empty
                ⟨.invoke mode, some target, some method, args, returnTy⟩ rfl rfl mode

theorem leavesValue_of_returnsValue {call : Call} (returns : call.returnsValue = true) :
    leavesValue call = true := by
  rw [leavesValue]
  cases call.invocation <;> simp [returns]

theorem succeeds_emitResult (gives : frame.Gives names) (dest : Option Value) {call : Call}
    (depthEq : frame.depth = if leavesValue call then 1 else 0) :
    Succeeds (emitResult dest call) ⟨frame, counts⟩ (Receivable names dest call) ()
      ⟨frame.add (resultCode names dest call) (leftOver (.call dest call)) 0, counts⟩ := by
  cases dest with
  | some dest =>
      refine (succeeds_storeValue gives dest).congr ?_ fun receivable => ?_
      · cases leaves : leavesValue call <;> simp [depthEq, leaves, Receivable]
      · refine Emitter.add_congr rfl ?_ rfl
        simp [depthEq, receivable.1, leftOver]
  | none =>
      cases returns : call.returnsValue with
      | true =>
          have leaves := leavesValue_of_returnsValue returns
          simp only [emitResult, returns, if_true]
          refine ((succeeds_emit .pop).bind (succeeds_pop 1)).congr ?_ fun _ => ?_
          · simp [depthEq, leaves, Receivable]
          · rw [Frame.add_add]
            simp [resultCode, returns, depthEq, leaves, leftOver]
      | false =>
          simp only [emitResult, returns]
          refine (Succeeds.pure () _).congr Iff.rfl fun _ => ?_
          refine congrArg (Emitter.mk · counts) ?_
          simp only [resultCode, returns]
          exact (Frame.add_nil (by simp [depthEq, leftOver, returns]) (Nat.zero_le _)).symm

/-! ## Instructions -/

theorem operatorCounts_of_increment? {dest left right : Value} {op : BinaryOp}
    {increment : String × Int8} (found : increment? dest op left right = some increment) :
    operatorCounts counts op = counts := by
  rcases exists_arith_of_increment? found with ⟨arith, rfl⟩
  rfl

theorem succeeds_emitBinary (gives : frame.Gives names) (empty : frame.depth = 0) (dest : Value)
    (op : BinaryOp) (left right : Value) (isMain : Bool) :
    Succeeds (emitBinary dest op left right) ⟨frame, counts⟩
      (HasCode isMain names (.binary dest op left right)) ()
      ⟨frame.add (instrCode linkage isMain names counts (.binary dest op left right)) 0
        (instrHeight isMain (.binary dest op left right)), operatorCounts counts op⟩ := by
  rw [emitBinary, HasCode, instrCode, instrHeight]
  cases found : increment? dest op left right with
  | some increment =>
      rcases increment with ⟨name, delta⟩
      rw [operatorCounts_of_increment? found]
      refine ((succeeds_slot gives name).bind (succeeds_emit _)).congr (and_iff_left trivial)
        fun _ => ?_
      rw [empty]
      rfl
  | none =>
      have pushed : (do loadValue left; loadValue right; emitOperator op; storeValue dest) =
          (do loadValues [left, right]; emitOperator op; storeValue dest) := by
        simp [loadValues]
      have depthEq := Frame.depth_loads empty names [left, right]
      have counted : (frame.loads names [left, right]).depth ≤ _ :=
        depthEq ▸ frame.length_le_maxDepth_loads names [left, right]
      simp only [pushed]
      refine ((succeeds_loadValues gives (empty ▸ Nat.zero_le _) _).bind
        ((succeeds_emitOperator (Nat.le_of_eq depthEq.symm) counted op).bind
        (succeeds_storeValue ((gives.loads _).add _ _ _) dest))).congr ?_ fun _ => ?_
      · simp [depthEq, and_assoc]
      · rw [Frame.depth_add, depthEq, Frame.loads, Frame.add_add, Frame.add_add]
        refine Emitter.add_congr (List.append_assoc _ _ _).symm rfl ?_
        simp [empty]

theorem succeeds_loadStore (gives : frame.Gives names) (empty : frame.depth = 0)
    (dest value : Value) :
    Succeeds (do loadValue value; storeValue dest) ⟨frame, counts⟩
      (Loadable names value ∧ Storable names dest) ()
      ⟨frame.add (loadCode names value ++ storeCode names dest) 0 (loadHeight value), counts⟩ := by
  refine ((succeeds_loadValue gives value).bind
    (succeeds_storeValue (gives.load value) dest)).congr ?_ fun _ => ?_
  · simp [Frame.load]
  · rw [Frame.load, Frame.add_add, Frame.depth_add, empty, Nat.zero_add, Nat.zero_add, Nat.max_zero]

theorem succeeds_emitAssign (gives : frame.Gives names) (empty : frame.depth = 0)
    (dest value : Value) (isMain : Bool) :
    Succeeds (emitAssign dest value) ⟨frame, counts⟩ (HasCode isMain names (.assign dest value)) ()
      ⟨frame.add (instrCode linkage isMain names counts (.assign dest value)) 0
        (instrHeight isMain (.assign dest value)), counts⟩ := by
  cases dest with
  | element array position ty =>
      have pushed : emitAssign (.element array position ty) value =
          (do loadValues [array, position, value]; emit (.arrayStore (elementKindOf ty)); pop 3) := by
        simp [emitAssign, loadValues]
      rw [pushed]
      refine ((succeeds_loadValues gives (empty ▸ Nat.zero_le _) _).bind ((succeeds_emit _).bind
        (succeeds_pop 3))).congr ?_ fun _ => ?_
      · simp [Frame.depth_loads empty, HasCode]
      · rw [Frame.add_add, Frame.depth_add, Frame.depth_loads empty, Frame.loads, Frame.add_add,
          empty, Nat.zero_add]
        refine Emitter.add_congr ?_ rfl (Nat.max_zero _)
        simp [instrCode]
  | _ => exact succeeds_loadStore gives empty _ value

/-- An instruction is emitted from an empty stack exactly if it has code. -/
theorem succeeds_emitInstr (gives : frame.Gives names) (empty : frame.depth = 0) (method : Method)
    (instr : ThreeAddress.Instr) :
    Succeeds (emitInstr linkage method instr) ⟨frame, counts⟩ (HasCode method.isMain names instr) ()
      ⟨frame.add (instrCode linkage method.isMain names counts instr) (leftOver instr)
        (instrHeight method.isMain instr), instrCounts counts instr⟩ := by
  cases instr with
  | assign dest value => exact succeeds_emitAssign gives empty dest value _
  | binary dest op left right => exact succeeds_emitBinary gives empty dest op left right _
  | not dest operand =>
      refine ((succeeds_loadValue gives operand).bind ((succeeds_emit _).bind
        ((succeeds_push 1).bind ((succeeds_emit _).bind ((succeeds_pop 1).bind
        (succeeds_storeValue (((((gives.load operand).add _ _ _).add _ _ _).add _ _ _).add _ _ _)
          dest)))))).congr ?_ fun _ => ?_
      · simp [Frame.load, HasCode]
      · simp only [Frame.load, Frame.add_add, Frame.depth_add, empty]
        exact Emitter.add_congr (by simp [instrCode]) rfl (by rw [instrHeight]; omega)
  | getField dest object field ty =>
      refine ((succeeds_loadValue gives object).bind
        ((Succeeds.attempt (ownerOf_eq_ok_iff linkage object) _).bind
        ((Succeeds.attempt (descriptor_eq_ok_iff linkage.paths ty) _).bind
        ((succeeds_emit _).bind (succeeds_storeValue ((gives.load object).add _ _ _)
          dest))))).congr ?_ fun _ => ?_
      · simp [Frame.load, HasCode]
      · simp only [Frame.load, Frame.add_add, Frame.depth_add, empty]
        exact Emitter.add_congr (by simp [instrCode]) rfl (by rw [instrHeight]; omega)
  | putField object field value =>
      have pushed : emitInstr linkage method (.putField object field value) = (do
          loadValues [object, value]
          let owner ← attempt (ownerOf linkage object)
          emit (.putField owner field (← attempt (linkage.paths.descriptor value.ty)))
          pop 2) := by
        simp [emitInstr, loadValues]
      rw [pushed]
      refine ((succeeds_loadValues gives (empty ▸ Nat.zero_le _) _).bind
        ((Succeeds.attempt (ownerOf_eq_ok_iff linkage object) _).bind
        ((Succeeds.attempt (descriptor_eq_ok_iff linkage.paths value.ty) _).bind
        ((succeeds_emit _).bind (succeeds_pop 2))))).congr ?_ fun _ => ?_
      · simp [Frame.depth_loads empty, HasCode, and_assoc]
      · rw [Frame.add_add, Frame.depth_add, Frame.depth_loads empty, Frame.loads, Frame.add_add,
          empty]
        exact Emitter.add_congr (by simp [instrCode]) rfl (by rw [instrHeight]; omega)
  | call dest call =>
      refine ((succeeds_emitCall gives empty call).bind
        (succeeds_emitResult (gives.add _ _ _) dest rfl)).congr Iff.rfl fun _ => ?_
      rw [Frame.add_add]
      exact Emitter.add_congr rfl rfl (Nat.max_zero _)
  | ret value =>
      cases value with
      | none =>
          refine (succeeds_emit _).congr Iff.rfl fun _ => ?_
          exact Emitter.add_congr rfl empty rfl
      | some value =>
          rw [emitInstr, HasCode, instrCode, instrHeight]
          cases isMain : method.isMain with
          | true =>
              refine (succeeds_emit _).congr (by simp) fun _ => ?_
              exact Emitter.add_congr rfl empty rfl
          | false =>
              refine ((succeeds_loadValue gives value).bind
                ((Succeeds.attempt (returnInstr_eq_ok_iff value.ty) _).bind
                ((succeeds_emit _).bind (succeeds_pop 1)))).congr ?_ fun _ => ?_
              · simp [Frame.load]
              · simp only [Frame.load, Frame.add_add, Frame.depth_add, empty]
                exact Emitter.add_congr (by simp) rfl (by simp)
  | goto target =>
      refine (succeeds_emit _).congr Iff.rfl fun _ => ?_
      exact Emitter.add_congr rfl empty rfl
  | branch cond target =>
      refine ((succeeds_loadValue gives cond).bind ((succeeds_emit _).bind
        (succeeds_pop 1))).congr ?_ fun _ => ?_
      · simp [Frame.load, HasCode]
      · simp only [Frame.load, Frame.add_add, Frame.depth_add, empty]
        exact Emitter.add_congr (by simp [instrCode]) rfl (by rw [instrHeight]; omega)
  | label name =>
      refine (succeeds_emitLabel _).congr Iff.rfl fun _ => ?_
      exact Emitter.add_congr rfl empty rfl

end

end ClassCompiler.StackCode
