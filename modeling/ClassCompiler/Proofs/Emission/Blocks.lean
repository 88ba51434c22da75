import ClassCompiler.Proofs.Emission.Operations

/-!
# Code of instructions

The code of an instruction pushes its operands, operates on them, and stores the
result, and so realizes the effect of the instruction from an empty stack to an
empty stack. This holds for every instruction with code that is no jump, label or
return.
-/

namespace ClassCompiler.StackCode

open Semantics Effects
open ThreeAddress (Value Call InvokeMode)

/-- The values that an instruction names, its destination included. -/
def valuesOf : ThreeAddress.Instr → List Value
  | .assign dest value => [dest, value]
  | .binary dest _ left right => [dest, left, right]
  | .not dest operand => [dest, operand]
  | .getField dest object _ _ => [dest, object]
  | .putField object _ value => [object, value]
  | .call dest call => dest.toList ++ call.target.toList ++ call.args
  | .ret value => value.toList
  | .branch cond _ => [cond]
  | .goto _ | .label _ => []

/-- The operands of an instruction that is emitted as an increment are integers. -/
def HasIntegerIncrement : ThreeAddress.Instr → Prop
  | .binary dest op left right => (increment? dest op left right).isSome = true →
      left.ty.isIntLike = true ∧ right.ty.isIntLike = true
  | _ => True

/-! ## Calls -/

/-- A target on which a method can be invoked has an owner, and the instruction
names it. -/
theorem exists_owner_of_isTarget {mode : InvokeMode} {target : Value}
    (isTarget : IsTarget mode target) (linkage : Linkage) :
    ∃ owner, ThreeAddress.ownerOf mode target = .ok owner ∧ linkMode owner = mode ∧
      linkPath linkage owner = linkage.ownerOf mode target := by
  cases mode with
  | static =>
      rcases isTarget with ⟨name, rfl⟩
      exact ⟨_, rfl, rfl, rfl⟩
  | virtual => exact ⟨_, rfl, rfl, rfl⟩
  | special => cases target <;> exact ⟨_, rfl, rfl, rfl⟩

theorem length_of_readAll {world : World Word} {checked : Bool} {state : State Word}
    {operands : List Value} {values : List (Val Word)}
    (readEq : ThreeAddress.readAll world checked state operands = .ok values) :
    values.length = operands.length := by
  induction operands generalizing values with
  | nil =>
      cases readEq
      rfl
  | cons operand rest ih =>
      rcases except_bind_eq_ok_iff.mp readEq with ⟨value, _, restEq⟩
      rcases except_bind_eq_ok_iff.mp restEq with ⟨restValues, readRest, valuesEq⟩
      cases valuesEq
      rw [List.length_cons, List.length_cons, ih readRest]

namespace Host

variable {host : Host} {code : Lines} {before : List (Val Word)}

/-- A value that is left on the stack is the result of a call. -/
theorem Realizes.returnSome {action : Action (State Word) (Val Word)}
    (realizes : host.Realizes code before action fun value => [value]) :
    host.Realizes code before (do return some (← action)) fun result => result.toList := by
  have withReturn := realizes.bind fun value =>
    Realizes.pure (some value) (rfl : (some value).toList = [value])
  rwa [List.append_nil] at withReturn

/-- The code that pushes the receiver of a call. -/
def receiverCode (host : Host) (mode : InvokeMode) (target : Value) : Lines :=
  if mode = .static then [] else loadCode host.names target

theorem loadsCode_operandsOf (mode : InvokeMode) (target : Value) (args : List Value) :
    loadsCode host.names (operandsOf mode target args) =
      host.receiverCode mode target ++ loadsCode host.names args := by
  rw [operandsOf, receiverCode]
  split
  · rfl
  · rfl

theorem realizes_receiverCode {mode : InvokeMode} {target : Value}
    (loadable : mode ≠ .static → Loadable host.names target)
    (respects : RespectsSelf host.method.isStatic target) :
    host.Realizes (host.receiverCode mode target) []
      (ThreeAddress.fetchReceiver host.world host.checked mode target)
      fun receiver => receiver.toList := by
  rw [receiverCode, ThreeAddress.fetchReceiver]
  by_cases isStatic : mode = .static
  · rw [if_pos isStatic, if_pos isStatic]
    exact .pure none rfl
  · rw [if_neg isStatic, if_neg isStatic]
    exact (realizes_loadCode (loadable isStatic) respects).returnSome

/-- A call has a receiver unless it is static. -/
theorem isNone_of_fetchReceiver {mode : InvokeMode} {target : Value} {state last : State Word}
    {receiver : Option (Val Word)}
    (fetched : ThreeAddress.fetchReceiver host.world host.checked mode target state =
      .ok receiver last) :
    receiver.isNone = decide (mode = .static) := by
  rw [ThreeAddress.fetchReceiver] at fetched
  by_cases isStatic : mode = .static
  · rw [if_pos isStatic] at fetched
    cases fetched
    simp [isStatic]
  · rw [if_neg isStatic] at fetched
    rcases bind_eq_ok_iff.mp fetched with ⟨value, middle, _, returned⟩
    cases returned
    simp [isStatic]

/-- The code of an invocation realizes it. -/
theorem realizes_invocation {mode : InvokeMode} {target : Value} {args : List Value}
    (isTarget : IsTarget mode target)
    (loadable : ∀ value ∈ operandsOf mode target args, Loadable host.names value)
    (respectsTarget : RespectsSelf host.method.isStatic target)
    (respectsArgs : ∀ value ∈ args, RespectsSelf host.method.isStatic value) (method : String)
    (returnTy : Ty) :
    host.Realizes
      (loadsCode host.names (operandsOf mode target args) ++
        [.instr (.invoke mode (host.linkage.ownerOf mode target) method
          (host.linkage.paths.signatureOf (args.map Value.ty) returnTy))])
      [] (ThreeAddress.performInvoke host.world host.checked mode target method args returnTy)
      fun result => result.toList := by
  rcases exists_owner_of_isTarget isTarget host.linkage with ⟨owner, ownerEq, modeEq, pathEq⟩
  have loadableTarget : mode ≠ .static → Loadable host.names target := by
    intro notStatic
    exact loadable target (by simp [operandsOf, notStatic])
  have loadableArgs : ∀ value ∈ args, Loadable host.names value := by
    intro value member
    refine loadable value ?_
    rw [operandsOf]
    split
    · exact member
    · exact List.mem_cons_of_mem target member
  rw [loadsCode_operandsOf, List.append_assoc, ThreeAddress.performInvoke, ownerEq]
  apply (realizes_receiverCode loadableTarget respectsTarget).bind_of_ok
  rintro receiver ⟨_, _, fetched⟩
  apply ((realizes_loadsCode loadableArgs respectsArgs).above receiver.toList).bind_of_ok
  rintro values ⟨state, last, readEq⟩
  have hasReceiver := isNone_of_fetchReceiver fetched
  rw [← pathEq]
  rw [← modeEq] at hasReceiver ⊢
  refine realizes_invoke method (args.map Value.ty) returnTy ?_ hasReceiver
  rw [List.length_map]
  rw [fetchAll, reading_apply] at readEq
  cases result : ThreeAddress.readAll host.world host.checked state args with
  | error reason =>
      rw [result] at readEq
      cases readEq
  | ok found =>
      rw [result] at readEq
      cases readEq
      exact length_of_readAll result

/-- An invocation has a result unless its type is `void`. -/
theorem isSome_of_performInvoke {mode : InvokeMode} {target : Value} {method : String}
    {args : List Value} {returnTy : Ty} {state last : State Word} {result : Option (Val Word)}
    (performed : ThreeAddress.performInvoke host.world host.checked mode target method args returnTy
      state = .ok result last) :
    result.isSome = !returnTy.isVoid := by
  rcases bind_eq_ok_iff.mp performed with ⟨owner, _, _, received⟩
  rcases bind_eq_ok_iff.mp received with ⟨receiver, _, _, got⟩
  rcases bind_eq_ok_iff.mp got with ⟨_, _, _, valued⟩
  rcases bind_eq_ok_iff.mp valued with ⟨values, _, _, accepted⟩
  rcases bind_eq_ok_iff.mp accepted with ⟨_, _, _, acceptedReceiver⟩
  rcases bind_eq_ok_iff.mp acceptedReceiver with ⟨_, middle, _, invoked⟩
  simp only [onMemory, invoke, consult, Answer.conclude, resultStorage] at invoked
  cases returns : (host.world.answer (middle.memory.trace ++
      [⟨owner, method, args.map Value.ty, returnTy, receiver, values⟩]) middle.memory.heap).returns with
  | false => simp [returns] at invoked
  | true =>
      simp only [returns, if_true, EStateM.Result.ok.injEq] at invoked
      rw [← invoked.1]
      cases returnTy.isVoid <;> rfl

/-- A call leaves a value exactly if its code does. -/
theorem isSome_of_perform {call : Call} {state last : State Word} {result : Option (Val Word)}
    (performed : call.perform host.world host.checked state = .ok result last) :
    result.isSome = leavesValue call := by
  rcases call with ⟨invocation, target, method, args, returnTy⟩
  cases invocation with
  | new =>
      rcases bind_eq_ok_iff.mp performed with ⟨value, middle, _, returned⟩
      cases returned
      rfl
  | newArray =>
      cases args with
      | nil => cases performed
      | cons size rest =>
          rcases bind_eq_ok_iff.mp performed with ⟨_, _, _, created⟩
          rcases bind_eq_ok_iff.mp created with ⟨_, _, _, returned⟩
          cases returned
          rfl
  | arrayLength =>
      cases target with
      | none => cases performed
      | some array =>
          rcases bind_eq_ok_iff.mp performed with ⟨_, _, _, measured⟩
          rcases bind_eq_ok_iff.mp measured with ⟨_, _, _, measured⟩
          rcases bind_eq_ok_iff.mp measured with ⟨_, _, _, returned⟩
          cases returned
          rfl
  | invoke mode =>
      cases method with
      | none => cases performed
      | some method =>
          cases target with
          | none => cases performed
          | some target => exact isSome_of_performInvoke performed

/-- The code of a call realizes it. -/
theorem realizes_callCode {call : Call} (callable : Callable host.names call)
    (respectsTarget : ∀ value ∈ call.target, RespectsSelf host.method.isStatic value)
    (respectsArgs : ∀ value ∈ call.args, RespectsSelf host.method.isStatic value) :
    host.Realizes (callCode host.linkage host.names call) []
      (call.perform host.world host.checked) fun result => result.toList := by
  rcases call with ⟨invocation, target, method, args, returnTy⟩
  cases invocation with
  | new => exact (realizes_new _).returnSome
  | newArray =>
      cases args with
      | nil => exact callable.elim
      | cons size rest =>
          exact (realizes_loadCode callable.1 (respectsArgs size List.mem_cons_self)).bind
            fun size => (realizes_newArray returnTy size).returnSome
  | arrayLength =>
      cases target with
      | none => exact callable.elim
      | some array =>
          exact (realizes_loadCode callable (respectsTarget array rfl)).bind
            fun array => (realizes_arrayLength array).returnSome
  | invoke mode =>
      cases target with
      | none => exact callable.elim
      | some target =>
          cases method with
          | none => exact callable.elim
          | some method =>
              exact realizes_invocation callable.1 callable.2.1 (respectsTarget target rfl)
                respectsArgs method returnTy

/-- The code that stores or drops the result of a call realizes it. -/
theorem realizes_resultCode {dest : Option Value} {call : Call}
    (receivable : Receivable host.names dest call) (dropped : leftOver (.call dest call) = 0)
    (respects : ∀ value ∈ dest, RespectsSelf host.method.isStatic value)
    {result : Option (Val Word)} (isSome : result.isSome = leavesValue call) :
    host.Realizes (resultCode host.names dest call) result.toList
      (ThreeAddress.writeResult host.checked dest result) fun _ => [] := by
  cases dest with
  | some dest =>
      rcases Option.isSome_iff_exists.mp (isSome.trans receivable.1) with ⟨value, rfl⟩
      exact realizes_storeCode receivable.2 (respects dest rfl) value
  | none =>
      have returnsEq : call.returnsValue = result.isSome := by
        rw [isSome]
        cases leaves : leavesValue call with
        | true =>
            by_contra notReturns
            simp [leftOver, leaves, notReturns] at dropped
        | false =>
            unfold leavesValue at leaves
            split at leaves
            · exact leaves
            · cases leaves
      rw [resultCode, returnsEq]
      cases result with
      | none => exact .pure () rfl
      | some value => exact realizes_pop value

/-! ## Instructions -/

/-- Comparison labels stand in the lines at most once. -/
def HasComparisonsOnce (host : Host) : Prop :=
  ∀ name, IsComparisonLabel name → (lineLabels host.lines).count name ≤ 1

/-- The code of an operator realizes it. -/
theorem realizes_operatorCode (once : host.HasComparisonsOnce) (counts : ComparisonCounts)
    (op : BinaryOp) (left right : Val Word) :
    host.Realizes (operatorCode counts op) [right, left] (attempt (Val.binary op left right))
      fun value => [value] := by
  cases op with
  | arith op => exact realizes_arith op left right
  | and => exact realizes_and left right
  | compare kind =>
      exact realizes_comparisonCode (once _ ⟨kind, _, .inl rfl⟩) (once _ ⟨kind, _, .inr rfl⟩)
        left right

/-- The code that pushes two operands realizes reading one after the other. -/
theorem realizes_loadPair {first second : Value} (firstLoads : Loadable host.names first)
    (secondLoads : Loadable host.names second)
    (firstRespects : RespectsSelf host.method.isStatic first)
    (secondRespects : RespectsSelf host.method.isStatic second) {α : Type} {code : Lines}
    {next : Val Word → Val Word → Action (State Word) α} {after : α → List (Val Word)}
    (continues : ∀ left right, host.Realizes code [right, left] (next left right) after) :
    host.Realizes (loadsCode host.names [first, second] ++ code) []
      (do
        let left ← first.fetch host.world host.checked
        let right ← second.fetch host.world host.checked
        next left right)
      after := by
  simp only [loadsCode, List.flatMap_cons, List.flatMap_nil, List.append_nil, List.append_assoc]
  exact (realizes_loadCode firstLoads firstRespects).bind fun left =>
    ((realizes_loadCode secondLoads secondRespects).above [left]).bind fun right =>
      continues left right

theorem realizes_binary {dest left right : Value} {op : BinaryOp}
    (once : host.HasComparisonsOnce) (counts : ComparisonCounts)
    (hasCode : HasCode host.method.isMain host.names (.binary dest op left right))
    (respects : ∀ value ∈ [dest, left, right], RespectsSelf host.method.isStatic value)
    (integers : host.checked = true → HasIntegerIncrement (.binary dest op left right)) :
    host.Realizes
      (instrCode host.linkage host.method.isMain host.names counts (.binary dest op left right)) []
      ((ThreeAddress.Instr.binary dest op left right).effect host.world host.checked)
      fun _ => [] := by
  simp only [List.forall_mem_cons] at respects
  rcases respects with ⟨destRespects, leftRespects, rightRespects, _⟩
  simp only [instrCode]
  simp only [HasCode] at hasCode
  cases found : increment? dest op left right with
  | some increment =>
      rcases increment with ⟨name, delta⟩
      rw [found] at hasCode
      have nameRespects : host.method.isStatic = true ∨ name ≠ "this" := by
        have destName := (increment?_eq_some found).1
        cases dest <;> cases destName <;> exact destRespects
      refine realizes_increment found hasCode nameRespects fun checked => ?_
      exact integers checked (by rw [found]; rfl)
  | none =>
      rw [found] at hasCode
      simp only [List.append_assoc]
      exact realizes_loadPair hasCode.1 hasCode.2.1 leftRespects rightRespects fun first second =>
        (realizes_operatorCode once counts op first second).bind fun result =>
          realizes_storeCode hasCode.2.2 destRespects result

theorem realizes_assign {dest value : Value} (counts : ComparisonCounts)
    (hasCode : HasCode host.method.isMain host.names (.assign dest value))
    (respects : ∀ operand ∈ [dest, value], RespectsSelf host.method.isStatic operand) :
    host.Realizes
      (instrCode host.linkage host.method.isMain host.names counts (.assign dest value)) []
      ((ThreeAddress.Instr.assign dest value).effect host.world host.checked) fun _ => [] := by
  simp only [List.forall_mem_cons] at respects
  rcases respects with ⟨destRespects, valueRespects, _⟩
  have variableCase (loads : Loadable host.names value) (stores : Storable host.names dest) :
      host.Realizes (loadCode host.names value ++ storeCode host.names dest) []
        (value.fetch host.world host.checked >>= fun value => dest.write host.checked value)
        fun _ => [] :=
    (realizes_loadCode loads valueRespects).bind fun result =>
      realizes_storeCode stores destRespects result
  cases dest with
  | element array position ty =>
      have codeEq : instrCode host.linkage host.method.isMain host.names counts
          (.assign (.element array position ty) value) =
          loadsCode host.names [array, position] ++
            (loadCode host.names value ++ [.instr (.arrayStore (elementKindOf ty))]) := by
        simp [instrCode, loadsCode]
      rw [codeEq]
      exact realizes_loadPair hasCode.1 hasCode.2.1 destRespects.1 destRespects.2
        fun array position =>
          ((realizes_loadCode hasCode.2.2 valueRespects).above [position, array]).bind fun value =>
            realizes_arrayStore ty array position value
  | temp name ty | var name ty => exact variableCase hasCode.1 hasCode.2
  | const | self | classRef => exact hasCode.2.elim

/-- The code of an instruction realizes its effect. -/
theorem realizes_instrCode {instr : ThreeAddress.Instr} (straight : instr.IsStraight)
    (once : host.HasComparisonsOnce) (counts : ComparisonCounts)
    (emittable : Emittable host.method.isMain host.names instr)
    (respects : ∀ value ∈ valuesOf instr, RespectsSelf host.method.isStatic value)
    (integers : host.checked = true → HasIntegerIncrement instr) :
    host.Realizes (instrCode host.linkage host.method.isMain host.names counts instr) []
      (instr.effect host.world host.checked) fun _ => [] := by
  rcases emittable with ⟨hasCode, dropped⟩
  cases instr with
  | assign dest value => exact realizes_assign counts hasCode respects
  | binary dest op left right => exact realizes_binary once counts hasCode respects integers
  | not dest operand =>
      simp only [valuesOf, List.forall_mem_cons] at respects
      rw [instrCode, List.append_assoc]
      exact (realizes_loadCode hasCode.1 respects.2.1).bind fun value =>
        (realizes_not value).bind fun result => realizes_storeCode hasCode.2 respects.1 result
  | getField dest object field ty =>
      simp only [valuesOf, List.forall_mem_cons] at respects
      rw [instrCode, List.append_assoc]
      exact (realizes_loadCode hasCode.1 respects.2.1).bind fun object =>
        (realizes_getField _ field ty object).bind fun result =>
          realizes_storeCode hasCode.2.2.2 respects.1 result
  | putField object field value =>
      simp only [valuesOf, List.forall_mem_cons] at respects
      exact realizes_loadPair hasCode.1 hasCode.2.1 respects.1 respects.2.1 fun object stored =>
        realizes_putField _ field value.ty object stored
  | call dest call =>
      simp only [valuesOf, List.mem_append, Option.mem_toList, or_imp, forall_and] at respects
      apply (realizes_callCode hasCode.1 respects.1.2 respects.2).bind_of_ok
      rintro result ⟨state, last, performed⟩
      exact realizes_resultCode hasCode.2 dropped respects.1.1 (isSome_of_perform performed)
  | ret | goto | branch | label => exact straight.elim

end Host

end ClassCompiler.StackCode
