import ClassCompiler.Proofs.Emission.Classes
import ClassCompiler.Proofs.Semantics.SimpleCode

/-!
# Faults of simple code

The emission of an instruction moves the depth of the operand stack by a fixed amount.
In simple code every name has a slot, every operand can be pushed and every destination
be stored into, and each instruction takes an empty stack to an empty stack. So the
generation of a simple class fails only for a type that has no descriptor, no members or
no values, for too many variables, for a variable that is declared twice, or for a call
whose result is stored while there is none.
-/

namespace ClassCompiler.StackCode

open Effects Emission
open ThreeAddress (Call ClassUnit Method Value)

/-! ## Faults of types -/

/-- The errors of types: without descriptor, without members, without values. -/
def IsTypeFault : CompileError → Prop
  | .noDescriptor _ | .unsupported (.memberAccess _) | .unsupported .voidOnStack => True
  | _ => False

/-- Results that are missing only for the sake of a type. -/
def FailsByType {α : Type} (result : Except CompileError α) : Prop :=
  ∀ error, result = .error error → IsTypeFault error

section

variable {α β : Type} {linkage : Linkage} {paths : ClassPaths}

theorem failsByType_ok (value : α) : FailsByType (.ok value) := by
  intro error failed
  cases failed

theorem failsByType_error {error : CompileError} (isTypeFault : IsTypeFault error) :
    FailsByType (.error error : Except CompileError α) := by
  intro other failed
  cases failed
  exact isTypeFault

theorem FailsByType.bind {first : Except CompileError α} {next : α → Except CompileError β}
    (failsFirst : FailsByType first) (failsNext : ∀ value, FailsByType (next value)) :
    FailsByType (first >>= next) := by
  cases first with
  | ok value => exact failsNext value
  | error error => exact failsByType_error (failsFirst error rfl)

theorem failsByType_mapM {convert : α → Except CompileError β}
    (failsEach : ∀ value, FailsByType (convert value)) (values : List α) :
    FailsByType (values.mapM convert) := by
  induction values with
  | nil => exact failsByType_ok []
  | cons value rest ih =>
      rw [List.mapM_cons]
      apply (failsEach value).bind
      intro first
      apply ih.bind
      intro others
      exact failsByType_ok _

theorem failsByType_categoryOf (ty : Ty) : FailsByType (categoryOf ty) := by
  unfold categoryOf
  split
  · exact failsByType_error trivial
  · exact failsByType_ok _

theorem failsByType_loadInstr (ty : Ty) (slot : Nat) : FailsByType (loadInstr ty slot) :=
  (failsByType_categoryOf ty).bind fun _ => failsByType_ok _

theorem failsByType_storeInstr (ty : Ty) (slot : Nat) : FailsByType (storeInstr ty slot) :=
  (failsByType_categoryOf ty).bind fun _ => failsByType_ok _

theorem failsByType_returnInstr (ty : Ty) : FailsByType (returnInstr ty) := by
  unfold returnInstr
  split
  · exact failsByType_ok _
  · exact (failsByType_categoryOf ty).bind fun _ => failsByType_ok _

theorem failsByType_descriptor (ty : Ty) : FailsByType (paths.descriptor ty) := by
  unfold ClassPaths.descriptor
  split
  · split
    · exact failsByType_error trivial
    · exact failsByType_ok _
  · exact failsByType_ok _

theorem failsByType_methodDescriptor (params : List Ty) (result : Ty) :
    FailsByType (paths.methodDescriptor params result) := by
  have failsParam (ty : Ty) : FailsByType (paths.paramDescriptor ty) := by
    unfold ClassPaths.paramDescriptor
    split
    · exact failsByType_error trivial
    · exact failsByType_descriptor ty
  apply (failsByType_mapM failsParam params).bind
  intro params
  apply (failsByType_descriptor result).bind
  intro result
  exact failsByType_ok _

theorem failsByType_ownerOf (object : Value) : FailsByType (ownerOf linkage object) := by
  unfold ownerOf
  simp only
  split
  · exact failsByType_error trivial
  · exact failsByType_ok _

theorem failsByType_arrayElementOf (ty : Ty) : FailsByType (arrayElementOf linkage ty) := by
  unfold arrayElementOf
  simp only
  split
  · exact failsByType_ok _
  · split
    · exact failsByType_ok _
    · split
      · exact failsByType_error trivial
      · exact failsByType_ok _

theorem failsByType_fieldDescriptors (fields : List Symbol) :
    FailsByType (fieldDescriptors paths fields) := by
  apply failsByType_mapM
  intro field
  apply (failsByType_descriptor field.ty).bind
  intro descriptor
  exact failsByType_ok _

theorem failsByType_headerOf (method : Method) : FailsByType (headerOf paths method) := by
  unfold headerOf
  split
  · exact failsByType_ok _
  · split
    · exact failsByType_ok _
    · exact (failsByType_methodDescriptor _ _).bind fun _ => failsByType_ok _

/-- A static call on a class and a call on an object have an owner unless the type of the
object has no members. -/
theorem failsByType_invokeOwner {mode : ThreeAddress.InvokeMode} {target : Value} {method : String}
    (isTarget : mode = .static → ∃ name, target = .classRef name) :
    FailsByType (invokeOwner linkage mode target method) := by
  cases mode with
  | static =>
      obtain ⟨name, rfl⟩ := isTarget rfl
      exact failsByType_ok _
  | virtual => exact failsByType_ownerOf target
  | special =>
      cases target with
      | self ty => exact failsByType_ok _
      | _ => exact failsByType_ownerOf _

end

/-! ## Faults of methods -/

/-- The errors of a method in simple code. -/
inductive MethodFault (method : Method) : CompileError → Prop where
  | ofType {error : CompileError} (isTypeFault : IsTypeFault error) : MethodFault method error
  | tooManyLocals : MethodFault method (.tooManyLocals method.name)
  | declaredTwice (name : String) (repeated : ¬(slotNames method).Nodup) :
      MethodFault method (.internal (.declaredTwice name method.name))
  | missingResult {dest : Value} {site : Call} {mode : ThreeAddress.InvokeMode}
      (member : .call (some dest) site ∈ method.body) (invokes : site.invocation = .invoke mode)
      (isVoid : site.returnTy.isVoid = true) : MethodFault method (.stackUnderflow method.name)

/-- An emission for a method at a depth of the operand stack. -/
structure AtDepth (method : Method) (depth : Nat) (emitter : Emitter) : Prop where
  method_eq : emitter.frame.method = method.name
  gives : emitter.frame.Gives (slotNames method)
  depth_eq : emitter.frame.depth = depth

/-- An emission takes the stack from one depth to another, or fails with a fault of its
method. -/
def Moves {α : Type} (method : Method) (low high : Nat) (action : Emission α) : Prop :=
  ∀ emitter, AtDepth method low emitter →
    Outcome action emitter (fun _ after => AtDepth method high after)
      (fun error _ => MethodFault method error)

variable {α β : Type} {method : Method} {low middle high : Nat}

theorem moves_pure (value : α) : Moves method low low (pure value) :=
  fun _ atDepth => atDepth

theorem Moves.bind {action : Emission α} {next : α → Emission β}
    (first : Moves method low middle action)
    (second : ∀ value, Moves method middle high (next value)) :
    Moves method low high (action >>= next) := by
  intro emitter atDepth
  apply Outcome.bind
  exact (first emitter atDepth).mono (fun value after reached => second value after reached)
    fun _ _ isFault => isFault

theorem moves_attempt {result : Except CompileError α} (fails : FailsByType result) :
    Moves method low low (attempt result) := by
  intro emitter atDepth
  cases result with
  | ok value => exact atDepth
  | error error => exact .ofType (fails error rfl)

theorem moves_emit (instr : Instr) : Moves method low low (emit instr) :=
  fun _ atDepth => ⟨atDepth.method_eq, atDepth.gives, atDepth.depth_eq⟩

theorem moves_emitLabel (name : String) : Moves method low low (emitLabel name) :=
  fun _ atDepth => ⟨atDepth.method_eq, atDepth.gives, atDepth.depth_eq⟩

theorem moves_push (count : Nat) : Moves method low (low + count) (push count) :=
  fun _ atDepth => ⟨atDepth.method_eq, atDepth.gives, congrArg (· + count) atDepth.depth_eq⟩

/-- Values can be popped if they are there, or if their absence is a fault. -/
theorem moves_pop {count : Nat}
    (enough : count ≤ low ∨ MethodFault method (.stackUnderflow method.name)) :
    Moves method low (low - count) (pop count) := by
  rintro ⟨frame, counts⟩ ⟨methodEq, gives, depthEq⟩
  change Outcome (attempt (frame.pop count) >>= _) _ _ _
  unfold Frame.pop
  by_cases available : count ≤ frame.depth
  · rw [if_pos available]
    exact ⟨methodEq, gives, congrArg (· - count) depthEq⟩
  · rw [if_neg available]
    rcases enough with isEnough | isFault
    · exact absurd (depthEq ▸ isEnough) available
    · change MethodFault method (.stackUnderflow frame.method)
      rw [methodEq]
      exact isFault

theorem moves_slot {name : String} (member : name ∈ slotNames method) :
    Moves method low low (Emission.slot name) := by
  rintro ⟨frame, counts⟩ atDepth
  change Outcome (attempt (frame.slot name)) _ _ _
  rw [Frame.slot, atDepth.gives name, if_pos member]
  exact atDepth

theorem moves_takeComparison (kind : Comparison) : Moves method low low (takeComparison kind) :=
  fun _ atDepth => ⟨atDepth.method_eq, atDepth.gives, atDepth.depth_eq⟩

/-! ## Values -/

variable {classTy : Ty}

/-- The places of a method have slots. -/
theorem mem_slotNames_of_isPlace {value : Value} (isPlace : value.IsPlace method) {name : String}
    (nameEq : value.varName? = some name) : name ∈ slotNames method := by
  have ofVariable {symbol : Symbol} (member : symbol ∈ method.allVariables) :
      symbol.name ∈ slotNames method :=
    List.mem_append_right _ (List.mem_map_of_mem member)
  cases value with
  | temp name ty =>
      cases nameEq
      exact ofVariable (List.mem_append_right _ isPlace)
  | var name ty =>
      cases nameEq
      rcases List.mem_append.mp (List.mem_of_find?_eq_some isPlace) with isLocal | isParam
      · exact ofVariable (List.mem_append_left _ (List.mem_append_right _ isLocal))
      · exact ofVariable (List.mem_append_left _ (List.mem_append_left _ isParam))
  | _ => exact isPlace.elim

theorem moves_emit_push (instr : Instr) :
    Moves method low (low + 1) (do emit instr; push 1) :=
  (moves_emit instr).bind fun _ => moves_push 1

theorem moves_loadVariable {name : String} (member : name ∈ slotNames method) (ty : Ty) :
    Moves method low (low + 1) (do
      emit (← attempt (loadInstr ty (← Emission.slot name)))
      push 1) := by
  exact (moves_slot member).bind fun slot =>
    (moves_attempt (failsByType_loadInstr ty slot)).bind moves_emit_push

/-- A simple operand is pushed. -/
theorem moves_loadValue {value : Value} (isSimple : value.IsSimple classTy method) :
    Moves method low (low + 1) (loadValue value) := by
  cases value with
  | const constant => cases constant <;> exact moves_emit_push _
  | self ty => exact moves_emit_push _
  | temp name ty =>
      have isPlace : (Value.temp name ty).IsPlace method := isSimple
      exact moves_loadVariable (mem_slotNames_of_isPlace isPlace rfl) ty
  | var name ty =>
      have isPlace : (Value.var name ty).IsPlace method := isSimple
      exact moves_loadVariable (mem_slotNames_of_isPlace isPlace rfl) ty
  | classRef name | element array position ty => exact isSimple.elim

theorem moves_loadElement {array position : Value} (isArray : array.IsSimple classTy method)
    (isPosition : position.IsSimple classTy method) (ty : Ty) :
    Moves method low (low + 1) (loadValue (.element array position ty)) := by
  rw [loadValue]
  exact (moves_loadValue isArray).bind fun _ => (moves_loadValue isPosition).bind fun _ =>
    (moves_emit _).bind fun _ => (moves_pop (.inl (Nat.le_add_left 2 low))).bind fun _ =>
    moves_push 1

theorem moves_loadValues {values : List Value}
    (areSimple : ∀ value ∈ values, value.IsSimple classTy method) :
    Moves method low (low + values.length) (loadValues values) := by
  induction values generalizing low with
  | nil => exact moves_pure ()
  | cons value rest ih =>
      rw [List.forall_mem_cons] at areSimple
      rw [List.length_cons, Nat.add_comm rest.length, ← Nat.add_assoc]
      exact (moves_loadValue areSimple.1).bind fun _ => ih areSimple.2

theorem moves_storeVariable {name : String} (member : name ∈ slotNames method) (ty : Ty)
    (enough : 1 ≤ low ∨ MethodFault method (.stackUnderflow method.name)) :
    Moves method low (low - 1) (do
      emit (← attempt (storeInstr ty (← Emission.slot name)))
      pop 1) := by
  exact (moves_slot member).bind fun slot =>
    (moves_attempt (failsByType_storeInstr ty slot)).bind fun instr =>
    (moves_emit instr).bind fun _ => moves_pop enough

/-- The top of the stack is popped into a place. -/
theorem moves_storeValue {dest : Value} (isPlace : dest.IsPlace method)
    (enough : 1 ≤ low ∨ MethodFault method (.stackUnderflow method.name)) :
    Moves method low (low - 1) (storeValue dest) := by
  cases dest with
  | temp name ty | var name ty =>
      exact moves_storeVariable (mem_slotNames_of_isPlace isPlace rfl) ty enough
  | _ => exact isPlace.elim

/-! ## Instructions -/

variable {linkage : Linkage}

theorem moves_emitOperator (op : BinaryOp) :
    Moves method (low + 2) (low + 1) (emitOperator op) := by
  have popOne {depth : Nat} : Moves method (depth + 1) depth (pop 1) :=
    moves_pop (.inl (Nat.le_add_left 1 depth))
  cases op with
  | arith op | and => exact (moves_emit _).bind fun _ => popOne
  | compare kind =>
      exact (moves_takeComparison kind).bind fun _ => (moves_emit _).bind fun _ =>
        popOne.bind fun _ => (moves_emit _).bind fun _ => popOne.bind fun _ =>
        (moves_emit _).bind fun _ => (moves_push 1).bind fun _ => (moves_emit _).bind fun _ =>
        (moves_emitLabel _).bind fun _ => (moves_emit _).bind fun _ => moves_emitLabel _

theorem moves_emitBinary {dest left right : Value} (op : BinaryOp)
    (isDest : dest.IsPlace method) (isLeft : left.IsSimple classTy method)
    (isRight : right.IsSimple classTy method) :
    Moves method 0 0 (emitBinary dest op left right) := by
  unfold emitBinary
  split
  · next name delta found =>
      have member := mem_slotNames_of_isPlace isDest (increment?_eq_some found).1
      exact (moves_slot member).bind fun _ => moves_emit _
  · exact (moves_loadValue isLeft).bind fun _ => (moves_loadValue isRight).bind fun _ =>
      (moves_emitOperator op).bind fun _ => moves_storeValue isDest (.inl (Nat.le_refl 1))

theorem moves_loadStore {dest value : Value} (isPlace : dest.IsPlace method)
    (loads : Moves method 0 1 (loadValue value)) : Moves method 0 0 (emitAssign dest value) := by
  have stores : Moves method 0 0 (do loadValue value; storeValue dest) :=
    loads.bind fun _ => moves_storeValue isPlace (.inl (Nat.le_refl 1))
  cases dest with
  | element array position ty => exact isPlace.elim
  | _ => exact stores

theorem moves_storeElement {array position value : Value}
    (isArray : array.IsSimple classTy method) (isPosition : position.IsSimple classTy method)
    (isValue : value.IsSimple classTy method) (ty : Ty) :
    Moves method 0 0 (emitAssign (.element array position ty) value) := by
  rw [emitAssign]
  exact (moves_loadValue isArray).bind fun _ => (moves_loadValue isPosition).bind fun _ =>
    (moves_loadValue isValue).bind fun _ => (moves_emit _).bind fun _ =>
    moves_pop (.inl (Nat.le_refl 3))

/-! ## Calls -/

/-- An invocation takes its operands from the stack and leaves its result, if it has
one. -/
theorem moves_emitInvoke {mode : ThreeAddress.InvokeMode} {target : Value} {args : List Value}
    (name : String) (returnTy : Ty) (isTarget : mode = .static → ∃ name, target = .classRef name)
    (operands : ∀ value ∈ operandsOf mode target args, value.IsSimple classTy method) :
    Moves method 0 (if leavesValue (.invoke mode target name args returnTy) then 1 else 0)
      (emitCall linkage (.invoke mode target name args returnTy)) := by
  change Moves method 0 _ (emitInvoke linkage mode (.invoke mode target name args returnTy))
  rw [emitInvoke_eq rfl rfl]
  apply (moves_attempt (failsByType_invokeOwner isTarget)).bind
  intro owner
  apply (moves_loadValues operands).bind
  intro
  apply (moves_attempt (failsByType_methodDescriptor _ _)).bind
  intro descriptor
  apply (moves_emit _).bind
  intro
  apply (moves_pop (.inl (Nat.le_add_left _ 0))).bind
  intro
  rw [Nat.add_sub_cancel]
  change Moves method 0 (if (Call.invoke mode target name args returnTy).returnsValue then 1 else 0)
    (if (Call.invoke mode target name args returnTy).returnsValue then push 1 else pure ())
  split
  · exact moves_push 1
  · exact moves_pure ()

theorem moves_emitCall {site : Call} (isSimple : site.IsSimple classTy method) :
    Moves method 0 (if leavesValue site then 1 else 0) (emitCall linkage site) := by
  cases isSimple with
  | static className name returnTy hasArgs =>
      exact moves_emitInvoke _ _ (fun _ => ⟨className, rfl⟩) hasArgs
  | onReceiver name returnTy hasReceiver isReceiver hasArgs =>
      apply moves_emitInvoke _ _ (fun isStatic => absurd isStatic hasReceiver)
      rw [operandsOf, if_neg hasReceiver, List.forall_mem_cons]
      exact ⟨isReceiver, hasArgs⟩
  | newObject className => exact moves_emit_push _
  | newArray elem isSize =>
      exact (moves_loadValue isSize).bind fun _ =>
        (moves_attempt (failsByType_arrayElementOf _)).bind fun _ => moves_emit _
  | arrayLength isArray => exact (moves_loadValue isArray).bind fun _ => moves_emit _

/-- A result is stored, or missing. -/
theorem moves_storeResult {dest : Value} {site : Call} (isPlace : dest.IsPlace method)
    (member : .call (some dest) site ∈ method.body) :
    Moves method (if leavesValue site then 1 else 0) 0 (emitResult (some dest) site) := by
  cases leaves : leavesValue site with
  | true => exact moves_storeValue isPlace (.inl (Nat.le_refl 1))
  | false =>
      apply moves_storeValue isPlace
      cases invokes : site.invocation with
      | invoke mode =>
          rw [leavesValue, invokes] at leaves
          exact .inr (.missingResult member invokes (by simpa [Call.returnsValue] using leaves))
      | new | newArray | arrayLength =>
          rw [leavesValue, invokes] at leaves
          cases leaves

/-- The result of an invocation is dropped if there is one. -/
theorem moves_dropResult {site : Call} {mode : ThreeAddress.InvokeMode}
    (invokes : site.invocation = .invoke mode) :
    Moves method (if leavesValue site then 1 else 0) 0 (emitResult none site) := by
  have leavesEq : leavesValue site = site.returnsValue := by rw [leavesValue, invokes]
  rw [leavesEq, emitResult]
  cases site.returnsValue with
  | true => exact (moves_emit _).bind fun _ => moves_pop (.inl (Nat.le_refl 1))
  | false => exact moves_pure ()

/-! ## Bodies -/

/-- A simple instruction takes an empty stack to an empty stack. -/
theorem moves_emitInstr {instr : ThreeAddress.Instr} (isSimple : instr.IsSimple classTy method)
    (member : instr ∈ method.body) : Moves method 0 0 (emitInstr linkage method instr) := by
  cases isSimple with
  | assign isDest isValue => exact moves_loadStore isDest (moves_loadValue isValue)
  | readElement isDest isArray isPosition =>
      exact moves_loadStore isDest (moves_loadElement isArray isPosition _)
  | writeElement isArray isPosition isValue =>
      exact moves_storeElement isArray isPosition isValue _
  | binary op isDest isLeft isRight => exact moves_emitBinary op isDest isLeft isRight
  | not isDest isOperand =>
      exact (moves_loadValue isOperand).bind fun _ => (moves_emit _).bind fun _ =>
        (moves_push 1).bind fun _ => (moves_emit _).bind fun _ =>
        (moves_pop (.inl (Nat.le_add_left 1 1))).bind fun _ =>
        moves_storeValue isDest (.inl (Nat.le_refl 1))
  | getField field ty isDest isObject =>
      exact (moves_loadValue isObject).bind fun _ =>
        (moves_attempt (failsByType_ownerOf _)).bind fun _ =>
        (moves_attempt (failsByType_descriptor ty)).bind fun _ => (moves_emit _).bind fun _ =>
        moves_storeValue isDest (.inl (Nat.le_refl 1))
  | putField field isObject isValue =>
      exact (moves_loadValue isObject).bind fun _ => (moves_loadValue isValue).bind fun _ =>
        (moves_attempt (failsByType_ownerOf _)).bind fun _ =>
        (moves_attempt (failsByType_descriptor _)).bind fun _ => (moves_emit _).bind fun _ =>
        moves_pop (.inl (Nat.le_refl 2))
  | call isDest isSite =>
      exact (moves_emitCall isSite).bind fun _ => moves_storeResult isDest member
  | droppedCall invokes isSite =>
      exact (moves_emitCall isSite).bind fun _ => moves_dropResult invokes
  | returnNothing => exact moves_emit _
  | returnValue isValue =>
      rw [emitInstr]
      split
      · exact moves_emit _
      · exact (moves_loadValue isValue).bind fun _ =>
          (moves_attempt (failsByType_returnInstr _)).bind fun _ => (moves_emit _).bind fun _ =>
          moves_pop (.inl (Nat.le_refl 1))
  | branch target isCond =>
      exact (moves_loadValue isCond).bind fun _ => (moves_emit _).bind fun _ =>
        moves_pop (.inl (Nat.le_refl 1))
  | goto target => exact moves_emit _
  | label name => exact moves_emitLabel _

/-- The stack is empty between the instructions of a simple body. -/
theorem moves_emitBody {body : ThreeAddress.Code} (within : body ⊆ method.body)
    (areSimple : ∀ instr ∈ body, instr.IsSimple classTy method) :
    Moves method 0 0 (emitBody linkage method body) := by
  induction body with
  | nil => exact moves_pure ()
  | cons instr rest ih =>
      rw [List.forall_mem_cons] at areSimple
      rw [List.cons_subset] at within
      apply (moves_emitInstr areSimple.1 within.1).bind
      intro _ emitter atDepth
      apply Outcome.bind
      change Outcome (if emitter.frame.depth ≠ 0 then _ else emitBody linkage method rest)
        emitter _ _
      rw [if_neg (not_not_intro atDepth.depth_eq)]
      exact ih within.2 areSimple.2 emitter atDepth

/-! ## Methods and classes -/

variable {counts after : ComparisonCounts} {error : CompileError}

/-- The generation of a simple method fails only with a fault of the method. -/
theorem methodFault_of_generateMethod (isSimple : method.IsSimple classTy)
    (failed : generateMethod linkage method counts = .error error after) :
    MethodFault method error := by
  unfold generateMethod at failed
  split at failed
  · next noFrame =>
      cases failed
      rcases ofMethod_eq_error noFrame with rfl | ⟨name, rfl, repeated⟩
      · exact .tooManyLocals
      · exact .declaredTwice name repeated
  · next frame made =>
      obtain ⟨table, holds, rfl⟩ := exists_holds_of_ofMethod made
      have outcome : Outcome (emitBody linkage method method.body) _ _ _ :=
        moves_emitBody (List.Subset.refl _) isSimple ⟨.ofSlots method.name table, counts⟩
          ⟨rfl, holds.gives _, rfl⟩
      split at failed
      · next notEmitted =>
          cases failed
          exact outcome.of_error notEmitted
      · split at failed
        · next noHeader =>
            cases failed
            exact .ofType (failsByType_headerOf method _ noHeader)
        · cases failed

theorem exists_methodFault_of_generateMethods {methods : List Method}
    (areSimple : ∀ method ∈ methods, method.IsSimple classTy)
    (failed : generateMethods linkage methods counts = .error error after) :
    ∃ method ∈ methods, MethodFault method error := by
  induction methods generalizing counts with
  | nil => cases failed
  | cons method rest ih =>
      rw [List.forall_mem_cons] at areSimple
      rw [generateMethods, bind_apply] at failed
      split at failed
      · next code middle generated =>
          rw [bind_apply] at failed
          split at failed
          · cases failed
          · next notGenerated =>
              cases failed
              obtain ⟨other, member, isFault⟩ := ih areSimple.2 notGenerated
              exact ⟨other, List.mem_cons_of_mem _ member, isFault⟩
      · next notGenerated =>
          cases failed
          exact ⟨method, List.mem_cons_self,
            methodFault_of_generateMethod areSimple.1 notGenerated⟩

/-- The generation of a simple class fails only with a fault of a type or of one of its
methods. -/
theorem fault_of_generateClass {rootClass : String} {unit : ClassUnit}
    (areSimple : ∀ method ∈ unit.methods, method.IsSimple classTy)
    (failed : generateClass rootClass unit counts = .error error after) :
    IsTypeFault error ∨ ∃ method ∈ unit.methods, MethodFault method error := by
  unfold generateClass at failed
  cases fieldsEq : fieldDescriptors (Linkage.ofClass rootClass unit).paths unit.fields with
  | error other =>
      rw [fieldsEq] at failed
      cases failed
      exact .inl (failsByType_fieldDescriptors _ _ fieldsEq)
  | ok fields =>
      rw [fieldsEq] at failed
      change (generateMethods (Linkage.ofClass rootClass unit) unit.methods >>= _) counts = _
        at failed
      rw [bind_apply] at failed
      split at failed
      · cases failed
      · next notGenerated =>
          cases failed
          exact .inr (exists_methodFault_of_generateMethods areSimple notGenerated)

/-! ## Missing results -/

section

variable {frame : Frame Instr} {names : List String} {dest : Value} {site : Call}

/-- Nothing can be popped from an empty stack into a variable. -/
theorem storeValue_underflows (gives : frame.Gives names) (empty : frame.depth = 0)
    (storable : Storable names dest) :
    ∃ last, storeValue dest ⟨frame, counts⟩ = .error (.stackUnderflow frame.method) last := by
  have ofVariable {name : String} {ty : Ty} (storable : name ∈ names ∧ ty.isVoid = false) :
      ∃ last, (do
          emit (← attempt (storeInstr ty (← Emission.slot name)))
          pop 1 : Emission Unit) ⟨frame, counts⟩ = .error (.stackUnderflow frame.method) last := by
    have slotEq : Emission.slot name ⟨frame, counts⟩ = .ok _ _ :=
      (succeeds_slot gives name _ _).mpr ⟨storable.1, rfl, rfl⟩
    have instrEq := (storeInstr_eq_ok_iff ty (names.idxOf name) _).mpr ⟨storable.2, rfl⟩
    have short (instr : Instr) : (frame.emit instr).pop 1 = .error (.stackUnderflow frame.method) :=
      if_neg (Nat.not_le_of_lt (empty ▸ Nat.zero_lt_one))
    rw [bind_of_ok slotEq, instrEq]
    exists ⟨frame.emit (.store (valueCategory ty) (names.idxOf name)), counts⟩
    change (attempt ((frame.emit _).pop 1) >>= _) _ = _
    rw [short]
    rfl
  cases dest with
  | temp name ty | var name ty => exact ofVariable storable
  | _ => exact storable.elim

/-- A call that leaves nothing cannot be stored, though it has code. -/
theorem emitInstr_underflows (gives : frame.Gives names) (empty : frame.depth = 0)
    (callable : Callable names site) (storable : Storable names dest)
    (leavesNothing : leavesValue site = false) :
    ∃ last, emitInstr linkage method (.call (some dest) site) ⟨frame, counts⟩ =
      .error (.stackUnderflow frame.method) last := by
  have called : emitCall linkage site ⟨frame, counts⟩ = .ok _ _ :=
    (succeeds_emitCall gives empty site _ _).mpr ⟨callable, rfl, rfl⟩
  rw [emitInstr, bind_of_ok called]
  exact storeValue_underflows (gives.add _ _ _) (by simp [leavesNothing]) storable

/-- A method that begins by storing a call without a result has slots and yet no code. -/
theorem generateMethod_underflows {rest : ThreeAddress.Code} (distinct : (slotNames method).Nodup)
    (fits : (slotNames method).length ≤ maxLocals)
    (bodyEq : method.body = .call (some dest) site :: rest)
    (callable : Callable (slotNames method) site) (storable : Storable (slotNames method) dest)
    (leavesNothing : leavesValue site = false) :
    ∃ last, generateMethod linkage method counts = .error (.stackUnderflow method.name) last := by
  obtain ⟨frame, made⟩ : ∃ frame, Frame.ofMethod method = .ok (frame : Frame Instr) :=
    (exists_ofMethod_iff method).mpr ⟨distinct, fits⟩
  obtain ⟨table, holds, rfl⟩ := exists_holds_of_ofMethod made
  obtain ⟨last, failed⟩ :
      ∃ last, emitInstr linkage method (.call (some dest) site) ⟨_, counts⟩ = .error _ last :=
    emitInstr_underflows (holds.gives method.name) rfl callable storable leavesNothing
  unfold generateMethod
  rw [made, bodyEq, emitBody]
  simp only
  rw [bind_of_error failed]
  exact ⟨_, rfl⟩

/-- The first method without code decides how the generation of methods fails. -/
theorem generateMethods_eq_error {earlier later : List Method}
    (generated : ∀ other ∈ earlier, IsEmittable other ∧ HasHeader other)
    (fails : ∀ start, ∃ last, generateMethod linkage method start = .error error last)
    (counts : ComparisonCounts) :
    ∃ last, generateMethods linkage (earlier ++ method :: later) counts = .error error last := by
  induction earlier generalizing counts with
  | nil =>
      obtain ⟨last, failed⟩ := fails counts
      rw [List.nil_append, generateMethods, bind_of_error failed]
      exact ⟨_, rfl⟩
  | cons other rest ih =>
      rw [List.forall_mem_cons] at generated
      have first : generateMethod linkage other counts = .ok _ _ :=
        generateMethod_eq_ok_iff_generatedMethod.mpr ⟨generated.1, rfl, rfl⟩
      obtain ⟨last, failed⟩ := ih generated.2 (bodyCounts counts other.body)
      rw [List.cons_append, generateMethods, bind_of_ok first, bind_of_error failed]
      exact ⟨_, rfl⟩

theorem generateClass_eq_error {rootClass : String} {unit : ClassUnit} {earlier later : List Method}
    (describable : ∀ field ∈ unit.fields, Describable field.ty)
    (methodsEq : unit.methods = earlier ++ method :: later)
    (generated : ∀ other ∈ earlier, IsEmittable other ∧ HasHeader other)
    (fails : ∀ linkage start, ∃ last, generateMethod linkage method start = .error error last) :
    ∃ last, generateClass rootClass unit counts = .error error last := by
  obtain ⟨last, failed⟩ :=
    generateMethods_eq_error generated (fails (.ofClass rootClass unit)) counts
  rw [← methodsEq] at failed
  exists last
  unfold generateClass
  rw [fieldDescriptors_eq_ok_iff.mpr ⟨describable, rfl⟩]
  change (generateMethods _ _ >>= _) counts = _
  exact bind_of_error failed

end

end ClassCompiler.StackCode

namespace ClassCompiler

open Effects StackCode

/-- A class without code is an error of its compilation. -/
theorem compile_eq_error {options : Options} {table : SymbolTable} {program : Program}
    {unit : ThreeAddress.ClassUnit} {error : CompileError} {last : ComparisonCounts}
    (lowered : ThreeAddress.lowerFresh table program = .ok unit)
    (failed : generateClass options.rootClass unit {} = .error error last) :
    compile options table program = .error error := by
  have assembled : assembleFresh options unit = .error error := by
    unfold assembleFresh assemble
    rw [bind_of_error failed]
  rw [compile, lowered]
  change assembleFresh options unit >>= _ = _
  rw [assembled]
  rfl

/-! ## A class that keeps a missing result -/

/-- A class with a method that assigns a call without a result to its variable. -/
def clockProgram : Program where
  imports := []
  decl := {
    name := "Clock"
    superClass := none
    fields := []
    methods := [
      { name := "tick"
        returnTy := Ty.void
        params := []
        locals := []
        body := []
        isStatic := false
        isPublic := true },
      { name := "keep"
        returnTy := Ty.void
        params := []
        locals := [⟨"count", Ty.int⟩]
        body := [.assign (.var "count") (.call .self "tick" [])]
        isStatic := false
        isPublic := true }] }

/-- The method of the class that has no result, in three-address code. -/
def clockTickMethod : ThreeAddress.Method where
  name := "tick"
  returnTy := Ty.void
  body := [.ret none]

/-- The call of that method. -/
def clockTickCall : ThreeAddress.Call :=
  .invoke .virtual (.self (Ty.named "Clock")) "tick" [] Ty.void

/-- The method of the class that keeps what the call returns, in three-address code. -/
def clockKeepMethod : ThreeAddress.Method where
  name := "keep"
  returnTy := Ty.void
  locals := [⟨"count", Ty.int⟩]
  body := [.call (some (.var "count" Ty.int)) clockTickCall, .ret none]

/-- The class in three-address code. -/
def clockUnit : ThreeAddress.ClassUnit where
  name := "Clock"
  methods := [ThreeAddress.constructorOf (.ofProgram clockProgram), clockTickMethod,
    clockKeepMethod]

theorem lowerFresh_clockProgram :
    ThreeAddress.lowerFresh (.ofProgram clockProgram) clockProgram = .ok clockUnit :=
  rfl

theorem generateClass_clockUnit (rootClass : String) (counts : ComparisonCounts) :
    ∃ last, generateClass rootClass clockUnit counts = .error (.stackUnderflow "keep") last := by
  have fails (linkage : Linkage) (start : ComparisonCounts) :
      ∃ last, generateMethod linkage clockKeepMethod start = .error (.stackUnderflow "keep") last :=
    generateMethod_underflows (by decide) (by decide) rfl (by decide) (by decide) rfl
  have generated : ∀ other ∈ [ThreeAddress.constructorOf (.ofProgram clockProgram),
      clockTickMethod], IsEmittable other ∧ HasHeader other := by decide
  exact generateClass_eq_error (by decide) rfl generated fails

end ClassCompiler
