import ClassCompiler.Proofs.Emission.Labels
import ClassCompiler.Proofs.Emission.Operands

/-!
# Code of operations

Each operation takes its operands from the stack and realizes what three-address
code does with them. A comparison is the only one with jumps: it needs that its own
labels stand nowhere else.
-/

namespace ClassCompiler.StackCode

open Semantics Effects
open ThreeAddress (Value Call InvokeMode)

/-! ## Descriptors -/

/-- The descriptor of a built-in type says which one it is, and every other
descriptor is that of a reference. -/
theorem descriptorOf_cases (paths : ClassPaths) (ty : Ty) :
    (ty = Ty.int ∧ paths.descriptorOf ty = .int) ∨
      (ty = Ty.boolean ∧ paths.descriptorOf ty = .boolean) ∨
      (ty = Ty.void ∧ paths.descriptorOf ty = .void) ∨
      (ty ≠ Ty.int ∧ ty ≠ Ty.boolean ∧ ty ≠ Ty.void) ∧
        ((∃ path, paths.descriptorOf ty = .object path) ∨
          ∃ elem, paths.descriptorOf ty = .array elem) := by
  rcases ty with ⟨name, shape⟩
  cases shape with
  | array | vararg =>
      exact .inr (.inr (.inr ⟨by simp [Ty.int, Ty.boolean, Ty.void, Ty.named], .inr ⟨_, rfl⟩⟩))
  | single =>
      have descriptorEq : paths.descriptorOf ⟨name, .single⟩ = paths.baseDescriptor name := rfl
      rw [descriptorEq, ClassPaths.baseDescriptor]
      by_cases isInt : name = "int"
      · exact .inl ⟨congrArg Ty.named isInt, if_pos isInt⟩
      · rw [if_neg isInt]
        by_cases isBoolean : name = "boolean"
        · exact .inr (.inl ⟨congrArg Ty.named isBoolean, if_pos isBoolean⟩)
        · rw [if_neg isBoolean]
          by_cases isVoid : name = "void"
          · exact .inr (.inr (.inl ⟨congrArg Ty.named isVoid, if_pos isVoid⟩))
          · rw [if_neg isVoid]
            refine .inr (.inr (.inr ⟨?_, .inl ?_⟩))
            · simp [Ty.int, Ty.boolean, Ty.void, Ty.named, isInt, isBoolean, isVoid]
            · split
              · exact ⟨_, rfl⟩
              · exact ⟨_, rfl⟩

theorem storage_descriptorOf (paths : ClassPaths) (ty : Ty) :
    (paths.descriptorOf ty).storage = storageOf ty := by
  rcases descriptorOf_cases paths ty with ⟨rfl, descriptorEq⟩ | ⟨rfl, descriptorEq⟩ |
      ⟨rfl, descriptorEq⟩ |
      ⟨⟨notInt, notBoolean, _⟩, ⟨path, descriptorEq⟩ | ⟨elem, descriptorEq⟩⟩ <;>
    rw [descriptorEq]
  · rfl
  · rfl
  · rfl
  · simp [storageOf, notInt, notBoolean, Descriptor.storage]
  · simp [storageOf, notInt, notBoolean, Descriptor.storage]

theorem category_descriptorOf (paths : ClassPaths) (ty : Ty) :
    (paths.descriptorOf ty).category = valueCategory ty := by
  rcases descriptorOf_cases paths ty with ⟨rfl, descriptorEq⟩ | ⟨rfl, descriptorEq⟩ |
      ⟨rfl, descriptorEq⟩ |
      ⟨⟨notInt, notBoolean, _⟩, ⟨path, descriptorEq⟩ | ⟨elem, descriptorEq⟩⟩ <;>
    rw [descriptorEq]
  · rfl
  · rfl
  · rfl
  · simp [valueCategory, Ty.isIntLike, Ty.isInt, Ty.isBoolean, notInt, notBoolean,
      Descriptor.category]
  · simp [valueCategory, Ty.isIntLike, Ty.isInt, Ty.isBoolean, notInt, notBoolean,
      Descriptor.category]

theorem resultStorage_descriptorOf (paths : ClassPaths) (ty : Ty) :
    (paths.descriptorOf ty).resultStorage = resultStorage ty := by
  rw [Descriptor.resultStorage, resultStorage, storage_descriptorOf, Ty.isVoid]
  rcases descriptorOf_cases paths ty with ⟨rfl, descriptorEq⟩ | ⟨rfl, descriptorEq⟩ |
      ⟨rfl, descriptorEq⟩ | ⟨⟨_, _, notVoid⟩, ⟨path, descriptorEq⟩ | ⟨elem, descriptorEq⟩⟩ <;>
    rw [descriptorEq]
  · rfl
  · rfl
  · rfl
  · simp [notVoid]
  · simp [notVoid]

theorem acceptArguments_descriptorOf (paths : ClassPaths) (checked : Bool) (tys : List Ty)
    (values : List (Val Word)) :
    acceptArguments checked (tys.map paths.descriptorOf) values = acceptAll checked tys values := by
  induction tys generalizing values with
  | nil => cases values <;> rfl
  | cons ty rest ih =>
      cases values with
      | nil => rfl
      | cons value values =>
          rw [List.map_cons, acceptArguments, acceptAll, category_descriptorOf,
            accept_valueCategory, ih]

namespace Host

variable {host : Host}

/-! ## Operators -/

theorem realizes_combine {instr : Instr} (straight : instr.IsStraight)
    {operation : Word → Word → Except Abort Word}
    (combines : instr.perform host.answer host.checked = combine operation)
    {result : Val Word → Val Word → Except Abort (Val Word)}
    (scalars : ∀ left right, result (.scalar left) (.scalar right) =
      (operation left right).map .scalar)
    (leftRef : ∀ left right, result (.ref left) right = .error .mismatch)
    (rightRef : ∀ left right, result left (.ref right) = .error .mismatch)
    (left right : Val Word) :
    host.Realizes [.instr instr] [right, left] (attempt (result left right))
      fun value => [value] := by
  refine Realizes.compute straight fun state slots memory base mirrors => ?_
  rw [combines]
  cases left with
  | ref left =>
      rw [leftRef]
      exact ⟨base, rfl⟩
  | scalar left =>
      cases right with
      | ref right =>
          rw [rightRef]
          exact ⟨base, rfl⟩
      | scalar right =>
          rw [scalars]
          simp only [List.cons_append, List.nil_append, combine, bind_apply, popOperand]
          cases operation left right with
          | ok value => rfl
          | error reason => exact ⟨base, rfl⟩

theorem realizes_arith (op : ArithOp) (left right : Val Word) :
    host.Realizes [.instr (.arith op)] [right, left] (attempt (Val.binary (.arith op) left right))
      fun value => [value] :=
  realizes_combine (by trivial) rfl (fun _ _ => rfl) (fun _ _ => rfl)
    (fun left _ => by cases left <;> rfl) left right

theorem realizes_and (left right : Val Word) :
    host.Realizes [.instr .and] [right, left] (attempt (Val.binary .and left right))
      fun value => [value] :=
  realizes_combine (by trivial) rfl (fun _ _ => rfl) (fun _ _ => rfl)
    (fun left _ => by cases left <;> rfl) left right

/-! ## Comparisons -/

theorem step_label {place : Nat} {name : String}
    (atPlace : host.lines[place]? = some (.label name)) (machine : Machine) :
    host.step ⟨place, machine⟩ = .next ⟨place + 1, machine⟩ := by
  rw [step, StackCode.step, atPlace]

theorem step_goto {place target : Nat} {name : String}
    (atPlace : host.lines[place]? = some (.instr (.goto name)))
    (labelEq : labelPlace? host.lines name = some target) (machine : Machine) :
    host.step ⟨place, machine⟩ = .next ⟨target, machine⟩ := by
  simp only [step, StackCode.step, atPlace, jumpTo, labelEq]

theorem step_branch {place target : Nat} {name : String} {test : Comparison}
    (atPlace : host.lines[place]? = some (.instr (.branch test name)))
    (labelEq : labelPlace? host.lines name = some target) (value : Word)
    (base : List (Val Word)) (slots : Nat → Val Word) (memory : Store LinkedCall) :
    host.step ⟨place, ⟨.scalar value :: base, slots, memory⟩⟩ =
      .next ⟨if holds test value.toInt 0 then target else place + 1, ⟨base, slots, memory⟩⟩ := by
  have decided : decideBranch test ⟨.scalar value :: base, slots, memory⟩ =
      .ok (holds test value.toInt 0) ⟨base, slots, memory⟩ := rfl
  simp only [step, StackCode.step, atPlace, decided, jumpTo, labelEq]
  cases holds test value.toInt 0 <;> rfl

theorem step_branch_ref {place : Nat} {name : String} {test : Comparison}
    (atPlace : host.lines[place]? = some (.instr (.branch test name))) (value : Ref)
    (base : List (Val Word)) (slots : Nat → Val Word) (memory : Store LinkedCall) :
    host.step ⟨place, ⟨.ref value :: base, slots, memory⟩⟩ =
      .stop ⟨.aborted .mismatch, ⟨base, slots, memory⟩⟩ := by
  have decided : decideBranch test ⟨.ref value :: base, slots, memory⟩ =
      .error .mismatch ⟨base, slots, memory⟩ := rfl
  simp only [step, StackCode.step, atPlace, decided]

/-- The truth value of a comparison of an integer with zero. -/
def testSign (kind : Comparison) : Val Word → Except Abort (Val Word)
  | .scalar value => .ok (.bool (holds kind value.toInt 0))
  | .ref _ => .error .mismatch

/-- The branch behind the subtraction leaves whether the comparison holds between the
difference and zero, and changes nothing else. -/
theorem steps_testSign {kind : Comparison} {number place : Nat}
    (trueOnce : (lineLabels host.lines).count (trueLabel kind number) ≤ 1)
    (endOnce : (lineLabels host.lines).count (endLabel kind number) ≤ 1)
    (placed : PlacedAt (comparisonCode kind number).tail place host.lines) (value : Word)
    (base : List (Val Word)) (slots : Nat → Val Word) (memory : Store LinkedCall) :
    Steps host.step 4 ⟨place, ⟨.scalar value :: base, slots, memory⟩⟩
      ⟨place + (comparisonCode kind number).tail.length,
        ⟨.bool (holds kind value.toInt 0) :: base, slots, memory⟩⟩ := by
  have trueEq := labelPlace?_eq_some trueOnce placed.tail.tail.tail.head
  have endEq := labelPlace?_eq_some endOnce placed.tail.tail.tail.tail.tail.head
  have branchEq := step_branch placed.head trueEq value base slots memory
  cases holdsEq : holds kind value.toInt 0 with
  | true =>
      rw [holdsEq] at branchEq
      have pushEq := step_of_isStraight placed.tail.tail.tail.tail.head trivial
        ⟨base, slots, memory⟩
      exact .head branchEq (.head (step_label placed.tail.tail.tail.head _)
        (.head pushEq (.single (step_label placed.tail.tail.tail.tail.tail.head _))))
  | false =>
      rw [holdsEq] at branchEq
      have pushEq := step_of_isStraight placed.tail.head trivial ⟨base, slots, memory⟩
      exact .head branchEq (.head pushEq (.head (step_goto placed.tail.tail.head endEq _)
        (.single (step_label placed.tail.tail.tail.tail.tail.head _))))

/-- The branch behind the subtraction leaves the truth value of the comparison. -/
theorem realizes_testSign {kind : Comparison} {number : Nat}
    (trueOnce : (lineLabels host.lines).count (trueLabel kind number) ≤ 1)
    (endOnce : (lineLabels host.lines).count (endLabel kind number) ≤ 1)
    (difference : Val Word) :
    host.Realizes (comparisonCode kind number).tail [difference]
      (attempt (testSign kind difference)) fun value => [value] := by
  intro place placed
  rintro state ⟨_, slots, memory⟩ base mirrors rfl
  cases difference with
  | ref value => exact ⟨_, .of_stop (step_branch_ref placed.head value base slots memory),
      mirrors.withStack base⟩
  | scalar value => exact ⟨4, _, steps_testSign trueOnce endOnce placed value base slots memory,
      mirrors.withStack _, rfl⟩

/-- The code of a comparison realizes it. -/
theorem realizes_comparisonCode {kind : Comparison} {number : Nat}
    (trueOnce : (lineLabels host.lines).count (trueLabel kind number) ≤ 1)
    (endOnce : (lineLabels host.lines).count (endLabel kind number) ≤ 1) (left right : Val Word) :
    host.Realizes (comparisonCode kind number) [right, left]
      (attempt (Val.binary (.compare kind) left right)) fun value => [value] := by
  refine ((realizes_arith .sub left right).bind
    (realizes_testSign trueOnce endOnce)).of_eq fun state => ?_
  cases left with
  | ref left => rfl
  | scalar left => cases right <;> rfl

theorem realizes_not (operand : Val Word) :
    host.Realizes [.instr (.pushInt 1), .instr .xor] [operand] (attempt operand.not)
      fun value => [value] := by
  refine .push (by trivial) rfl (Realizes.compute (by trivial) fun state slots memory base _ => ?_)
  cases operand with
  | scalar value => rfl
  | ref value => exact ⟨base, rfl⟩

/-! ## Fields and arrays -/

theorem realizes_getField (owner field : String) (ty : Ty) (object : Val Word) :
    host.Realizes [.instr (.getField owner field (host.linkage.paths.descriptorOf ty))] [object]
      (reading fun state => readField state.memory.heap ⟨owner, field⟩ (storageOf ty) object)
      fun value => [value] := by
  refine .compute (by trivial) fun state slots memory base mirrors => ?_
  rw [← storage_descriptorOf host.linkage.paths, ← mirrors.heap_eq]
  simp only [List.cons_append, List.nil_append, Instr.perform, bind_apply, popOperand, get_apply]
  cases readField memory.heap ⟨owner, field⟩ (host.linkage.paths.descriptorOf ty).storage object with
  | ok value => rfl
  | error reason => exact ⟨base, rfl⟩

theorem realizes_putField (owner field : String) (ty : Ty) (object value : Val Word) :
    host.Realizes [.instr (.putField owner field (host.linkage.paths.descriptorOf ty))]
      [value, object] (onMemory (writeField ⟨owner, field⟩ (storageOf ty) object value))
      fun _ => [] := by
  refine .change (by trivial) (.writeField _ _ _ _) fun slots memory base => ?_
  cases result : writeField ⟨owner, field⟩ (storageOf ty) object value memory <;>
    simp only [List.cons_append, List.nil_append, Instr.perform, bind_apply, popOperand, onStore,
      storage_descriptorOf, result]

theorem realizes_arrayStore (ty : Ty) (array position value : Val Word) :
    host.Realizes [.instr (.arrayStore (elementKindOf ty))] [value, position, array]
      (onMemory (writeElement (storageOf ty) array position value)) fun _ => [] := by
  refine .change (by trivial) (.writeElement _ _ _ _) fun slots memory base => ?_
  cases result : writeElement (storageOf ty) array position value memory <;>
    simp only [List.cons_append, List.nil_append, Instr.perform, bind_apply, popOperand, onStore,
      storage_elementKindOf, result]

theorem realizes_new (path : String) :
    host.Realizes [.instr (.new path)] [] (onMemory (createObject path)) fun value => [value] :=
  .change (by trivial) (.allocate _) fun _ _ _ => rfl

theorem linked_create (arrayTy : Ty) (size : Val Word) :
    Linked host.linkage
      (createArray (host.world.path arrayTy.element.name) (storageOf arrayTy.element) size)
      ((host.linkage.elementOf arrayTy).create size) := by
  simp only [Linkage.elementOf, storageOf, Ty.isInt, Ty.isBoolean, beq_iff_eq]
  by_cases isInt : arrayTy.element = Ty.int
  · simp only [isInt, if_true]
    exact .createArray "" .int size
  · by_cases isBoolean : arrayTy.element = Ty.boolean
    · have notInt : Ty.boolean ≠ Ty.int := by decide
      simp only [isBoolean, notInt, if_true, if_false]
      exact .createArray "" .bool size
    · simp only [isInt, isBoolean, if_false]
      exact .createArray _ .ref size

theorem realizes_newArray (arrayTy : Ty) (size : Val Word) :
    host.Realizes [.instr (.newArray (host.linkage.elementOf arrayTy))] [size]
      (onMemory (createArray (host.world.path arrayTy.element.name) (storageOf arrayTy.element)
        size))
      fun value => [value] := by
  refine .change (by trivial) (linked_create arrayTy size) fun slots memory base => ?_
  cases result : (host.linkage.elementOf arrayTy).create size memory with
  | error reason changed =>
      simp only [List.cons_append, List.nil_append, Instr.perform, bind_apply, popOperand, onStore,
        result]
  | ok value changed =>
      simp only [List.cons_append, List.nil_append, Instr.perform, bind_apply, popOperand, onStore,
        result]
      rfl

theorem realizes_arrayLength (array : Val Word) :
    host.Realizes [.instr .arrayLength] [array]
      (reading fun state => readLength state.memory.heap array) fun value => [value] := by
  refine .compute (by trivial) fun state slots memory base mirrors => ?_
  rw [← mirrors.heap_eq]
  simp only [List.cons_append, List.nil_append, Instr.perform, bind_apply, popOperand, get_apply]
  cases readLength memory.heap array with
  | ok value => rfl
  | error reason => exact ⟨base, rfl⟩

/-! ## Calls -/

theorem realizes_pop (value : Val Word) :
    host.Realizes [.instr .pop] [value] (pure ()) fun _ => [] := by
  refine .instr (by trivial) fun state slots memory base mirrors => ?_
  exact ⟨_, rfl, mirrors.withStack base, rfl⟩

/-- The instruction that makes a call takes the receiver and the arguments from the
stack, and makes the call if they are accepted. -/
theorem perform_invoke {owner : Owner} (method : String) (tys : List Ty) (returnTy : Ty)
    {receiver : Option (Val Word)} {values : List (Val Word)}
    (sameLength : values.length = tys.length)
    (hasReceiver : receiver.isNone = decide (linkMode owner = .static)) (base : List (Val Word))
    (slots : Nat → Val Word) (memory : Store LinkedCall) :
    (Instr.invoke (linkMode owner) (linkPath host.linkage owner) method
        (host.linkage.paths.signatureOf tys returnTy)).perform host.answer host.checked
        ⟨values.reverse ++ receiver.toList ++ base, slots, memory⟩ =
      (do
        attempt (acceptAll host.checked tys values)
        attempt (ThreeAddress.acceptReceiver host.checked receiver)
        pushResult (← onStore (consult host.answer
          (link host.linkage ⟨owner, method, tys, returnTy, receiver, values⟩)
          (resultStorage returnTy))) : Action Machine Unit) ⟨base, slots, memory⟩ := by
  have popped : popOperands (tys.map host.linkage.paths.descriptorOf).length
      ⟨values.reverse ++ receiver.toList ++ base, slots, memory⟩ =
      .ok values ⟨receiver.toList ++ base, slots, memory⟩ := by
    simp [popOperands, ← sameLength]
  have received : popReceiver (linkMode owner) ⟨receiver.toList ++ base, slots, memory⟩ =
      .ok receiver ⟨base, slots, memory⟩ := by
    cases receiver with
    | none =>
        have isStatic : linkMode owner = .static := by simpa using hasReceiver
        rw [popReceiver, if_pos isStatic]
        rfl
    | some value =>
        have notStatic : linkMode owner ≠ .static := by simpa using hasReceiver
        rw [popReceiver, if_neg notStatic]
        rfl
  rw [Instr.perform, performCall, ClassPaths.signatureOf, bind_of_ok popped, bind_of_ok received,
    acceptArguments_descriptorOf, resultStorage_descriptorOf]
  rfl

theorem Mirrors.pushResult {state : State Word} {stack : List (Val Word)}
    {slots : Nat → Val Word} {memory : Store LinkedCall}
    (mirrors : host.Mirrors state ⟨stack, slots, memory⟩)
    {change : Action (Memory Word) (Option (Val Word))}
    {linked : Action (Store LinkedCall) (Option (Val Word))}
    (same : Linked host.linkage change linked) (base : List (Val Word)) :
    host.Matches
      ((do StackCode.pushResult (← onStore linked) : Action Machine Unit) ⟨base, slots, memory⟩)
      (onMemory change state) (fun result => result.toList) base := by
  have changes := mirrors.change same base
  rw [bind_apply, onStore]
  cases result : onMemory change state with
  | ok value last =>
      rw [result] at changes
      rcases changes with ⟨changed, linkedEq, mirrorsLast⟩
      rw [linkedEq]
      cases value with
      | none => exact ⟨_, rfl, mirrorsLast, rfl⟩
      | some value => exact ⟨_, rfl, mirrorsLast.withStack _, rfl⟩
  | error reason last =>
      rw [result] at changes
      rcases changes with ⟨changed, linkedEq, mirrorsLast⟩
      rw [linkedEq]
      exact ⟨_, rfl, mirrorsLast⟩

/-- The instruction that makes a call realizes it. -/
theorem realizes_invoke {owner : Owner} (method : String) (tys : List Ty) (returnTy : Ty)
    {receiver : Option (Val Word)} {values : List (Val Word)}
    (sameLength : values.length = tys.length)
    (hasReceiver : receiver.isNone = decide (linkMode owner = .static)) :
    host.Realizes
      [.instr (.invoke (linkMode owner) (linkPath host.linkage owner) method
        (host.linkage.paths.signatureOf tys returnTy))]
      (values.reverse ++ receiver.toList)
      (do
        attempt (acceptAll host.checked tys values)
        attempt (ThreeAddress.acceptReceiver host.checked receiver)
        onMemory (invoke host.world ⟨owner, method, tys, returnTy, receiver, values⟩))
      fun result => result.toList := by
  refine .instr (by trivial) fun state slots memory base mirrors => ?_
  rw [perform_invoke method tys returnTy sameLength hasReceiver]
  cases accepted : acceptAll host.checked tys values with
  | error reason => exact ⟨_, rfl, mirrors.withStack base⟩
  | ok _ =>
      cases acceptedReceiver : ThreeAddress.acceptReceiver host.checked receiver with
      | error reason => exact ⟨_, rfl, mirrors.withStack base⟩
      | ok _ =>
          exact mirrors.pushResult (.consult host.answer
            ⟨owner, method, tys, returnTy, receiver, values⟩ (resultStorage returnTy)) base

/-! ## Increments -/

theorem accept_scalar {checked : Bool} {ty : Ty} (intLike : checked = true → ty.isIntLike = true)
    (value : Word) : accept checked ty (.scalar value) = .ok (.scalar value) := by
  rw [accept, if_neg]
  rintro ⟨isChecked, differs⟩
  exact differs (by rw [intLike isChecked]; rfl)

/-- What is added to the variable is the amount of the increment. -/
theorem binary_of_incrementDelta? {op : BinaryOp} {amount : Int32} {delta : Int8}
    (deltaEq : incrementDelta? op amount = some delta) (value : Word) :
    Val.binary op (.scalar value) (.int amount) =
      .ok (.scalar (value + Int32.ofInt delta.toInt)) := by
  rcases toInt_incrementDelta? deltaEq with ⟨rfl, toIntEq⟩ | ⟨rfl, toIntEq⟩
  · rw [toIntEq, Int32.ofInt_toInt]
    rfl
  · rw [toIntEq, Int32.ofInt_neg, Int32.ofInt_toInt, ← Int32.sub_eq_add_neg]
    rfl

theorem read_of_varName? {operand : Value} {name : String} (nameEq : operand.varName? = some name)
    (world : World Word) (checked : Bool) (state : State Word) :
    operand.read world checked state = accept checked operand.ty (state.env name) := by
  cases operand <;> cases nameEq <;> rfl

theorem write_of_varName? {dest : Value} {name : String} (nameEq : dest.varName? = some name)
    (checked : Bool) (value : Val Word) :
    dest.write checked value = (do
      let value ← attempt (accept checked dest.ty value)
      modify fun state => { state with env := assignVariable state.env name value }) := by
  cases dest <;> cases nameEq <;> rfl

theorem accept_ref (checked : Bool) (ty : Ty) (value : Ref) :
    accept checked ty (.ref value : Val Word) = .ok (.ref value) ∨
      accept checked ty (.ref value : Val Word) = .error .mismatch := by
  rw [accept]
  split
  · exact .inr rfl
  · exact .inl rfl

theorem effect_binary {left right : Value} {world : World Word} {checked : Bool}
    {state : State Word} {first second : Val Word}
    (leftEq : left.read world checked state = .ok first)
    (rightEq : right.read world checked state = .ok second) (dest : Value) (op : BinaryOp) :
    (ThreeAddress.Instr.binary dest op left right).effect world checked state =
      (do dest.write checked (← attempt (Val.binary op first second))) state := by
  simp only [ThreeAddress.Instr.effect, Value.fetch, bind_apply, get_apply, leftEq, rightEq,
    attempt_ok]

/-- What an instruction does that is emitted as an increment. The increment knows
only the type of the destination, so a checked run has to find integers as operands. -/
theorem effect_of_increment? {dest left right : Value} {op : BinaryOp} {name : String}
    {delta : Int8} (found : increment? dest op left right = some (name, delta)) {checked : Bool}
    (intLike : checked = true → left.ty.isIntLike = true ∧ right.ty.isIntLike = true)
    (world : World Word) (state : State Word) :
    (ThreeAddress.Instr.binary dest op left right).effect world checked state =
      match state.env name with
      | .scalar value => .ok () { state with
          env := assignVariable state.env name (.scalar (value + Int32.ofInt delta.toInt)) }
      | .ref _ => .error .mismatch state := by
  rcases increment?_eq_some found with ⟨destName, destInt, operands⟩
  have written (value : Word) : dest.write checked (.scalar value) state =
      .ok () { state with env := assignVariable state.env name (.scalar value) } := by
    have destIntLike : dest.ty.isIntLike = true := by rw [Ty.isIntLike, destInt, Bool.true_or]
    rw [write_of_varName? destName, accept_scalar fun _ => destIntLike]
    rfl
  have constantEq (amount : Int32) :
      (Value.int amount).read world checked state = .ok (.int amount) := rfl
  rcases operands with ⟨leftName, amount, rfl, deltaEq⟩ | ⟨rightName, rfl, amount, rfl, deltaEq⟩
  · have leftEq := read_of_varName? leftName world checked state
    cases held : state.env name with
    | scalar value =>
        rw [held, accept_scalar fun isChecked => (intLike isChecked).1] at leftEq
        rw [effect_binary leftEq (constantEq amount), binary_of_incrementDelta? deltaEq]
        exact written _
    | ref value =>
        rw [held] at leftEq
        rcases accept_ref checked left.ty value with accepted | refused
        · rw [effect_binary (leftEq.trans accepted) (constantEq amount)]
          rfl
        · simp only [ThreeAddress.Instr.effect, Value.fetch, bind_apply, get_apply, leftEq,
            refused, attempt_error]
  · have rightEq := read_of_varName? rightName world checked state
    cases held : state.env name with
    | scalar value =>
        rw [held, accept_scalar fun isChecked => (intLike isChecked).2] at rightEq
        have swapped : Val.binary (.arith .add) (.int amount) (.scalar value) =
            Val.binary (.arith .add) (.scalar value) (.int amount : Val Word) :=
          congrArg (fun sum => Except.ok (Val.scalar sum)) (Int32.add_comm amount value)
        rw [effect_binary (constantEq amount) rightEq, swapped,
          binary_of_incrementDelta? deltaEq]
        exact written _
    | ref value =>
        rw [held] at rightEq
        rcases accept_ref checked right.ty value with accepted | refused
        · rw [effect_binary (constantEq amount) (rightEq.trans accepted)]
          rfl
        · simp only [ThreeAddress.Instr.effect, Value.fetch, bind_apply, get_apply, constantEq,
            attempt_ok, rightEq, refused, attempt_error]

/-- An increment realizes the instruction for which it is emitted. -/
theorem realizes_increment {dest left right : Value} {op : BinaryOp} {name : String}
    {delta : Int8} (found : increment? dest op left right = some (name, delta))
    (member : name ∈ host.names) (respects : host.method.isStatic = true ∨ name ≠ "this")
    (intLike : host.checked = true → left.ty.isIntLike = true ∧ right.ty.isIntLike = true) :
    host.Realizes [.instr (.increment (host.names.idxOf name) delta)] []
      ((ThreeAddress.Instr.binary dest op left right).effect host.world host.checked)
      fun _ => [] := by
  refine .instr (by trivial) fun state slots memory base mirrors => ?_
  rw [effect_of_increment? found intLike]
  have slotEq : slots (host.names.idxOf name) = state.env name :=
    mirrors.slot_eq name member respects
  simp only [Instr.perform, bind_apply, get_apply]
  rw [slotEq]
  cases state.env name with
  | scalar value => exact ⟨_, rfl, mirrors.setSlot member respects _, rfl⟩
  | ref value => exact ⟨_, rfl, mirrors⟩

end Host

end ClassCompiler.StackCode
