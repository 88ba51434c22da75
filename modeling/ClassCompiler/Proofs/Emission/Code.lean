import ClassCompiler.StackCode.OfInstr

/-!
# The code of an instruction

What is emitted for an instruction depends on the names that have slots, in slot
order, on the numbers of the next comparisons, and on nothing else. This module
states it as plain functions: the lines, the height to which they raise an empty
operand stack, the counts of comparisons afterwards, and the condition under which
there is any code at all.
-/

namespace ClassCompiler.StackCode

open ThreeAddress (Value Call)

/-- Lines of stack code. -/
abbrev Lines := List (Line Instr)

/-! ## Types -/

/-- The category of the values of a type. -/
def valueCategory (ty : Ty) : Category := if ty.isIntLike then .int else .ref

/-- A type has a descriptor unless it is an array of `void`. -/
def Describable (ty : Ty) : Prop := ty.isArray = true → ty.name ≠ "void"

/-- A type describes a parameter if it has a descriptor and is not `void`. -/
def IsParameter (ty : Ty) : Prop := ty.isVoid = false ∧ Describable ty

/-- A type has members if it is the type of single objects. -/
def HasMembers (ty : Ty) : Prop :=
  ty.isArray = false ∧ (ty.isPrimitive = true → ty.name = "String")

instance (ty : Ty) : Decidable (Describable ty) :=
  inferInstanceAs (Decidable (ty.isArray = true → ty.name ≠ "void"))

instance (ty : Ty) : Decidable (IsParameter ty) :=
  inferInstanceAs (Decidable (ty.isVoid = false ∧ Describable ty))

instance (ty : Ty) : Decidable (HasMembers ty) :=
  inferInstanceAs (Decidable (ty.isArray = false ∧ (ty.isPrimitive = true → ty.name = "String")))

/-- The descriptor of a type that has one. -/
def ClassPaths.descriptorOf (paths : ClassPaths) (ty : Ty) : Descriptor :=
  if ty.isArray then .array (paths.baseDescriptor ty.name) else paths.baseDescriptor ty.name

/-- The descriptor of a method whose types have descriptors. -/
def ClassPaths.signatureOf (paths : ClassPaths) (params : List Ty) (result : Ty) :
    MethodDescriptor :=
  ⟨params.map paths.descriptorOf, paths.descriptorOf result⟩

/-- The elements of a new array of a type. -/
def Linkage.elementOf (linkage : Linkage) (arrayTy : Ty) : ArrayElement :=
  if arrayTy.element.isInt then .int
  else if arrayTy.element.isBoolean then .boolean
  else .object (linkage.paths.classPath arrayTy.name)

/-! ## Values -/

section

variable (names : List String)

/-- The code that pushes a value. -/
def loadCode : Value → Lines
  | .const (.int value) => [.instr (.pushInt value)]
  | .const (.bool value) => [.instr (pushBool value)]
  | .const (.string value) => [.instr (.pushString value)]
  | .self _ => [.instr (.load .ref 0)]
  | .temp name ty | .var name ty => [.instr (.load (valueCategory ty) (names.idxOf name))]
  | .element array position ty =>
      loadCode array ++ loadCode position ++ [.instr (.arrayLoad (elementKindOf ty))]
  | .classRef _ => []

/-- Values that can be pushed. -/
def Loadable : Value → Prop
  | .temp name ty | .var name ty => name ∈ names ∧ ty.isVoid = false
  | .element array position _ => Loadable array ∧ Loadable position
  | .classRef _ => False
  | _ => True

/-- The code that pushes values from left to right. -/
def loadsCode (values : List Value) : Lines := values.flatMap (loadCode names)

/-- The code that pops a value into a variable. -/
def storeCode : Value → Lines
  | .temp name ty | .var name ty => [.instr (.store (valueCategory ty) (names.idxOf name))]
  | _ => []

/-- Values into which can be popped. -/
def Storable : Value → Prop
  | .temp name ty | .var name ty => name ∈ names ∧ ty.isVoid = false
  | _ => False

instance decidableLoadable : (value : Value) → Decidable (Loadable names value)
  | .temp name ty | .var name ty => inferInstanceAs (Decidable (name ∈ names ∧ ty.isVoid = false))
  | .element array position _ =>
      @instDecidableAnd _ _ (decidableLoadable array) (decidableLoadable position)
  | .classRef _ => isFalse id
  | .const _ | .self _ => isTrue trivial

instance decidableStorable : (value : Value) → Decidable (Storable names value)
  | .temp name ty | .var name ty => inferInstanceAs (Decidable (name ∈ names ∧ ty.isVoid = false))
  | .element _ _ _ | .classRef _ | .const _ | .self _ => isFalse id

end

/-- How far pushing a value raises the stack. -/
def loadHeight : Value → Nat
  | .element array position _ => max (loadHeight array) (loadHeight position + 1)
  | _ => 1

/-- How far pushing values raises the stack. -/
def loadsHeight : List Value → Nat
  | [] => 0
  | value :: rest => max (loadHeight value) (loadsHeight rest + 1)

theorem one_le_loadHeight (value : Value) : 1 ≤ loadHeight value := by
  induction value with
  | element array position ty arrayHeight _ => exact Nat.le_trans arrayHeight (Nat.le_max_left _ _)
  | _ => exact Nat.le_refl 1

theorem length_le_loadsHeight (values : List Value) : values.length ≤ loadsHeight values := by
  induction values with
  | nil => exact Nat.le_refl 0
  | cons value rest ih =>
      exact Nat.le_trans (Nat.succ_le_succ ih) (Nat.le_max_right _ _)

/-! ## Operations -/

/-- The amount of an increment is the constant that is added, or the one that is
subtracted with the other sign. -/
theorem toInt_incrementDelta? {op : BinaryOp} {value : Int32} {delta : Int8}
    (found : incrementDelta? op value = some delta) :
    (op = .arith .add ∧ delta.toInt = value.toInt) ∨
      (op = .arith .sub ∧ delta.toInt = -value.toInt) := by
  have inRange {amount : Int} (fits : (if -128 ≤ amount ∧ amount ≤ 127 then some (Int8.ofInt amount)
      else none) = some delta) : delta.toInt = amount := by
    by_cases bounds : -128 ≤ amount ∧ amount ≤ 127
    · rw [if_pos bounds] at fits
      cases fits
      exact Int8.toInt_ofInt_of_le (by omega) (by omega)
    · rw [if_neg bounds] at fits
      cases fits
  cases op with
  | and => cases found
  | compare kind => cases found
  | arith op =>
      cases op with
      | add => exact .inl ⟨rfl, inRange found⟩
      | sub => exact .inr ⟨rfl, inRange found⟩
      | mul => cases found
      | div => cases found

/-- What an increment replaces: the destination is an integer variable, and a
constant is added to it or subtracted from it. -/
theorem increment?_eq_some {dest left right : Value} {op : BinaryOp} {name : String} {delta : Int8}
    (found : increment? dest op left right = some (name, delta)) :
    dest.varName? = some name ∧ dest.ty.isInt = true ∧
      ((left.varName? = some name ∧ ∃ value, right = .int value ∧
          incrementDelta? op value = some delta) ∨
        (right.varName? = some name ∧ op = .arith .add ∧ ∃ value, left = .int value ∧
          incrementDelta? op value = some delta)) := by
  have isConstant {operand : Value} {value : Int32} (constant : operand.asInt? = some value) :
      operand = .int value := by
    unfold Value.asInt? at constant
    split at constant
    · cases constant
      rfl
    · cases constant
  unfold increment? at found
  split at found
  · cases found
  · next destName destNameEq =>
    split at found
    · next isInt =>
      simp only [Option.map_eq_some_iff, Option.bind_eq_some_iff, Prod.mk.injEq] at found
      rcases found with ⟨_, ⟨value, amountEq, deltaEq⟩, rfl, rfl⟩
      refine ⟨destNameEq, isInt, ?_⟩
      split at amountEq
      · next leftName => exact .inl ⟨leftName, value, isConstant amountEq, deltaEq⟩
      · split at amountEq
        · next rightName =>
          exact .inr ⟨rightName.1, rightName.2, value, isConstant amountEq, deltaEq⟩
        · cases amountEq
    · cases found

theorem exists_arith_of_increment? {dest left right : Value} {op : BinaryOp}
    {increment : String × Int8} (found : increment? dest op left right = some increment) :
    ∃ arith, op = .arith arith := by
  rcases increment?_eq_some found with ⟨_, _, ⟨_, _, _, deltaEq⟩ | ⟨_, opEq, _⟩⟩
  · rcases toInt_incrementDelta? deltaEq with ⟨opEq, _⟩ | ⟨opEq, _⟩
    · exact ⟨_, opEq⟩
    · exact ⟨_, opEq⟩
  · exact ⟨_, opEq⟩

/-- The code that turns two integers into the truth value of a comparison. -/
def comparisonCode (kind : Comparison) (number : Nat) : Lines :=
  [.instr (.arith .sub), .instr (.branch kind (trueLabel kind number)), .instr (.pushInt 0),
    .instr (.goto (endLabel kind number)), .label (trueLabel kind number), .instr (.pushInt 1),
    .label (endLabel kind number)]

/-- The code of an operator on the two values on top of the stack. -/
def operatorCode (counts : ComparisonCounts) : BinaryOp → Lines
  | .arith op => [.instr (.arith op)]
  | .and => [.instr .and]
  | .compare kind => comparisonCode kind (counts.next kind)

/-- The counts after the code of an operator. -/
def operatorCounts (counts : ComparisonCounts) : BinaryOp → ComparisonCounts
  | .compare kind => counts.skip kind
  | _ => counts

/-! ## Calls -/

/-- The path of the class whose method an invocation names. -/
def Linkage.ownerOf (linkage : Linkage) : ThreeAddress.InvokeMode → Value → String
  | .static, .classRef name => linkage.paths.classPath name
  | .special, .self _ => linkage.superPath
  | _, target => linkage.paths.classPath target.ty.name

/-- Targets on which a method can be invoked. -/
def IsTarget : ThreeAddress.InvokeMode → Value → Prop
  | .static, target => ∃ name, target = .classRef name
  | .special, .self _ => True
  | _, target => HasMembers target.ty

instance (mode : ThreeAddress.InvokeMode) (target : Value) : Decidable (IsTarget mode target) :=
  match mode, target with
  | .static, .classRef name => isTrue ⟨name, rfl⟩
  | .static, .temp _ _ | .static, .var _ _ | .static, .const _ | .static, .self _
  | .static, .element _ _ _ => isFalse nofun
  | .special, .self _ => isTrue trivial
  | .special, .temp _ _ | .special, .var _ _ | .special, .const _ | .special, .classRef _
  | .special, .element _ _ _ | .virtual, _ => inferInstanceAs (Decidable (HasMembers _))

/-- What an invocation pushes: the receiver unless it is static, and the arguments. -/
def operandsOf (mode : ThreeAddress.InvokeMode) (target : Value) (args : List Value) :
    List Value :=
  if mode = .static then args else target :: args

/-- The class of a new object. -/
def createdClass (call : Call) : String :=
  match call.target with
  | some (.classRef name) => name
  | _ => call.returnTy.name

section

variable (linkage : Linkage) (names : List String)

/-- The code of a call up to its result. -/
def callCode (call : Call) : Lines :=
  match call.invocation, call.target, call.method, call.args with
  | .new, _, _, _ => [.instr (.new (linkage.paths.classPath (createdClass call)))]
  | .newArray, _, _, size :: _ =>
      loadCode names size ++ [.instr (.newArray (linkage.elementOf call.returnTy))]
  | .arrayLength, some array, _, _ => loadCode names array ++ [.instr .arrayLength]
  | .invoke mode, some target, some method, args =>
      loadsCode names (operandsOf mode target args) ++
        [.instr (.invoke mode (linkage.ownerOf mode target) method
          (linkage.paths.signatureOf (args.map Value.ty) call.returnTy))]
  | _, _, _, _ => []

/-- Calls for which there is code. -/
def Callable (call : Call) : Prop :=
  match call.invocation, call.target, call.method, call.args with
  | .new, _, _, _ => True
  | .newArray, _, _, size :: _ => Loadable names size ∧ call.returnTy.element.isVoid = false
  | .arrayLength, some array, _, _ => Loadable names array
  | .invoke mode, some target, some _, args =>
      IsTarget mode target ∧ (∀ value ∈ operandsOf mode target args, Loadable names value) ∧
        (∀ value ∈ args, IsParameter value.ty) ∧ Describable call.returnTy
  | _, _, _, _ => False

/-- Whether a call leaves a value on the stack. -/
def leavesValue (call : Call) : Bool :=
  match call.invocation with
  | .invoke _ => call.returnsValue
  | _ => true

/-- How far a call raises the stack. -/
def callHeight (call : Call) : Nat :=
  match call.invocation, call.target, call.args with
  | .new, _, _ => 1
  | .newArray, _, size :: _ => loadHeight size
  | .arrayLength, some array, _ => loadHeight array
  | .invoke mode, some target, args =>
      max (loadsHeight (operandsOf mode target args)) (if call.returnsValue then 1 else 0)
  | _, _, _ => 0

/-- The code that stores or drops the result of a call. -/
def resultCode (dest : Option Value) (call : Call) : Lines :=
  match dest with
  | some dest => storeCode names dest
  | none => if call.returnsValue then [.instr .pop] else []

/-- A result can be stored if there is one, and always be dropped. -/
def Receivable (dest : Option Value) (call : Call) : Prop :=
  match dest with
  | some dest => leavesValue call = true ∧ Storable names dest
  | none => True

instance (call : Call) : Decidable (Callable names call) := by
  unfold Callable
  split <;> infer_instance

instance (dest : Option Value) (call : Call) : Decidable (Receivable names dest call) :=
  match dest with
  | some dest => inferInstanceAs (Decidable (leavesValue call = true ∧ Storable names dest))
  | none => isTrue trivial

end

/-! ## Instructions -/

section

variable (linkage : Linkage) (isMain : Bool) (names : List String)

/-- The lines of an instruction. -/
def instrCode (counts : ComparisonCounts) : ThreeAddress.Instr → Lines
  | .assign (.element array position ty) value =>
      loadsCode names [array, position, value] ++ [.instr (.arrayStore (elementKindOf ty))]
  | .assign dest value => loadCode names value ++ storeCode names dest
  | .binary dest op left right =>
      match increment? dest op left right with
      | some (name, delta) => [.instr (.increment (names.idxOf name) delta)]
      | none => loadsCode names [left, right] ++ operatorCode counts op ++ storeCode names dest
  | .not dest operand =>
      loadCode names operand ++ [.instr (.pushInt 1), .instr .xor] ++ storeCode names dest
  | .getField dest object field ty =>
      loadCode names object ++ [.instr (.getField (linkage.paths.classPath object.ty.name) field
        (linkage.paths.descriptorOf ty))] ++ storeCode names dest
  | .putField object field value =>
      loadsCode names [object, value] ++ [.instr (.putField
        (linkage.paths.classPath object.ty.name) field (linkage.paths.descriptorOf value.ty))]
  | .call dest call => callCode linkage names call ++ resultCode names dest call
  | .ret (some value) =>
      if isMain then [.instr (.ret none)]
      else loadCode names value ++
        [.instr (.ret (if value.ty.isVoid then none else some (valueCategory value.ty)))]
  | .ret none => [.instr (.ret none)]
  | .goto target => [.instr (.goto target)]
  | .branch cond target => loadCode names cond ++ [.instr (.branch .notEqual target)]
  | .label name => [.label name]

/-- Instructions for which there is code. -/
def HasCode : ThreeAddress.Instr → Prop
  | .assign (.element array position _) value =>
      Loadable names array ∧ Loadable names position ∧ Loadable names value
  | .assign dest value => Loadable names value ∧ Storable names dest
  | .binary dest op left right =>
      match increment? dest op left right with
      | some (name, _) => name ∈ names
      | none => Loadable names left ∧ Loadable names right ∧ Storable names dest
  | .not dest operand => Loadable names operand ∧ Storable names dest
  | .getField dest object _ ty =>
      Loadable names object ∧ HasMembers object.ty ∧ Describable ty ∧ Storable names dest
  | .putField object _ value =>
      Loadable names object ∧ Loadable names value ∧ HasMembers object.ty ∧ Describable value.ty
  | .call dest call => Callable names call ∧ Receivable names dest call
  | .ret (some value) => isMain = true ∨ Loadable names value
  | .branch cond _ => Loadable names cond
  | _ => True

/-- How far an instruction raises the stack. -/
def instrHeight : ThreeAddress.Instr → Nat
  | .assign (.element array position _) value => loadsHeight [array, position, value]
  | .assign _ value => loadHeight value
  | .binary dest op left right =>
      if (increment? dest op left right).isSome then 0 else loadsHeight [left, right]
  | .not _ operand => max (loadHeight operand) 2
  | .getField _ object _ _ => loadHeight object
  | .putField object _ value => loadsHeight [object, value]
  | .call _ call => callHeight call
  | .ret (some value) => if isMain then 0 else loadHeight value
  | .branch cond _ => loadHeight cond
  | _ => 0

/-- How many values an instruction leaves on the stack: a result that is dropped
goes unnoticed if its type says that there is none. -/
def leftOver : ThreeAddress.Instr → Nat
  | .call none call => if leavesValue call ∧ call.returnsValue = false then 1 else 0
  | _ => 0

/-- Instructions for which there is code that leaves the stack empty. -/
def Emittable (instr : ThreeAddress.Instr) : Prop := HasCode isMain names instr ∧ leftOver instr = 0

instance (instr : ThreeAddress.Instr) : Decidable (Emittable isMain names instr) := by
  unfold Emittable HasCode
  split <;> (try split) <;> infer_instance

/-- The counts after an instruction. -/
def instrCounts (counts : ComparisonCounts) : ThreeAddress.Instr → ComparisonCounts
  | .binary _ op _ _ => operatorCounts counts op
  | _ => counts

/-! ## Bodies -/

/-- The lines of a body. -/
def bodyCode (counts : ComparisonCounts) : ThreeAddress.Code → Lines
  | [] => []
  | instr :: rest =>
      instrCode linkage isMain names counts instr ++ bodyCode (instrCounts counts instr) rest

/-- How far a body raises the stack. -/
def bodyHeight : ThreeAddress.Code → Nat
  | [] => 0
  | instr :: rest => max (instrHeight isMain instr) (bodyHeight rest)

/-- The counts after a body. -/
def bodyCounts (counts : ComparisonCounts) (body : ThreeAddress.Code) : ComparisonCounts :=
  body.foldl instrCounts counts

end

section

variable {linkage : Linkage} {isMain : Bool} {names : List String} {counts : ComparisonCounts}

theorem bodyCode_append (first second : ThreeAddress.Code) :
    bodyCode linkage isMain names counts (first ++ second) =
      bodyCode linkage isMain names counts first ++
        bodyCode linkage isMain names (bodyCounts counts first) second := by
  induction first generalizing counts with
  | nil => rfl
  | cons instr rest ih =>
      rw [List.cons_append, bodyCode, bodyCode, ih, List.append_assoc]
      rfl

/-- The code of a body is that of its instructions before a place, of the one there,
and of those behind. -/
theorem bodyCode_split {body : ThreeAddress.Code} {place : Nat} {instr : ThreeAddress.Instr}
    (atPlace : body[place]? = some instr) :
    bodyCode linkage isMain names counts body =
      bodyCode linkage isMain names counts (body.take place) ++
        (instrCode linkage isMain names (bodyCounts counts (body.take place)) instr ++
          bodyCode linkage isMain names (bodyCounts counts (body.take (place + 1)))
            (body.drop (place + 1))) := by
  rcases List.getElem?_eq_some_iff.mp atPlace with ⟨bound, rfl⟩
  have countsEq : instrCounts (bodyCounts counts (body.take place)) body[place] =
      bodyCounts counts (body.take (place + 1)) := by
    rw [bodyCounts, bodyCounts, List.take_add_one, List.getElem?_eq_getElem bound,
      Option.toList_some, List.foldl_append]
    rfl
  rw [← countsEq]
  conv => lhs; rw [← List.take_append_drop place body, List.drop_eq_getElem_cons bound]
  rw [bodyCode_append, bodyCode]

end

end ClassCompiler.StackCode
