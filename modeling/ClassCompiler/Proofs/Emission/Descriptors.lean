import ClassCompiler.Proofs.Assembly.RoundTrip
import ClassCompiler.Proofs.Emission.Instructions
import Mathlib.Data.List.Forall2

/-!
# Reading method descriptors

The grammar of descriptors writes the types of the parameters one after the other, without
separators. It is unambiguous all the same: no written type is the beginning of another. So
a descriptor is read in one way, with one type for each parameter, and the operands of an
invocation can be counted from the text of its descriptor.
-/

namespace ClassCompiler.StackCode

open Effects Emission
open ThreeAddress (Value Call InvokeMode)

/-! ## Grammar -/

/-- The types that are written as one letter. -/
inductive LetterType where
  | byte | char | double | float | int | long | short | boolean
deriving DecidableEq, Repr

/-- The letter of a type. -/
def LetterType.letter : LetterType → Char
  | .byte => 'B'
  | .char => 'C'
  | .double => 'D'
  | .float => 'F'
  | .int => 'I'
  | .long => 'J'
  | .short => 'S'
  | .boolean => 'Z'

/-- A path that ends at the first semicolon behind it. -/
def ObjectPath : Type := { path : List Char // ';' ∉ path }

/-- The parse trees of field descriptors. -/
inductive FieldType where
  | letter (type : LetterType)
  | object (path : ObjectPath)
  | array (elem : FieldType)

/-- The written form of a field descriptor. -/
def FieldType.text : FieldType → List Char
  | .letter type => [type.letter]
  | .object path => 'L' :: (path.val ++ [';'])
  | .array elem => '[' :: elem.text

/-- The parse trees of method descriptors. A method without a result has none. -/
structure MethodType where
  params : List FieldType
  result : Option FieldType

/-- The written form of a result. -/
def MethodType.resultText (type : MethodType) : List Char := type.result.elim ['V'] FieldType.text

/-- The written form of a method descriptor. -/
def MethodType.text (type : MethodType) : List Char :=
  '(' :: (type.params.flatMap FieldType.text ++ ')' :: type.resultText)

/-! ## The grammar is unambiguous -/

theorem LetterType.letter_injective : Function.Injective LetterType.letter := by
  intro first second same
  cases first <;> cases second <;> first | rfl | cases same

theorem LetterType.letter_ne (type : LetterType) :
    (type.letter ≠ 'L' ∧ type.letter ≠ '[') ∧ type.letter ≠ ')' ∧ type.letter ≠ 'V' := by
  cases type <;> decide

/-- The first character of a field descriptor. -/
def FieldType.mark : FieldType → Char
  | .letter type => type.letter
  | .object _ => 'L'
  | .array _ => '['

theorem FieldType.head?_text_append (type : FieldType) (rest : List Char) :
    (type.text ++ rest).head? = some type.mark := by
  cases type <;> rfl

theorem FieldType.mark_eq_of_append {first second : FieldType} {rest other : List Char}
    (same : first.text ++ rest = second.text ++ other) : first.mark = second.mark := by
  have marks := congrArg List.head? same
  rwa [head?_text_append, head?_text_append, Option.some.injEq] at marks

/-- A field descriptor begins neither like the end of the parameters nor like a missing
result. -/
theorem FieldType.mark_ne (type : FieldType) : type.mark ≠ ')' ∧ type.mark ≠ 'V' := by
  cases type with
  | letter type => exact type.letter_ne.2
  | object path => simp [mark]
  | array elem => simp [mark]

/-- A path ends where its semicolon stands. -/
theorem ObjectPath.append_inj {first second : ObjectPath} {rest other : List Char}
    (same : first.val ++ ';' :: rest = second.val ++ ';' :: other) :
    first = second ∧ rest = other := by
  have paths := congrArg (List.takeWhile (· ≠ ';')) same
  rw [takeWhile_ne_append first.property, takeWhile_ne_append second.property] at paths
  rw [paths] at same
  exact ⟨Subtype.ext paths, (List.cons.inj (List.append_cancel_left same)).2⟩

/-- A field descriptor determines its tree and its end in a longer text. -/
theorem FieldType.text_append_inj {first second : FieldType} {rest other : List Char}
    (same : first.text ++ rest = second.text ++ other) : first = second ∧ rest = other := by
  -- The first character tells the form of both trees.
  induction first generalizing second with
  | letter type =>
      have marks := mark_eq_of_append same
      cases second with
      | letter second =>
          cases LetterType.letter_injective marks
          exact ⟨rfl, (List.cons.inj same).2⟩
      | object path => exact absurd marks type.letter_ne.1.1
      | array elem => exact absurd marks type.letter_ne.1.2
  | object path =>
      have marks := mark_eq_of_append same
      cases second with
      | letter second => exact absurd marks.symm second.letter_ne.1.1
      | object second =>
          have tails : path.val ++ ';' :: rest = second.val ++ ';' :: other := by
            simpa [text] using same
          rcases ObjectPath.append_inj tails with ⟨rfl, restEq⟩
          exact ⟨rfl, restEq⟩
      | array elem => cases marks
  | array elem ih =>
      have marks := mark_eq_of_append same
      cases second with
      | letter second => exact absurd marks.symm second.letter_ne.1.2
      | object path => cases marks
      | array second =>
          rcases ih (List.cons.inj same).2 with ⟨rfl, restEq⟩
          exact ⟨rfl, restEq⟩

/-- Parameters end at the first parenthesis that is not part of a type. -/
theorem flatMap_text_inj {first second : List FieldType} {rest other : List Char}
    (same : first.flatMap FieldType.text ++ ')' :: rest =
      second.flatMap FieldType.text ++ ')' :: other) :
    first = second ∧ rest = other := by
  induction first generalizing second with
  | nil =>
      cases second with
      | nil => exact ⟨rfl, (List.cons.inj same).2⟩
      | cons type types =>
          have marks := congrArg List.head? same
          rw [List.flatMap_cons, List.append_assoc, FieldType.head?_text_append] at marks
          exact absurd (Option.some.inj marks).symm type.mark_ne.1
  | cons type types ih =>
      rw [List.flatMap_cons, List.append_assoc] at same
      cases second with
      | nil =>
          have marks := congrArg List.head? same
          rw [FieldType.head?_text_append] at marks
          exact absurd (Option.some.inj marks) type.mark_ne.1
      | cons second seconds =>
          rw [List.flatMap_cons, List.append_assoc] at same
          rcases FieldType.text_append_inj same with ⟨rfl, restEq⟩
          rcases ih restEq with ⟨rfl, otherEq⟩
          exact ⟨rfl, otherEq⟩

theorem elim_text_inj {first second : Option FieldType}
    (same : first.elim ['V'] FieldType.text = second.elim ['V'] FieldType.text) :
    first = second := by
  have missing (type : FieldType) : ['V'] ≠ type.text := by
    intro textEq
    have marks := type.head?_text_append []
    rw [← textEq] at marks
    exact type.mark_ne.2 (Option.some.inj marks).symm
  cases first with
  | none =>
      cases second with
      | none => rfl
      | some second => exact absurd same (missing second)
  | some first =>
      cases second with
      | none => exact absurd same.symm (missing first)
      | some second =>
          have texts : first.text ++ [] = second.text ++ [] := congrArg (· ++ []) same
          exact congrArg some (FieldType.text_append_inj texts).1

/-- A method descriptor is read in at most one way. -/
theorem MethodType.text_injective : Function.Injective MethodType.text := by
  intro first second same
  rcases flatMap_text_inj (List.cons.inj same).2 with ⟨paramsEq, resultEq⟩
  cases first
  cases second
  cases paramsEq
  cases elim_text_inj resultEq
  rfl

/-! ## Types with descriptors -/

/-- The path of a class, where a type names one, has no semicolon. -/
def HasCleanPath (paths : ClassPaths) (ty : Ty) : Prop :=
  ty.isPrimitive = false → ';' ∉ (paths.classPath ty.name).toList

instance (paths : ClassPaths) (ty : Ty) : Decidable (HasCleanPath paths ty) :=
  inferInstanceAs (Decidable (ty.isPrimitive = false → ';' ∉ (paths.classPath ty.name).toList))

theorem isParameter_iff (ty : Ty) : IsParameter ty ↔ ty.name ≠ "void" := by
  rcases ty with ⟨name, shape⟩
  cases shape <;> simp [IsParameter, Describable, Ty.isVoid, Ty.isArray, Ty.void, Ty.named]

/-- The single values of a type are described by a tree. -/
theorem exists_text_baseDescriptor {paths : ClassPaths} {ty : Ty} (notVoid : ty.name ≠ "void")
    (clean : HasCleanPath paths ty) :
    ∃ type : FieldType, type.text = (paths.baseDescriptor ty.name).text.toList := by
  rw [ClassPaths.baseDescriptor]
  by_cases isInt : ty.name = "int"
  · rw [if_pos isInt]
    exact ⟨.letter .int, rfl⟩
  · rw [if_neg isInt]
    by_cases isBoolean : ty.name = "boolean"
    · rw [if_pos isBoolean]
      exact ⟨.letter .boolean, rfl⟩
    · rw [if_neg isBoolean, if_neg notVoid]
      by_cases isString : ty.name = "String"
      · rw [if_pos isString]
        exact ⟨.object ⟨ClassPaths.stringPath.toList, by decide⟩, by decide⟩
      · rw [if_neg isString]
        have absent := clean (by simp [Ty.isPrimitive, isInt, isBoolean, notVoid, isString])
        exact ⟨.object ⟨_, absent⟩, by simp [FieldType.text, Descriptor.text]⟩

/-- A tree has the text of the descriptor of a type. -/
def FieldType.Describes (type : FieldType) (paths : ClassPaths) (ty : Ty) : Prop :=
  ∃ found, paths.descriptor ty = .ok found ∧ type.text = found.text.toList

theorem FieldType.Describes.text_eq {type : FieldType} {paths : ClassPaths} {ty : Ty}
    (describes : type.Describes paths ty) :
    type.text = (paths.descriptorOf ty).text.toList := by
  obtain ⟨found, described, textEq⟩ := describes
  rw [textEq, ((descriptor_eq_ok_iff paths ty found).mp described).2]

/-- The type of a parameter is described by a tree. -/
theorem exists_describes {paths : ClassPaths} {ty : Ty} (notVoid : ty.name ≠ "void")
    (clean : HasCleanPath paths ty) : ∃ type : FieldType, type.Describes paths ty := by
  obtain ⟨type, textEq⟩ := exists_text_baseDescriptor notVoid clean
  by_cases isArray : ty.isArray = true
  · refine ⟨.array type, .array (paths.baseDescriptor ty.name), ?_, ?_⟩
    · rw [ClassPaths.descriptor, if_pos isArray, if_neg notVoid]
    · simp [FieldType.text, textEq, Descriptor.text]
  · refine ⟨type, paths.baseDescriptor ty.name, ?_, textEq⟩
    rw [ClassPaths.descriptor, if_neg isArray]

/-- The types of parameters are described by trees, one for each. -/
theorem exists_forall₂_describes {paths : ClassPaths} {tys : List Ty}
    (notVoid : ∀ ty ∈ tys, ty.name ≠ "void") (clean : ∀ ty ∈ tys, HasCleanPath paths ty) :
    ∃ types : List FieldType, List.Forall₂ (FieldType.Describes · paths ·) types tys := by
  induction tys with
  | nil => exact ⟨[], .nil⟩
  | cons ty rest ih =>
      rw [List.forall_mem_cons] at notVoid clean
      obtain ⟨type, describes⟩ := exists_describes notVoid.1 clean.1
      obtain ⟨types, describeRest⟩ := ih notVoid.2 clean.2
      exact ⟨type :: types, .cons describes describeRest⟩

theorem flatMap_text_eq_join {paths : ClassPaths} {types : List FieldType} {tys : List Ty}
    (describe : List.Forall₂ (FieldType.Describes · paths ·) types tys) :
    types.flatMap FieldType.text =
      (String.join ((tys.map paths.descriptorOf).map Descriptor.text)).toList := by
  induction describe with
  | nil => rfl
  | cons describes _ ih =>
      rw [List.flatMap_cons, List.map_cons, List.map_cons, String.join_cons,
        String.toList_append, describes.text_eq, ih]

theorem descriptor_void (paths : ClassPaths) : paths.descriptor Ty.void = .ok .void := by
  rw [ClassPaths.descriptor, if_neg (by decide), ClassPaths.baseDescriptor, if_neg (by decide),
    if_neg (by decide)]
  exact congrArg Except.ok (if_pos rfl)

/-- The type of a result is described by a tree, or is `void`. -/
theorem exists_result {paths : ClassPaths} {ty : Ty} (describable : Describable ty)
    (clean : HasCleanPath paths ty) :
    ∃ type : Option FieldType, type.isSome = !ty.isVoid ∧
      ∃ found, paths.descriptor ty = .ok found ∧
        type.elim ['V'] FieldType.text = found.text.toList := by
  by_cases isVoid : ty.isVoid = true
  · have tyEq : ty = Ty.void := by simpa [Ty.isVoid] using isVoid
    subst tyEq
    exact ⟨none, rfl, .void, descriptor_void paths, rfl⟩
  · have isParameter : IsParameter ty := ⟨by simpa using isVoid, describable⟩
    obtain ⟨type, describes⟩ := exists_describes ((isParameter_iff ty).mp isParameter) clean
    exact ⟨some type, by simp [isVoid], describes⟩

/-! ## Method descriptors -/

/-- A tree is how the descriptor of a method is read: it is the only tree with that text,
it has one type for each parameter, in order, each with the descriptor of the parameter, and
its result is the descriptor of the result. -/
structure MethodDescriptor.ReadAs (descriptor : MethodDescriptor) (paths : ClassPaths)
    (params : List Ty) (result : Ty) (type : MethodType) : Prop where
  text_eq_iff : ∀ other : MethodType, other.text = descriptor.text.toList ↔ other = type
  params : List.Forall₂ (FieldType.Describes · paths ·) type.params params
  result : ∃ found, paths.descriptor result = .ok found ∧
    type.resultText = found.text.toList

/-- The descriptor of a method is read in one way. -/
theorem exists_readAs {paths : ClassPaths} {params : List Ty} {result : Ty}
    {descriptor : MethodDescriptor}
    (described : paths.methodDescriptor params result = .ok descriptor)
    (clean : ∀ ty ∈ result :: params, HasCleanPath paths ty) :
    ∃ type : MethodType, descriptor.ReadAs paths params result type ∧
      type.result.isSome = !result.isVoid := by
  rcases (methodDescriptor_eq_ok_iff paths params result descriptor).mp described with
    ⟨⟨allParameters, describable⟩, rfl⟩
  rw [List.forall_mem_cons] at clean
  have notVoid (ty : Ty) (member : ty ∈ params) := (isParameter_iff ty).mp (allParameters ty member)
  obtain ⟨types, describe⟩ := exists_forall₂_describes notVoid clean.2
  obtain ⟨last, isSome, found, foundEq, lastEq⟩ := exists_result describable clean.1
  have textEq : (MethodType.mk types last).text =
      (paths.signatureOf params result).text.toList := by
    rw [toList_text, MethodDescriptor.tailText, MethodType.text, flatMap_text_eq_join describe,
      MethodType.resultText, lastEq, ((descriptor_eq_ok_iff paths result found).mp foundEq).2]
    rfl
  refine ⟨⟨types, last⟩, ⟨fun other => ?_, describe, found, foundEq, lastEq⟩, isSome⟩
  rw [← textEq, MethodType.text_injective.eq_iff]

/-! ### Types without descriptors -/

theorem descriptor_eq_error {paths : ClassPaths} {ty : Ty} {error : CompileError}
    (failed : paths.descriptor ty = .error error) :
    ty.name = "void" ∧ error = .noDescriptor ty := by
  rw [ClassPaths.descriptor] at failed
  by_cases isArray : ty.isArray = true
  · rw [if_pos isArray] at failed
    by_cases isVoid : ty.name = "void"
    · rw [if_pos isVoid] at failed
      exact ⟨isVoid, (Except.error.inj failed).symm⟩
    · rw [if_neg isVoid] at failed
      cases failed
  · rw [if_neg isArray] at failed
    cases failed

theorem paramDescriptor_eq_error {paths : ClassPaths} {ty : Ty} {error : CompileError}
    (failed : paths.paramDescriptor ty = .error error) :
    ty.name = "void" ∧ error = .noDescriptor ty := by
  rw [ClassPaths.paramDescriptor] at failed
  by_cases isVoid : ty.isVoid = true
  · rw [if_pos isVoid] at failed
    rw [Ty.isVoid, beq_iff_eq] at isVoid
    exact ⟨congrArg Ty.name isVoid, (Except.error.inj failed).symm⟩
  · rw [if_neg isVoid] at failed
    exact descriptor_eq_error failed

theorem mapM_paramDescriptor_eq_error {paths : ClassPaths} {tys : List Ty} {error : CompileError}
    (failed : tys.mapM paths.paramDescriptor = .error error) :
    ∃ ty ∈ tys, ty.name = "void" ∧ error = .noDescriptor ty := by
  induction tys with
  | nil => cases failed
  | cons ty rest ih =>
      rw [List.mapM_cons, except_bind_eq_error_iff] at failed
      rcases failed with first | ⟨_, _, failed⟩
      · exact ⟨ty, List.mem_cons_self, paramDescriptor_eq_error first⟩
      · rcases except_bind_eq_error_iff.mp failed with others | ⟨_, _, returned⟩
        · obtain ⟨ty, member, isVoid⟩ := ih others
          exact ⟨ty, List.mem_cons_of_mem _ member, isVoid⟩
        · cases returned

/-- A method without a descriptor has a type without a descriptor, which the error names. -/
theorem methodDescriptor_eq_error {paths : ClassPaths} {params : List Ty} {result : Ty}
    {error : CompileError} (failed : paths.methodDescriptor params result = .error error) :
    ∃ ty ∈ result :: params, ty.name = "void" ∧ error = .noDescriptor ty := by
  rw [ClassPaths.methodDescriptor, except_bind_eq_error_iff] at failed
  rcases failed with first | ⟨_, _, failed⟩
  · obtain ⟨ty, member, isVoid⟩ := mapM_paramDescriptor_eq_error first
    exact ⟨ty, List.mem_cons_of_mem _ member, isVoid⟩
  · rcases except_bind_eq_error_iff.mp failed with last | ⟨_, _, returned⟩
    · exact ⟨result, List.mem_cons_self, descriptor_eq_error last⟩
    · cases returned

/-- A method has no descriptor exactly if a parameter is `void` or an array of it, or the
result is an array of it. -/
theorem exists_methodDescriptor_eq_error_iff (paths : ClassPaths) (params : List Ty)
    (result : Ty) :
    (∃ error, paths.methodDescriptor params result = .error error) ↔
      (∃ ty ∈ params, ty.name = "void") ∨ (result.isArray = true ∧ result.name = "void") := by
  have exists_iff : (∃ descriptor, paths.methodDescriptor params result = .ok descriptor) ↔
      (∀ ty ∈ params, ty.name ≠ "void") ∧ (result.isArray = true → result.name ≠ "void") := by
    simp only [methodDescriptor_eq_ok_iff, isParameter_iff, Describable, exists_and_left,
      exists_eq, and_true]
  constructor
  · rintro ⟨error, failed⟩
    by_contra described
    rw [not_or, not_exists, not_and] at described
    obtain ⟨descriptor, found⟩ :=
      exists_iff.mpr ⟨fun ty member isVoid => described.1 ty ⟨member, isVoid⟩, described.2⟩
    rw [failed] at found
    cases found
  · intro undescribed
    cases found : paths.methodDescriptor params result with
    | error error => exact ⟨error, rfl⟩
    | ok descriptor =>
        obtain ⟨describedParams, describedResult⟩ := exists_iff.mp ⟨descriptor, found⟩
        rcases undescribed with ⟨ty, member, isVoid⟩ | ⟨isArray, isVoid⟩
        · exact absurd isVoid (describedParams ty member)
        · exact absurd isVoid (describedResult isArray)

/-! ## Invocations -/

/-- The operands of an invocation in front of its arguments. -/
def receiverCount (mode : InvokeMode) : Nat := if mode = .static then 0 else 1

theorem length_operandsOf (mode : InvokeMode) (target : Value) (args : List Value) :
    (operandsOf mode target args).length = args.length + receiverCount mode := by
  rw [operandsOf, receiverCount]
  split <;> rfl

theorem exists_pop_of_run {count : Nat} {emitter after : Emitter}
    (run : pop count emitter = .ok () after) :
    ∃ popped, emitter.frame.pop count = .ok popped ∧ after = { emitter with frame := popped } := by
  obtain ⟨_, _, getRun, run⟩ := bind_eq_ok_iff.mp run
  cases getRun
  obtain ⟨popped, _, attemptRun, run⟩ := bind_eq_ok_iff.mp run
  obtain ⟨poppedEq, rfl⟩ := eq_of_attempt_eq_ok attemptRun
  cases run
  exact ⟨popped, poppedEq, rfl⟩

/-- What an invocation does to the frame once its operands are pushed. -/
theorem exists_of_emitInvoke {linkage : Linkage} {mode : InvokeMode} {call : Call}
    {emitter after : Emitter} (run : emitInvoke linkage mode call emitter = .ok () after) :
    ∃ target owner method descriptor loaded popped,
      call.target = some target ∧
      loadValues (operandsOf mode target call.args) emitter = .ok () loaded ∧
      linkage.paths.methodDescriptor (call.args.map Value.ty) call.returnTy = .ok descriptor ∧
      (loaded.frame.emit (.invoke mode owner method descriptor)).pop
        (call.args.length + receiverCount mode) = .ok popped ∧
      after.frame = if call.returnsValue then popped.push 1 else popped := by
  cases methodEq : call.method with
  | none =>
      rw [emitInvoke, methodEq] at run
      cases run
  | some method =>
      cases targetEq : call.target with
      | none =>
          rw [emitInvoke, methodEq, targetEq] at run
          cases run
      | some target =>
          rw [emitInvoke_eq targetEq methodEq] at run
          obtain ⟨owner, _, ownerRun, run⟩ := bind_eq_ok_iff.mp run
          obtain ⟨_, rfl⟩ := eq_of_attempt_eq_ok ownerRun
          obtain ⟨_, loaded, loadedRun, run⟩ := bind_eq_ok_iff.mp run
          obtain ⟨descriptor, _, descriptorRun, run⟩ := bind_eq_ok_iff.mp run
          obtain ⟨described, rfl⟩ := eq_of_attempt_eq_ok descriptorRun
          obtain ⟨_, _, emitRun, run⟩ := bind_eq_ok_iff.mp run
          cases emitRun
          obtain ⟨_, _, popRun, run⟩ := bind_eq_ok_iff.mp run
          obtain ⟨popped, poppedEq, rfl⟩ := exists_pop_of_run popRun
          rw [length_operandsOf] at poppedEq
          refine ⟨target, owner, method, descriptor, loaded, popped, rfl, loadedRun, described,
            poppedEq, ?_⟩
          cases returns : call.returnsValue with
          | true | false =>
              rw [returns] at run
              cases run
              rfl

/-- A method has no descriptor exactly if a parameter is `void` or an array of it, or the
result is an array of it, and the error names such a type. Any other descriptor is read in
one way, with one type for each parameter, unless the path of a class has a semicolon; and
an invocation with that descriptor pops the operands that it declares, and pushes a result
exactly if it declares one. -/
theorem methodDescriptor_readable (paths : ClassPaths) (params : List Ty) (result : Ty) :
    ((∃ error, paths.methodDescriptor params result = .error error) ↔
      (∃ ty ∈ params, ty.name = "void") ∨ (result.isArray = true ∧ result.name = "void")) ∧
    (∀ error, paths.methodDescriptor params result = .error error →
      ∃ ty ∈ result :: params, ty.name = "void" ∧ error = .noDescriptor ty) ∧
    ∀ descriptor, paths.methodDescriptor params result = .ok descriptor →
      (∀ ty ∈ result :: params, HasCleanPath paths ty) →
      ∃ type : MethodType, descriptor.ReadAs paths params result type ∧
        ∀ (linkage : Linkage) (mode : InvokeMode) (call : Call) (emitter after : Emitter),
          linkage.paths = paths → call.args.map Value.ty = params → call.returnTy = result →
          emitInvoke linkage mode call emitter = .ok () after →
          ∃ target owner method loaded popped,
            loadValues (operandsOf mode target call.args) emitter = .ok () loaded ∧
            (loaded.frame.emit (.invoke mode owner method descriptor)).pop
              (type.params.length + receiverCount mode) = .ok popped ∧
            after.frame = if type.result.isSome then popped.push 1 else popped := by
  refine ⟨exists_methodDescriptor_eq_error_iff paths params result,
    fun error failed => methodDescriptor_eq_error failed, fun descriptor described clean => ?_⟩
  obtain ⟨type, reads, isSome⟩ := exists_readAs described clean
  refine ⟨type, reads, ?_⟩
  rintro linkage mode call emitter after rfl rfl rfl run
  -- The call is emitted with this descriptor, and pops one operand for each argument.
  obtain ⟨target, owner, method, found, loaded, popped, _, loadedRun, foundEq, poppedEq,
    frameEq⟩ := exists_of_emitInvoke run
  rw [described] at foundEq
  cases foundEq
  have lengthEq : type.params.length = call.args.length := by
    rw [reads.params.length_eq, List.length_map]
  refine ⟨target, owner, method, loaded, popped, loadedRun, ?_, ?_⟩
  · rw [lengthEq]
    exact poppedEq
  · rw [isSome]
    exact frameEq

/-- The paths seen from a class with an import. -/
def boxPaths : ClassPaths := ⟨"Main", [("Box", "util/Box")]⟩

/-- The descriptor of a method with parameters of three kinds and no result. -/
theorem methodDescriptor_readable_box :
    ∃ type : MethodType,
      (∀ other : MethodType,
        other.text = "(Lutil/Box;[ILjava/lang/String;)V".toList ↔ other = type) ∧
      type.params.length = 3 := by
  have described : boxPaths.methodDescriptor
      [Ty.named "Box", Ty.arrayOf "int", Ty.named "String"] Ty.void =
        .ok ⟨[.object "util/Box", .array .int, .object "java/lang/String"], .void⟩ := by
    rfl
  obtain ⟨type, reads, _⟩ := (methodDescriptor_readable boxPaths _ _).2.2 _ described
    (by decide)
  exact ⟨type, reads.text_eq_iff, reads.params.length_eq⟩

end ClassCompiler.StackCode
