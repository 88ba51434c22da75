import ClassCompiler.Proofs.Categories.WellTyped
import ClassCompiler.Proofs.Emission.Verified
import ClassCompiler.Proofs.Lowering.Rendering

/-!
# Categories of operations

The code of an operation depends on the categories of its operands only. In a well-typed
program that heeds references they are right, also where lowering expects another type than
the declarations say. The code of such an operation agrees with a verifier that keeps the
category of each value on the stack.
-/

namespace ClassCompiler.Semantics

open StackCode (valueCategory)
open ThreeAddress (argumentTy literalElement)

/-! ## Conditions -/

/-- A destination takes results of its own category. -/
def Dest.Takes (result : Ty) : Dest → Prop
  | .into declared => SameCategory result declared
  | .temporary | .dropped => True

/-- Receivers are classes or references. -/
def Target.IsReference : Target → Prop
  | .onClass _ => True
  | .onObject ty => valueCategory ty = .ref

/-- Operations in a method whose operands are of the categories that they need. -/
def Occurrence.KeepsCategories (signature : MethodSignature) : Occurrence → Prop
  | .self => signature.isStatic = false
  | .operator _ left right _ => valueCategory left = .int ∧ valueCategory right = .int
  | .negation ty | .condition ty => valueCategory ty = .int
  | .element base position => valueCategory base = .ref ∧ valueCategory position = .int
  | .length base => valueCategory base = .ref
  | .newArray _ size => valueCategory size = .int
  | .array elem tys => ∀ ty ∈ tys, SameCategory ty elem
  | .call _ target _ _ result dest => target.IsReference ∧ dest.Takes result
  | .assign declared value => SameCategory value declared
  | .assignElement base position value =>
      valueCategory base = .ref ∧ valueCategory position = .int ∧ SameCategory value base.element
  | .returns value => ReturnsFrom signature value
  | .reference _ _ | .newObject _ | .assignField _ _ _ | .invalidTarget => True

/-! ## Categories of types -/

theorem valueCategory_named {name : String} (isClass : name ∉ valueTypeNames) :
    valueCategory (Ty.named name) = .ref := by
  simp only [valueTypeNames, List.mem_cons, List.not_mem_nil, or_false, not_or] at isClass
  simp [valueCategory, Ty.isIntLike, Ty.isInt, Ty.isBoolean, Ty.int, Ty.boolean, Ty.named, isClass]

theorem valueCategory_of_isArray {ty : Ty} (isArray : ty.isArray = true) :
    valueCategory ty = .ref := by
  obtain ⟨name, shape⟩ := ty
  cases shape with
  | single => cases isArray
  | array | vararg =>
      simp [valueCategory, Ty.isIntLike, Ty.isInt, Ty.isBoolean, Ty.int, Ty.boolean, Ty.named]

/-- Only `int` and `boolean` are kept as integers. -/
theorem eq_of_valueCategory_eq_int {ty : Ty} (isInt : valueCategory ty = .int) :
    ty = Ty.int ∨ ty = Ty.boolean := by
  unfold valueCategory Ty.isIntLike Ty.isInt Ty.isBoolean at isInt
  split at isInt
  · next intLike => simpa using intLike
  · cases isInt

theorem valueCategory_operandTy (op : BinaryOp) : valueCategory op.operandTy = .int := by
  cases op <;> rfl

theorem valueCategory_of_mem_operandTypes {op : BinaryOp} {ty : Ty} (among : ty ∈ operandTypes op) :
    valueCategory ty = .int := by
  unfold operandTypes at among
  split at among <;> simp only [List.mem_cons, List.not_mem_nil, or_false] at among
  · rw [among]; rfl
  · rcases among with rfl | rfl <;> rfl
  · rcases among with rfl | rfl <;> rfl
  · rw [among]; rfl

theorem valueCategory_resultTy (op : BinaryOp) : valueCategory op.resultTy = .int := by
  cases op <;> rfl

theorem SameCategory.refl (ty : Ty) : SameCategory ty ty := rfl

/-! ## Expected types of one category -/

namespace Context

/-- Expectations for which the value of an expression is kept alike. -/
abbrev KeptAlike (context : Context) (expr : Expr) (declared hint : Ty) : Prop :=
  context.Alike SameCategory expr declared hint

theorem KeptAlike.refl (context : Context) (expr : Expr) (ty : Ty) :
    context.KeptAlike expr ty ty :=
  Alike.refl SameCategory.refl context expr ty

variable {context : Context}

theorem elementTy_of_valueCategory {ty : Ty} (isInt : valueCategory ty = .int) :
    elementTy ty = Ty.int := by
  rcases eq_of_valueCategory_eq_int isInt with rfl | rfl <;> rfl

/-- Integers and truth values are kept alike. -/
theorem keptAlike_of_int (expr : Expr) {declared hint : Ty}
    (isInt : valueCategory declared = .int) (hintInt : valueCategory hint = .int) :
    context.KeptAlike expr declared hint := by
  refine ⟨fun _ => isInt.trans hintInt.symm, fun _ => ?_⟩
  rw [elementTy_of_valueCategory isInt, elementTy_of_valueCategory hintInt]
  rfl

/-- The elements of a literal are no arrays. -/
theorem keptAlike_elementTy (expr : Expr) {declared hint : Ty}
    (same : SameCategory (elementTy declared) (elementTy hint)) :
    context.KeptAlike expr (elementTy declared) (elementTy hint) := by
  have noArray (ty : Ty) : elementTy (elementTy ty) = Ty.int := by
    unfold elementTy
    cases isArray : ty.isArray <;> rfl
  refine ⟨fun _ => same, fun _ => ?_⟩
  rw [noArray, noArray]
  rfl

/-- The value of an expression is kept alike, whichever of the types is expected. -/
theorem KeptAlike.sameCategory {expr : Expr} {declared hint : Ty}
    (alike : context.KeptAlike expr declared hint) :
    SameCategory (context.typeOf expr declared) (context.typeOf expr hint) :=
  alike.typeOf SameCategory.refl fun _ =>
    (valueCategory_of_isArray rfl).trans (valueCategory_of_isArray rfl).symm

/-! ## Arguments -/

/-- Of a literal that stands alone lowering expects another type, but one that is kept
alike. -/
theorem keptAlike_argument {own : Option MethodSignature} {args : List Expr}
    (ints : NoReferences (literalTypes own args)) (position : Nat) (arg : Expr)
    (isArg : args[position]? = some arg) :
    context.KeptAlike arg (expectedArgument own args position) (argumentTy own position) := by
  refine context.alike_argument SameCategory.refl (fun ty among => ?_) position arg isArg
  rcases eq_of_valueCategory_eq_int (ints ty among) with rfl | rfl <;> rfl

/-- A literal that stands alone is passed as it is. -/
theorem collected?_of_literalAlone {own : Option MethodSignature} {args : List Expr}
    (alone : literalAlone own args = true) (expectedAt : Nat → Ty) :
    collected? own (context.typesOf expectedAt args) = none := by
  have typesOf_concat (init : List Expr) (last : Expr) (expectedAt : Nat → Ty) :
      context.typesOf expectedAt (init ++ [last]) =
        context.typesOf expectedAt init ++ [context.typeOf last (expectedAt init.length)] := by
    induction init generalizing expectedAt with
    | nil => rfl
    | cons expr rest ih => rw [List.cons_append, typesOf, ih, typesOf, List.cons_append,
        List.length_cons]
  have length_typesOf (exprs : List Expr) (expectedAt : Nat → Ty) :
      (context.typesOf expectedAt exprs).length = exprs.length := by
    induction exprs generalizing expectedAt with
    | nil => rfl
    | cons expr rest ih => rw [typesOf, List.length_cons, ih, List.length_cons]
  obtain ⟨lengthEq, isLiteral⟩ := Bool.and_eq_true_iff.mp alone
  rcases List.eq_nil_or_concat' args with rfl | ⟨init, last, rfl⟩
  · cases isLiteral
  · rw [List.getLast?_concat] at isLiteral
    have fixedEq : (paramsOf own).length - 1 = (context.typesOf expectedAt init).length := by
      have := eq_of_beq lengthEq
      rw [List.length_append, List.length_singleton] at this
      rw [length_typesOf]
      omega
    have isArray : (context.typeOf last (expectedAt init.length)).isArray = true := by
      rw [← typeOf_unparen]
      unfold isArrayLiteral at isLiteral
      cases inner : last.unparen with
      | arrayInit elements => rfl
      | _ => simp [inner] at isLiteral
    unfold collected?
    cases collectedElement? own with
    | none => rfl
    | some elem =>
        rw [typesOf_concat, fixedEq, List.drop_left]
        exact if_pos isArray

variable {signature : MethodSignature}

theorem keepsCategories_collectedArray {own : Option MethodSignature} {args : List Expr}
    (takes : TakesArguments own (context.typesOf (expectedArgument own args) args)) :
    AllOf (Occurrence.KeepsCategories signature)
      (collectedArray own (context.typesOf (argumentTy own) args)) := by
  by_cases alone : literalAlone own args = true
  · rw [collectedArray, collected?_of_literalAlone alone]
    exact List.forall_mem_nil _
  · have hintsEq : expectedArgument own args = argumentTy own := by
      funext position
      rcases expectedArgument_cases own args position with same | ⟨_, _, isAlone, _⟩
      · exact same
      · exact absurd isAlone alone
    rw [hintsEq] at takes
    unfold collectedArray
    cases found : collected? own (context.typesOf (argumentTy own) args) with
    | none => exact List.forall_mem_nil _
    | some collected => exact List.forall_mem_singleton.mpr (takes.2 collected found)

/-- A call keeps categories if its arguments do. -/
theorem keepsCategories_call {own : Option MethodSignature} {args : List Expr} {target : Target}
    {dest : Dest} {hint : Ty} (name : String)
    (keepsArgs : AllOf (Occurrence.KeepsCategories signature)
      (context.occurrencesAll (argumentTy own) args))
    (takes : TakesArguments own (context.typesOf (expectedArgument own args) args))
    (isReference : target.IsReference) (destTakes : dest.Takes (resultTy own hint)) :
    AllOf (Occurrence.KeepsCategories signature)
      (context.occurrencesAll (argumentTy own) args ++
        collectedArray own (context.typesOf (argumentTy own) args) ++
        [.call own target name (passedTys own (context.typesOf (argumentTy own) args))
          (resultTy own hint) dest]) := by
  simp only [AllOf, List.forall_mem_append]
  exact ⟨⟨keepsArgs, keepsCategories_collectedArray takes⟩,
    List.forall_mem_singleton.mpr ⟨isReference, destTakes⟩⟩

/-! ## Expressions -/

/-- An expression of a type that is kept as an integer leaves an integer. -/
theorem KeptAlike.category_eq_int {expr : Expr} {declared hint ty : Ty}
    (alike : context.KeptAlike expr declared hint)
    (tyEq : (context.typeOf expr declared == ty) = true)
    (isInt : valueCategory ty = .int) : valueCategory (context.typeOf expr hint) = .int := by
  rw [← alike.sameCategory, eq_of_beq tyEq]
  exact isInt

theorem typesOf_const (ty : Ty) (exprs : List Expr) :
    context.typesOf (fun _ => ty) exprs = exprs.map fun expr => context.typeOf expr ty := by
  induction exprs with
  | nil => rfl
  | cons expr rest ih => rw [typesOf, ih, List.map_cons]

mutual

/-- The operations of a well-typed expression keep categories, also where lowering expects
another type that is kept alike. -/
theorem keepsCategories_occurrences (named : context.table.className ∉ valueTypeNames) :
    (expr : Expr) → ∀ {declared hint dest}, context.isTyped expr declared = true →
      NoReferences (context.overlooked expr) → context.KeptAlike expr declared hint →
      dest.Takes (context.typeOf expr hint) →
      AllOf (Occurrence.KeepsCategories context.signature) (context.occurrences expr hint dest)
  | .int _, _, _, _, _, _, _, _ | .bool _, _, _, _, _, _, _, _
  | .string _, _, _, _, _, _, _, _ => by
      rw [occurrences]
      exact List.forall_mem_nil _
  | .var _, _, _, _, _, _, _, _ | .newObject _, _, _, _, _, _, _, _ => by
      rw [occurrences]
      exact List.forall_mem_singleton.mpr trivial
  | .self, _, _, _, typed, _, _, _ => by
      rw [occurrences]
      exact List.forall_mem_singleton.mpr ((Bool.not_eq_true' _).mp typed)
  | .paren inner, _, _, _, typed, ints, alike, takes => by
      rw [occurrences]
      exact keepsCategories_occurrences named inner typed ints alike takes
  | .binary op left right, _, _, _, typed, ints, _, _ => by
      rw [isTyped, List.any_eq_true] at typed
      obtain ⟨ty, among, typedBoth⟩ := typed
      simp only [Bool.and_eq_true] at typedBoth
      obtain ⟨⟨typedLeft, leftEq⟩, typedRight, rightEq⟩ := typedBoth
      obtain ⟨intsLeft, intsRight⟩ := List.forall_mem_append.mp ints
      have isInt := valueCategory_of_mem_operandTypes among
      have alikeLeft := context.keptAlike_of_int left isInt (valueCategory_operandTy op)
      have alikeRight := context.keptAlike_of_int right isInt (valueCategory_operandTy op)
      simp only [occurrences, AllOf, List.forall_mem_append]
      exact ⟨⟨keepsCategories_occurrences named left typedLeft intsLeft alikeLeft trivial,
        keepsCategories_occurrences named right typedRight intsRight alikeRight trivial⟩,
        List.forall_mem_singleton.mpr
          ⟨alikeLeft.category_eq_int leftEq isInt, alikeRight.category_eq_int rightEq isInt⟩⟩
  | .not operand, _, _, _, typed, ints, _, _ => by
      obtain ⟨typedOperand, tyEq⟩ := Bool.and_eq_true_iff.mp typed
      have alike := KeptAlike.refl context operand Ty.boolean
      simp only [occurrences, AllOf, List.forall_mem_append]
      exact ⟨keepsCategories_occurrences named operand typedOperand ints alike trivial,
        List.forall_mem_singleton.mpr (alike.category_eq_int tyEq rfl)⟩
  | .index array position, _, _, _, typed, ints, _, _ => by
      obtain ⟨typedArray, typedPosition⟩ := Bool.and_eq_true_iff.mp typed
      obtain ⟨typedArray, isArray⟩ := Bool.and_eq_true_iff.mp typedArray
      obtain ⟨typedPosition, positionEq⟩ := Bool.and_eq_true_iff.mp typedPosition
      obtain ⟨intsArray, intsPosition⟩ := List.forall_mem_append.mp ints
      have alike := KeptAlike.refl context position Ty.int
      simp only [occurrences, AllOf, List.forall_mem_append]
      exact ⟨⟨keepsCategories_occurrences named array typedArray intsArray (.refl _ _ _) trivial,
        keepsCategories_occurrences named position typedPosition intsPosition alike trivial⟩,
        List.forall_mem_singleton.mpr
          ⟨valueCategory_of_isArray isArray, alike.category_eq_int positionEq rfl⟩⟩
  | .length array, _, _, _, typed, ints, _, _ => by
      obtain ⟨typedArray, isArray⟩ := Bool.and_eq_true_iff.mp typed
      simp only [occurrences, AllOf, List.forall_mem_append]
      exact ⟨keepsCategories_occurrences named array typedArray ints (.refl _ _ _) trivial,
        List.forall_mem_singleton.mpr (valueCategory_of_isArray isArray)⟩
  | .newArray _ size, _, _, _, typed, ints, _, _ => by
      obtain ⟨typedSize, sizeEq⟩ := Bool.and_eq_true_iff.mp typed
      have alike := KeptAlike.refl context size Ty.int
      simp only [occurrences, AllOf, List.forall_mem_append]
      exact ⟨keepsCategories_occurrences named size typedSize ints alike trivial,
        List.forall_mem_singleton.mpr (alike.category_eq_int sizeEq rfl)⟩
  | .arrayInit elements, declared, hint, _, typed, ints, alike, _ => by
      obtain ⟨typedElements, sameElements⟩ := Bool.and_eq_true_iff.mp typed
      have sameElement := alike.2 rfl
      have alikeElement (element : Expr) := context.keptAlike_elementTy element sameElement
      simp only [occurrences, AllOf, List.forall_mem_append]
      refine ⟨keepsCategories_occurrencesAll named elements typedElements ints
        fun _ element _ => alikeElement element, List.forall_mem_singleton.mpr ?_⟩
      intro ty among
      rw [typesOf_const, List.mem_map] at among
      obtain ⟨element, member, rfl⟩ := among
      rw [typesOf_const] at sameElements
      have fits := of_decide_eq_true sameElements _ (List.mem_map_of_mem member)
      exact ((alikeElement element).sameCategory.symm.trans fits).trans sameElement
  | .selfCall name args, _, _, _, typed, ints, _, takes => by
      obtain ⟨typedArgs, takesArgs⟩ := Bool.and_eq_true_iff.mp typed
      obtain ⟨intsLiteral, intsArgs⟩ := List.forall_mem_append.mp ints
      rw [occurrences]
      rw [typeOf] at takes
      refine keepsCategories_call name ?_ (of_decide_eq_true takesArgs) ?_ takes
      · exact keepsCategories_occurrencesAll named args typedArgs intsArgs
          (keptAlike_argument intsLiteral)
      · unfold selfTarget
        split
        · trivial
        · exact valueCategory_named named
  | .call receiver name args, _, _, _, typed, ints, _, takes => by
      obtain ⟨typedReceiver, typedArgs⟩ := Bool.and_eq_true_iff.mp typed
      obtain ⟨typedArgs, takesArgs⟩ := Bool.and_eq_true_iff.mp typedArgs
      obtain ⟨intsLiteral, intsParts⟩ := List.forall_mem_append.mp ints
      obtain ⟨intsReceiver, intsArgs⟩ := List.forall_mem_append.mp intsParts
      have keepsArgs := keepsCategories_occurrencesAll named args typedArgs intsArgs
        (keptAlike_argument intsLiteral)
      have takesArgs := of_decide_eq_true takesArgs
      rw [typeOf] at takes
      rw [occurrences]
      unfold callee? at keepsArgs takesArgs takes
      cases found : context.classNamed? receiver with
      | some className =>
          rw [found] at keepsArgs takesArgs takes
          exact keepsCategories_call name keepsArgs takesArgs trivial takes
      | none =>
          rw [found] at keepsArgs takesArgs takes typedReceiver
          obtain ⟨typedReceiver, isReference⟩ := Bool.and_eq_true_iff.mp typedReceiver
          have isReference := of_decide_eq_true isReference
          dsimp only
          rw [List.append_assoc, List.append_assoc, AllOf, List.forall_mem_append,
            ← List.append_assoc]
          refine ⟨keepsCategories_occurrences named receiver typedReceiver intsReceiver
            (.refl _ _ _) trivial, keepsCategories_call name keepsArgs takesArgs ?_ takes⟩
          unfold objectTarget
          split
          · trivial
          · exact isReference

theorem keepsCategories_occurrencesAll (named : context.table.className ∉ valueTypeNames) :
    (exprs : List Expr) → ∀ {declaredAt hintAt}, context.areTyped declaredAt exprs = true →
      NoReferences (context.overlookedAll exprs) →
      (∀ position expr, exprs[position]? = some expr →
        context.KeptAlike expr (declaredAt position) (hintAt position)) →
      AllOf (Occurrence.KeepsCategories context.signature) (context.occurrencesAll hintAt exprs)
  | [], _, _, _, _, _ => by
      rw [occurrencesAll]
      exact List.forall_mem_nil _
  | expr :: rest, _, _, typed, ints, alike => by
      obtain ⟨typedFirst, typedRest⟩ := Bool.and_eq_true_iff.mp typed
      obtain ⟨intsFirst, intsRest⟩ := List.forall_mem_append.mp ints
      rw [occurrencesAll, AllOf, List.forall_mem_append]
      exact ⟨keepsCategories_occurrences named expr typedFirst intsFirst (alike 0 expr rfl) trivial,
        keepsCategories_occurrencesAll named rest typedRest intsRest
          fun position other found => alike (position + 1) other found⟩

end

/-! ## Statements -/

theorem keepsCategories_variableOccurrences {value : Expr} {declared : Ty}
    (named : context.table.className ∉ valueTypeNames)
    (typed : context.goesTo value declared = true)
    (ints : NoReferences (context.overlooked value)) :
    AllOf (Occurrence.KeepsCategories context.signature)
      (context.variableOccurrences declared value) := by
  obtain ⟨typedValue, same⟩ := Bool.and_eq_true_iff.mp typed
  have same := of_decide_eq_true same
  unfold variableOccurrences
  split
  · exact keepsCategories_occurrences named value typedValue ints (.refl _ _ _) same
  · rw [AllOf, List.forall_mem_append]
    exact ⟨keepsCategories_occurrences named value typedValue ints (.refl _ _ _) trivial,
      List.forall_mem_singleton.mpr same⟩

/-- An assignment to an element stores a value of the category of the elements. -/
theorem keepsCategories_elementOccurrences {array position value : Expr}
    (named : context.table.className ∉ valueTypeNames)
    (typedElement : context.isTyped (.index array position) (context.elementOf array) = true)
    (typedValue : context.goesTo value (context.elementOf array) = true)
    (ints : NoReferences (context.storedTypes array value ++ (context.overlooked value ++
      (context.overlooked array ++ context.overlooked position)))) :
    AllOf (Occurrence.KeepsCategories context.signature)
      (context.occurrences value (context.assignedElement array) .temporary ++
        context.occurrences array (Ty.arrayOf (context.assignedElement array).name) .temporary ++
        context.occurrences position Ty.int .temporary ++
        [.assignElement (context.typeOf array (Ty.arrayOf (context.assignedElement array).name))
          (context.typeOf position Ty.int)
          (context.typeOf value (context.assignedElement array))]) := by
  simp only [isTyped, Bool.and_eq_true] at typedElement
  obtain ⟨⟨typedArray, isArray⟩, typedPosition, positionEq⟩ := typedElement
  obtain ⟨typedValue, same⟩ := Bool.and_eq_true_iff.mp typedValue
  have same := of_decide_eq_true same
  simp only [NoReferences, List.forall_mem_append] at ints
  obtain ⟨intsStored, intsValue, intsArray, intsPosition⟩ := ints
  have known (name : String) (isVar : array.unparen = .var name) :
      ∃ ty, context.resolve? name = some (.declared ty) ∨
        context.resolve? name = some (.field ty) := by
    -- a name that stands for no value is not of an array type
    rw [← typeOf_unparen, isVar, typeOf] at isArray
    split at isArray
    · next ty resolves => exact ⟨ty, .inl resolves⟩
    · next ty resolves => exact ⟨ty, .inr resolves⟩
    · cases isArray
  have alikeValue :
      context.KeptAlike value (context.elementOf array) (context.assignedElement array) :=
    alike_element SameCategory.refl known intsStored
  have alikeArray : context.KeptAlike array (Ty.arrayOf "int")
      (Ty.arrayOf (context.assignedElement array).name) :=
    context.alike_array SameCategory.refl array
  have alikePosition := KeptAlike.refl context position Ty.int
  simp only [AllOf, List.forall_mem_append]
  refine ⟨⟨⟨keepsCategories_occurrences named value typedValue intsValue alikeValue trivial,
    keepsCategories_occurrences named array typedArray intsArray alikeArray trivial⟩,
    keepsCategories_occurrences named position typedPosition intsPosition alikePosition trivial⟩,
    List.forall_mem_singleton.mpr ?_⟩
  rw [← (context.alike_array (fun _ => rfl) array).typeOf_eq]
  exact ⟨valueCategory_of_isArray isArray, alikePosition.category_eq_int positionEq rfl,
    alikeValue.sameCategory.symm.trans same⟩

theorem keepsCategories_assignOccurrences {target value : Expr}
    (named : context.table.className ∉ valueTypeNames)
    (typed : context.assignIsTyped target value = true)
    (ints : NoReferences (context.assignOverlooked target value)) :
    AllOf (Occurrence.KeepsCategories context.signature)
      (context.assignOccurrences target value) := by
  unfold assignIsTyped at typed
  unfold assignOverlooked at ints
  unfold assignOccurrences
  generalize target.unparen = inner at typed ints ⊢
  cases inner with
  | var name =>
      dsimp only at typed ⊢
      generalize context.resolve? name = binding at typed ⊢
      rcases binding with - | (ty | ty | -)
      · cases typed
      · exact keepsCategories_variableOccurrences named typed ints
      · have typedValue := (Bool.and_eq_true_iff.mp typed).1
        rw [AllOf, List.forall_mem_append]
        exact ⟨keepsCategories_occurrences named value typedValue ints (.refl _ _ _) trivial,
          List.forall_mem_singleton.mpr trivial⟩
      · cases typed
  | index array position =>
      obtain ⟨typedElement, typedValue⟩ := Bool.and_eq_true_iff.mp typed
      exact keepsCategories_elementOccurrences named typedElement typedValue ints
  | _ => cases typed

theorem keepsCategories_returnOccurrences {value : Option Expr}
    (named : context.table.className ∉ valueTypeNames)
    (typed : context.returnIsTyped value = true)
    (ints : NoReferences (context.stmtOverlooked (.ret value))) :
    AllOf (Occurrence.KeepsCategories context.signature) (context.returnOccurrences value) := by
  cases value with
  | none =>
      have returns : ReturnsFrom context.signature none := of_decide_eq_true typed
      exact List.forall_mem_singleton.mpr returns
  | some value =>
      rw [stmtOverlooked] at ints
      rw [returnIsTyped] at typed
      rw [returnOccurrences]
      cases isMain : context.signature.isMain with
      | true => exact List.forall_mem_singleton.mpr (.inl isMain)
      | false =>
          rw [isMain, Bool.false_or, Bool.and_eq_true, decide_eq_true_eq] at typed
          rw [isMain] at ints
          exact List.forall_mem_append.mpr
            ⟨keepsCategories_occurrences named value typed.1 ints (.refl _ _ _) trivial,
              List.forall_mem_singleton.mpr typed.2⟩

/-- The operations of a well-typed condition keep categories, and it leaves an integer. -/
theorem keepsCategories_condition {cond : Expr}
    (named : context.table.className ∉ valueTypeNames)
    (typed : context.hasTy cond Ty.boolean = true)
    (ints : NoReferences (context.overlooked cond)) :
    AllOf (Occurrence.KeepsCategories context.signature)
        (context.occurrences cond Ty.boolean .temporary) ∧
      valueCategory (context.typeOf cond Ty.boolean) = .int := by
  obtain ⟨typedCond, tyEq⟩ := Bool.and_eq_true_iff.mp typed
  have alike := KeptAlike.refl context cond Ty.boolean
  exact ⟨keepsCategories_occurrences named cond typedCond ints alike trivial,
    alike.category_eq_int tyEq rfl⟩

mutual

theorem keepsCategories_stmtOccurrences (named : context.table.className ∉ valueTypeNames) :
    (stmt : Stmt) → context.stmtIsTyped stmt = true →
      NoReferences (context.stmtOverlooked stmt) →
      AllOf (Occurrence.KeepsCategories context.signature) (context.stmtOccurrences stmt)
  | .assign _ _, typed, ints => by
      rw [stmtOccurrences]
      exact keepsCategories_assignOccurrences named typed ints
  | .expr value, typed, ints => by
      rw [stmtOccurrences]
      refine keepsCategories_occurrences named value typed ints (.refl _ _ _) ?_
      split <;> trivial
  | .ret _, typed, ints => by
      rw [stmtOccurrences]
      exact keepsCategories_returnOccurrences named typed ints
  | .ifElse cond thenBranch elseBranch, typed, ints => by
      obtain ⟨typedCond, typedBranches⟩ := Bool.and_eq_true_iff.mp typed
      obtain ⟨typedThen, typedElse⟩ := Bool.and_eq_true_iff.mp typedBranches
      obtain ⟨intsCond, intsBranches⟩ := List.forall_mem_append.mp ints
      obtain ⟨intsThen, intsElse⟩ := List.forall_mem_append.mp intsBranches
      obtain ⟨keepsCond, isInt⟩ := keepsCategories_condition named typedCond intsCond
      simp only [stmtOccurrences, AllOf, List.forall_mem_append]
      exact ⟨⟨⟨keepsCond, List.forall_mem_singleton.mpr isInt⟩,
        keepsCategories_stmtOccurrences named elseBranch typedElse intsElse⟩,
        keepsCategories_stmtOccurrences named thenBranch typedThen intsThen⟩
  | .whileLoop cond body, typed, ints => by
      obtain ⟨typedCond, typedBody⟩ := Bool.and_eq_true_iff.mp typed
      obtain ⟨intsCond, intsBody⟩ := List.forall_mem_append.mp ints
      obtain ⟨keepsCond, isInt⟩ := keepsCategories_condition named typedCond intsCond
      simp only [stmtOccurrences, AllOf, List.forall_mem_append]
      exact ⟨⟨keepsCond, List.forall_mem_cons.mpr ⟨isInt, List.forall_mem_singleton.mpr rfl⟩⟩,
        keepsCategories_stmtOccurrences named body typedBody intsBody⟩
  | .block body, typed, ints => by
      rw [stmtOccurrences]
      exact keepsCategories_bodyOccurrences named body typed ints

/-- The operations of a well-typed body keep categories. -/
theorem keepsCategories_bodyOccurrences (named : context.table.className ∉ valueTypeNames) :
    (body : List Stmt) → context.bodyIsTyped body = true →
      NoReferences (context.bodyOverlooked body) →
      AllOf (Occurrence.KeepsCategories context.signature) (context.bodyOccurrences body)
  | [], _, _ => by
      rw [bodyOccurrences]
      exact List.forall_mem_nil _
  | stmt :: rest, typed, ints => by
      obtain ⟨typedStmt, typedRest⟩ := Bool.and_eq_true_iff.mp typed
      obtain ⟨intsStmt, intsRest⟩ := List.forall_mem_append.mp ints
      rw [bodyOccurrences, AllOf, List.forall_mem_append]
      exact ⟨keepsCategories_stmtOccurrences named stmt typedStmt intsStmt,
        keepsCategories_bodyOccurrences named rest typedRest intsRest⟩

end

end Context

end ClassCompiler.Semantics

namespace ClassCompiler.ThreeAddress

open Semantics (Context Dest Occurrence valueCategory_named valueCategory_of_isArray
  valueCategory_resultTy valueTypeNames)
open StackCode (Emittable HasMark HasMembers valueCategory)

variable {context : Context} {hasSelf : Prop} {isMain : Bool} {names : List String}

/-! ## Agreement -/

/-- An operand is of the category of its type. The current object is a reference, so the
class must not have the name of a type of integers. -/
theorem Operand.hasMark {ty : Ty} {value : Value} (hasValue : Operand context hasSelf ty value)
    (named : context.table.className ∉ valueTypeNames) :
    HasMark id value (valueCategory ty) := by
  obtain ⟨isOperand, rfl⟩ := hasValue
  cases value with
  | self ty =>
      obtain ⟨rfl, _⟩ := isOperand
      exact ⟨trivial, (valueCategory_named named).symm⟩
  | classRef name | element array position ty => exact isOperand.elim
  | temp name ty | var name ty | const value => exact ⟨trivial, rfl⟩

theorem Operand.hasMark_of_eq {ty : Ty} {value : Value} {category : StackCode.Category}
    (hasValue : Operand context hasSelf ty value) (named : context.table.className ∉ valueTypeNames)
    (categoryEq : valueCategory ty = category) : HasMark id value category :=
  categoryEq ▸ hasValue.hasMark named

theorem valueCategory_of_hasMembers {ty : Ty} (hasMembers : HasMembers ty) :
    valueCategory ty = .ref := by
  obtain ⟨name, shape⟩ := ty
  cases shape with
  | single =>
      apply valueCategory_named
      intro isValueType
      simp only [valueTypeNames, List.mem_cons, List.not_mem_nil, or_false] at isValueType
      rcases isValueType with rfl | rfl | rfl
      · exact absurd (hasMembers.2 rfl) (by decide)
      · exact absurd (hasMembers.2 rfl) (by decide)
      · exact absurd (hasMembers.2 rfl) (by decide)
  | array | vararg => exact valueCategory_of_isArray rfl

/-- A result goes to a place of its category. -/
theorem IsDest.category_eq {ty : Ty} {dest : Dest} {value : Value}
    (isDest : IsDest context ty dest (some value)) (takes : dest.Takes ty) :
    valueCategory ty = valueCategory value.ty := by
  cases dest with
  | temporary =>
      obtain ⟨name, valueEq⟩ := isDest
      cases valueEq
      rfl
  | into declared =>
      obtain ⟨name, valueEq, _⟩ := isDest
      cases valueEq
      exact takes
  | dropped => cases isDest

/-- The code of a well-typed operation agrees with its categories. -/
theorem Block.agrees {occurrence : Occurrence} {code : Code}
    (isBlock : Block context hasSelf occurrence code)
    (named : context.table.className ∉ valueTypeNames)
    (typed : occurrence.KeepsCategories context.signature)
    (emittable : ∀ instr ∈ code, Emittable isMain names instr) :
    ∀ instr ∈ code, StackCode.Agrees id isMain instr := by
  cases isBlock with
  | self | declared => exact List.forall_mem_nil _
  | field dest resolves =>
      rw [List.forall_mem_singleton]
      exact ⟨⟨trivial, rfl⟩, rfl⟩
  | @operator op _ _ _ _ _ value hasLeft hasRight _ tyEq =>
      obtain ⟨leftInt, rightInt⟩ := typed
      rw [List.forall_mem_singleton]
      refine ⟨hasLeft.hasMark_of_eq named leftInt, hasRight.hasMark_of_eq named rightInt, ?_⟩
      rw [tyEq]
      exact valueCategory_resultTy op
  | negation dest hasOperand =>
      rw [List.forall_mem_singleton]
      exact ⟨hasOperand.hasMark_of_eq named typed, rfl⟩
  | element dest hasArray hasPosition =>
      have arrayMark := hasArray.hasMark_of_eq named typed.1
      have positionMark := hasPosition.hasMark_of_eq named typed.2
      rw [List.forall_mem_singleton]
      exact ⟨⟨arrayMark.1, positionMark.1, arrayMark.2, positionMark.2⟩, rfl⟩
  | length dest hasArray =>
      rw [List.forall_mem_singleton]
      refine ⟨hasArray.hasMark_of_eq named typed, ?_⟩
      rintro _ ⟨rfl⟩
      rfl
  | newArray dest hasSize =>
      rw [List.forall_mem_singleton]
      refine ⟨hasSize.hasMark_of_eq named typed, ?_⟩
      rintro _ ⟨rfl⟩
      exact (valueCategory_of_isArray rfl).symm
  | @array elem tys values dest hasValues =>
      rw [List.forall_mem_cons]
      constructor
      · refine ⟨⟨trivial, rfl⟩, ?_⟩
        rintro _ ⟨rfl⟩
        exact (valueCategory_of_isArray rfl).symm
      · intro instr member
        obtain ⟨⟨value, position⟩, valueMember, rfl⟩ := List.mem_map.mp member
        have isValue : value ∈ values := List.fst_mem_of_mem_zipIdx valueMember
        have hasValue : Operand context hasSelf value.ty value :=
          ⟨hasValues.isOperand value isValue, rfl⟩
        have sameCategory := typed value.ty (hasValues.map_ty_eq ▸ List.mem_map_of_mem isValue)
        exact ⟨⟨trivial, valueCategory_of_isArray rfl⟩, ⟨trivial, rfl⟩,
          hasValue.hasMark_of_eq named sameCategory⟩
  | newObject className dest =>
      rw [List.forall_mem_cons, List.forall_mem_singleton] at emittable ⊢
      -- A class named like a type of integers has no constructor to call.
      have isRef : valueCategory (Ty.named className) = .ref :=
        valueCategory_of_hasMembers emittable.2.1.1.1
      constructor
      · refine ⟨trivial, ?_⟩
        rintro _ ⟨rfl⟩
        exact isRef.symm
      · exact ⟨⟨fun _ => ⟨trivial, isRef⟩, List.forall_mem_nil _⟩, nofun⟩
  | @call own target name tys result dest mode object values value isReceiver hasValues isDest =>
      obtain ⟨isReference, takes⟩ := typed
      rw [List.forall_mem_singleton]
      refine ⟨⟨?_, ?_⟩, ?_⟩
      · intro notStatic
        cases target with
        | onClass className => exact absurd isReceiver.1 notStatic
        | onObject ty => exact isReceiver.2.hasMark_of_eq named isReference
      · intro argument member
        exact Operand.hasMark ⟨hasValues.isOperand argument member, rfl⟩ named
      · rintro found ⟨rfl⟩
        exact isDest.category_eq takes
  | assign resolves hasValue =>
      rw [List.forall_mem_singleton]
      exact hasValue.hasMark_of_eq named typed
  | @assignField name declared ty value resolves hasValue =>
      rw [List.forall_mem_singleton]
      refine ⟨⟨trivial, rfl⟩, ?_⟩
      rw [hasValue.ty_eq]
      exact hasValue.hasMark named
  | assignElement hasArray hasPosition hasValue =>
      obtain ⟨isReference, isInt, sameCategory⟩ := typed
      rw [List.forall_mem_singleton]
      exact ⟨hasArray.hasMark_of_eq named isReference, hasPosition.hasMark_of_eq named isInt,
        hasValue.hasMark_of_eq named sameCategory⟩
  | condition label hasCond =>
      rw [List.forall_mem_singleton]
      exact hasCond.hasMark_of_eq named typed
  | returnsNothing =>
      rw [List.forall_mem_singleton]
      trivial
  | returns hasValue =>
      rw [List.forall_mem_singleton]
      intro _
      rw [hasValue.ty_eq]
      exact hasValue.hasMark named

end ClassCompiler.ThreeAddress
