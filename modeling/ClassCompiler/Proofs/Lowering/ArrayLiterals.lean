import ClassCompiler.Proofs.Emission.Methods
import ClassCompiler.Proofs.Lowering.Expressions
import ClassCompiler.Proofs.Lowering.Invocations

/-!
# Types of array literals

The elements of an array literal do not decide which array it is. What is assigned to an
array variable or field, returned as an array or passed for an array parameter is an array
of the declared elements, and so are the instructions that make and fill it and the
descriptor of the call. A literal that stands alone for the trailing arguments of a method
is an array of integers whatever the method collects: it is expected to be one of the
elements, and no array is expected there.
-/

namespace ClassCompiler.StackCode

open Effects
open ThreeAddress (Value Call Method elementStores)

/-! ## Emitted lines -/

/-- The lines that are emitted for code from an empty stack. -/
def Emits (body : ThreeAddress.Code) (lines : Linkage → List String → Lines) : Prop :=
  ∀ (linkage : Linkage) (method : Method) (names : List String) (frame : Frame Instr)
    (counts : ComparisonCounts) (emitter : Emitter), frame.Gives names → frame.depth = 0 →
    emitBody linkage method body ⟨frame, counts⟩ = .ok () emitter →
    emitter.frame.lines.toList = frame.lines.toList ++ lines linkage names

theorem emits_of_bodyCode {body : ThreeAddress.Code} {lines : Linkage → List String → Lines}
    (linesEq : ∀ linkage isMain names counts,
      bodyCode linkage isMain names counts body = lines linkage names) : Emits body lines := by
  intro linkage method names frame counts emitter gives empty run
  obtain ⟨_, _, rfl⟩ := (succeeds_emitBody gives empty method body _ _).mp run
  rw [← linesEq linkage method.isMain names counts]
  simp [Frame.add]

/-- The instructions that make an array of elements of a type and put values into it. -/
def arrayCode (elem : String) (array : Value) (operands : List Value) : ThreeAddress.Code :=
  .call (some array) (Call.newArray (Ty.named elem) (.int (Int32.ofNat operands.length))) ::
    elementStores array (Ty.named elem) operands

/-- The lines that make an array of elements of a type and put values into it. -/
def arrayLines (elem : String) (array : Value) (operands : List Value) (linkage : Linkage)
    (names : List String) : Lines :=
  [.instr (.pushInt (Int32.ofNat operands.length)),
      .instr (.newArray (linkage.elementOf (Ty.arrayOf elem)))] ++ storeCode names array ++
    operands.zipIdx.flatMap fun (value, position) =>
      loadsCode names [array, .int (Int32.ofNat position), value] ++
        [.instr (.arrayStore (elementKindOf (Ty.named elem)))]

theorem bodyCode_elementStores (linkage : Linkage) (isMain : Bool) (names : List String)
    (counts : ComparisonCounts) (array : Value) (elem : Ty) (operands : List Value) :
    bodyCode linkage isMain names counts (elementStores array elem operands) =
      operands.zipIdx.flatMap fun (value, position) =>
        loadsCode names [array, .int (Int32.ofNat position), value] ++
          [.instr (.arrayStore (elementKindOf elem))] := by
  rw [elementStores]
  induction operands.zipIdx with
  | nil => rfl
  | cons first rest ih =>
      rw [List.map_cons, bodyCode, List.flatMap_cons]
      exact congrArg _ ih

theorem emits_arrayCode (elem : String) (array : Value) (operands : List Value) :
    Emits (arrayCode elem array operands) (arrayLines elem array operands) := by
  refine emits_of_bodyCode fun linkage isMain names counts => ?_
  rw [arrayCode, bodyCode, bodyCode_elementStores]
  rfl

/-- Where a call is emitted, its descriptor has an array of elements of a type at a
position. -/
def DescribesArray (site : Call) (position : Nat) (elem : String) : Prop :=
  ∀ dest, ∃ lines, Emits [.call dest site] lines ∧ ∀ linkage names,
    ∃ before mode owner name descriptor behind,
      lines linkage names = before ++ .instr (.invoke mode owner name descriptor) :: behind ∧
      descriptor.params[position]? = some (.array (linkage.paths.baseDescriptor elem))

theorem describesArray_invoke {mode : ThreeAddress.InvokeMode} {target : Value} {name : String}
    {args : List Value} {returnTy : Ty} {position : Nat} {array : Value} {elem : String}
    (given : args[position]? = some array) (isArray : array.ty = Ty.arrayOf elem) :
    DescribesArray (.invoke mode target name args returnTy) position elem := by
  intro dest
  refine ⟨fun linkage names => callCode linkage names _ ++ resultCode names dest _,
    emits_of_bodyCode fun linkage isMain names counts => List.append_nil _, ?_⟩
  intro linkage names
  refine ⟨loadsCode names (operandsOf mode target args), mode, linkage.ownerOf mode target, name,
    linkage.paths.signatureOf (args.map Value.ty) returnTy, _, List.append_assoc _ _ _, ?_⟩
  simp [ClassPaths.signatureOf, given, isArray, ClassPaths.descriptorOf, Ty.isArray, Ty.arrayOf]

end ClassCompiler.StackCode

namespace ClassCompiler.ThreeAddress

open Effects LoweringState StackCode
open Semantics (Context)

variable {table : SymbolTable} {state after : LoweringState} {literal : Expr}
  {elements : List Expr}

/-! ## Literals where a type is expected -/

/-- The code of a literal makes a new array of elements of a type: the elements are computed,
the array is allocated, and every element is stored as one of the type. The same holds of
the lines that are emitted for it. -/
def BuildsArray (table : SymbolTable) (elem : String) (elements : List Expr)
    (state : LoweringState) (lowered : Lowered) : Prop :=
  ∃ elementCode operands middle,
    LowersExprs table (fun _ => Ty.named elem) elements state elementCode operands middle ∧
    lowered.value.ty = Ty.arrayOf elem ∧
    lowered.code = elementCode ++ arrayCode elem lowered.value operands ∧
    Emits (arrayCode elem lowered.value operands) (arrayLines elem lowered.value operands)

theorem BuildsArray.ty_eq {elem : String} {lowered : Lowered}
    (builds : BuildsArray table elem elements state lowered) :
    lowered.value.ty = Ty.arrayOf elem := by
  obtain ⟨_, _, _, _, tyEq, _⟩ := builds
  exact tyEq

/-- A literal becomes an array of the elements that are expected. -/
theorem LowersExpr.buildsArray {expected : Ty} {lowered : Lowered}
    (lowers : LowersExpr table literal expected state lowered after)
    (isLiteral : literal.unparen = .arrayInit elements) :
    BuildsArray table (literalElement expected).name elements state lowered := by
  have single : Ty.named (literalElement expected).name = literalElement expected :=
    element_literalElement expected
  have lowersLiteral := lowers.unparen
  rw [isLiteral] at lowersLiteral
  cases lowersLiteral with
  | call lowersCall => cases lowersCall
  | @arrayInit _ _ _ middle elementCode operands lowersElements bound =>
      refine ⟨elementCode, operands, middle, ?_, rfl, ?_, emits_arrayCode _ _ _⟩
      · rw [single]
        exact lowersElements
      · rw [arrayCode, single]
        rfl

theorem LowersExpr.buildsArray_of_isArray {expected : Ty} {lowered : Lowered}
    (lowers : LowersExpr table literal expected state lowered after)
    (isLiteral : literal.unparen = .arrayInit elements) (isArray : expected.isArray = true) :
    BuildsArray table expected.name elements state lowered := by
  have builds := lowers.buildsArray isLiteral
  rw [literalElement, if_pos isArray] at builds
  exact builds

/-! ## Literals in statements -/

/-- A literal that is assigned to a variable. -/
theorem buildsArray_of_variable {target : Expr} {name : String} {ty : Ty} {code : Code}
    (isLiteral : literal.unparen = .arrayInit elements) (targetEq : target.unparen = .var name)
    (resolves : (state.context table).resolve? name = some (.declared ty))
    (isArray : ty.isArray = true)
    (run : lowerStmt table (.assign target literal) state = .ok code after) :
    ∃ lowered, BuildsArray table ty.name elements state lowered ∧
      code = lowered.code ++ [.assign (.var name ty) lowered.value] := by
  cases lowersStmt_of_eq_ok table _ run with
  | assignOperator _ _ valueEq =>
      rw [isLiteral] at valueEq
      cases valueEq
  | assignCall _ _ lowersCall =>
      rw [isLiteral] at lowersCall
      cases lowersCall
  | assignValue otherEq others _ lowers =>
      cases targetEq.symm.trans otherEq
      cases resolves.symm.trans others
      exact ⟨_, lowers.buildsArray_of_isArray isLiteral isArray, rfl⟩
  | assignField otherEq others _ =>
      cases targetEq.symm.trans otherEq
      cases resolves.symm.trans others
  | assignElement otherEq => cases targetEq.symm.trans otherEq

/-- A literal that is assigned to a field. -/
theorem buildsArray_of_field {target : Expr} {name : String} {ty : Ty} {code : Code}
    (isLiteral : literal.unparen = .arrayInit elements) (targetEq : target.unparen = .var name)
    (resolves : (state.context table).resolve? name = some (.field ty))
    (isArray : ty.isArray = true)
    (run : lowerStmt table (.assign target literal) state = .ok code after) :
    ∃ lowered, BuildsArray table ty.name elements state lowered ∧
      code = lowered.code ++ [.putField (selfValue table) name lowered.value] := by
  cases lowersStmt_of_eq_ok table _ run with
  | assignOperator otherEq others | assignCall otherEq others | assignValue otherEq others =>
      cases targetEq.symm.trans otherEq
      cases resolves.symm.trans others
  | assignField otherEq others lowers =>
      cases targetEq.symm.trans otherEq
      cases resolves.symm.trans others
      exact ⟨_, lowers.buildsArray_of_isArray isLiteral isArray, rfl⟩
  | assignElement otherEq => cases targetEq.symm.trans otherEq

/-- A literal that is returned. The entry point does not compute what it returns. -/
theorem buildsArray_of_return {code : Code} (isLiteral : literal.unparen = .arrayInit elements)
    (isArray : state.scope.signature.returnTy.isArray = true)
    (run : lowerStmt table (.ret (some literal)) state = .ok code after) :
    if state.scope.signature.isMain then code = [.ret none]
    else ∃ lowered,
      BuildsArray table state.scope.signature.returnTy.name elements state lowered ∧
        code = lowered.code ++ [.ret (some lowered.value)] := by
  cases lowersStmt_of_eq_ok table _ run with
  | returnNothing nothing =>
      rw [if_pos (by simpa using nothing)]
  | returnValue notMain lowers =>
      rw [if_neg (by simp [notMain])]
      exact ⟨_, lowers.buildsArray_of_isArray isLiteral isArray, rfl⟩

/-! ## Literals as arguments -/

/-- A literal is the argument of a call at a position, as an array of elements of a type: its
code stands before the call, which passes the array. -/
def PassesLiteral (table : SymbolTable) (elem : String) (elements : List Expr) (code : Code)
    (site : Call) (position : Nat) : Prop :=
  ∃ before lowered behind reached, code = before ++ lowered.code ++ behind ∧
    BuildsArray table elem elements reached lowered ∧
    site.args[position]? = some lowered.value ∧ DescribesArray site position elem

section Arguments

variable {receiver : Option Expr} {name : String} {args : List Expr} {expected : Ty} {code : Code}
  {site : Call} {signature : MethodSignature} {position : Nat} {elem : String}

/-- A literal among the arguments becomes an array of the elements that are expected of the
argument, and is passed if its operand is. -/
theorem passesLiteral_of_lowerInvocation (isLiteral : literal.unparen = .arrayInit elements)
    (addresses : (state.context table).addressed? receiver name = some signature)
    (among : args[position]? = some literal)
    (elemEq : (literalElement (argumentTy (some signature) position)).name = elem)
    (passes : ∀ {operands packed code middle}, operands.length = args.length →
      (∀ operand, operands[position]? = some operand → operand.ty = Ty.arrayOf elem) →
      PacksArguments table (some signature) operands middle code packed after →
      packed[position]? = operands[position]?)
    (run : lowerInvocation table receiver name args expected state = .ok (code, site) after) :
    PassesLiteral table elem elements code site position := by
  obtain ⟨receiverCode, reached, argumentCode, operands, middle, packing, packed, mode, target,
    lowersReceiver, lowersArgs, packs, rfl, rfl⟩ := lowerInvocation_eq_ok addresses run
  obtain ⟨each, lowersEach, rfl, rfl⟩ := lowersEach_of_eq_ok lowersArgs
  have lengthEq := lowersEach.length_eq
  obtain ⟨before, lowered, behind, start, last, rfl, rfl, runLiteral⟩ :=
    lowersEach.at_position among
  have builds := (lowersExpr_of_eq_ok table literal runLiteral).buildsArray isLiteral
  rw [elemEq] at builds
  have operandEq : ((before ++ lowered :: behind).map Lowered.value)[before.length]? =
      some lowered.value := by
    simp
  have passedEq : packed[before.length]? = some lowered.value := by
    rw [passes (by rw [List.length_map, lengthEq]) ?_ packs, operandEq]
    intro operand found
    cases operandEq.symm.trans found
    exact builds.ty_eq
  refine ⟨receiverCode ++ before.flatMap Lowered.code, lowered,
    behind.flatMap Lowered.code ++ packing, start, ?_, builds, passedEq,
    describesArray_invoke passedEq builds.ty_eq⟩
  simp

/-- A literal that is passed for an array parameter. -/
theorem passesLiteral_of_array_param {param : String}
    (isLiteral : literal.unparen = .arrayInit elements)
    (addresses : (state.context table).addressed? receiver name = some signature)
    (paramEq : signature.params[position]? = some ⟨param, Ty.arrayOf elem⟩)
    (among : args[position]? = some literal)
    (run : lowerInvocation table receiver name args expected state = .ok (code, site) after) :
    PassesLiteral table elem elements code site position := by
  refine passesLiteral_of_lowerInvocation isLiteral addresses among ?_ ?_ run
  · rw [argumentTy_of_array_param paramEq]
    rfl
  · intro operands packed code middle lengthEq _ packs
    refine packs.getElem?_of_array_param paramEq ?_
    rw [lengthEq]
    exact (List.getElem?_eq_some_iff.mp among).1

/-- A literal that stands alone for trailing arguments is an array of integers. -/
theorem passesLiteral_of_trailing {fixed : List Symbol} {last : String}
    (isLiteral : literal.unparen = .arrayInit elements)
    (addresses : (state.context table).addressed? receiver name = some signature)
    (paramsEq : signature.params = fixed ++ [⟨last, Ty.varargOf elem⟩])
    (alone : args.drop fixed.length = [literal])
    (run : lowerInvocation table receiver name args expected state = .ok (code, site) after) :
    PassesLiteral table "int" elements code site fixed.length := by
  have among : args[fixed.length]? = some literal := by
    rw [← Nat.add_zero fixed.length, ← List.getElem?_drop, alone]
    rfl
  have count : args.length = fixed.length + 1 := by
    have single := congrArg List.length alone
    rw [List.length_drop, List.length_singleton] at single
    omega
  refine passesLiteral_of_lowerInvocation isLiteral addresses among ?_ ?_ run
  · rw [argumentTy_of_params paramsEq]
    simp [literalElement, Ty.named, Ty.isArray, Ty.int]
  · intro operands packed code middle lengthEq isArray packs
    obtain ⟨array, trailingEq, _, _, rfl⟩ | ⟨several, _⟩ := packs.cases_of_params paramsEq
    · rw [← trailingEq, List.take_append_drop]
    · -- the operand is alone behind the fixed ones, and an array
      have inside : fixed.length < operands.length := by omega
      have trailingEq : operands.drop fixed.length = [operands[fixed.length]] := by
        rw [List.drop_eq_getElem_cons inside, List.drop_eq_nil_of_le (by omega)]
      have notArray := several _ trailingEq
      rw [isArray _ (List.getElem?_eq_getElem inside)] at notArray
      cases notArray

end Arguments

/-- An array literal, with or without parentheses, is an array of the elements that are
declared where it is assigned, returned or passed. Where it is passed alone for trailing
arguments it is an array of integers. -/
theorem array_literals_take_declared_elements (table : SymbolTable)
    (isLiteral : literal.unparen = .arrayInit elements) (state after : LoweringState)
    (code : Code) :
    (∀ target name ty, target.unparen = .var name → ty.isArray = true →
      lowerStmt table (.assign target literal) state = .ok code after →
      ((state.context table).resolve? name = some (.declared ty) →
        ∃ lowered, BuildsArray table ty.name elements state lowered ∧
          code = lowered.code ++ [.assign (.var name ty) lowered.value]) ∧
      ((state.context table).resolve? name = some (.field ty) →
        ∃ lowered, BuildsArray table ty.name elements state lowered ∧
          code = lowered.code ++ [.putField (selfValue table) name lowered.value])) ∧
    (state.scope.signature.returnTy.isArray = true →
      lowerStmt table (.ret (some literal)) state = .ok code after →
      if state.scope.signature.isMain then code = [.ret none]
      else ∃ lowered,
        BuildsArray table state.scope.signature.returnTy.name elements state lowered ∧
          code = lowered.code ++ [.ret (some lowered.value)]) ∧
    ∀ receiver name args expected site signature,
      (state.context table).addressed? receiver name = some signature →
      lowerInvocation table receiver name args expected state = .ok (code, site) after →
      (∀ position param elem, signature.params[position]? = some ⟨param, Ty.arrayOf elem⟩ →
        args[position]? = some literal → PassesLiteral table elem elements code site position) ∧
      (∀ fixed last elem, signature.params = fixed ++ [⟨last, Ty.varargOf elem⟩] →
        args.drop fixed.length = [literal] →
        PassesLiteral table "int" elements code site fixed.length) := by
  refine ⟨?_, fun isArray run => buildsArray_of_return isLiteral isArray run, ?_⟩
  · intro target name ty targetEq isArray run
    exact ⟨fun resolves => buildsArray_of_variable isLiteral targetEq resolves isArray run,
      fun resolves => buildsArray_of_field isLiteral targetEq resolves isArray run⟩
  · intro receiver name args expected site signature addresses run
    refine ⟨?_, ?_⟩
    · intro position param elem paramEq among
      exact passesLiteral_of_array_param isLiteral addresses paramEq among run
    · intro fixed last elem paramsEq alone
      exact passesLiteral_of_trailing isLiteral addresses paramsEq alone run

/-- A method that takes and returns an array of truth values. -/
def keepSignature : MethodSignature where
  name := "keep"
  returnTy := Ty.arrayOf "boolean"
  params := [⟨"flags", Ty.arrayOf "boolean"⟩]

/-- A class with a field and methods for arrays of truth values; the second method collects
them. -/
def flagsTable : SymbolTable where
  className := "Flags"
  fields := [⟨"all", Ty.arrayOf "boolean"⟩]
  methods := [keepSignature,
    { name := "collect", returnTy := Ty.void, params := [⟨"flags", Ty.varargOf "boolean"⟩] }]

/-- The elements of a literal of truth values. -/
def flagElements : List Expr := [.bool true, .bool false]

theorem array_literals_flagsTable :
    (∃ code after lowered,
      lowerStmt flagsTable (.assign (.var "flags") (.paren (.arrayInit flagElements)))
        { scope := { signature := keepSignature } } = .ok code after ∧
      BuildsArray flagsTable "boolean" flagElements { scope := { signature := keepSignature } }
        lowered ∧
      code = lowered.code ++ [.assign (.var "flags" (Ty.arrayOf "boolean")) lowered.value]) ∧
    (∃ code after lowered,
      lowerStmt flagsTable (.assign (.var "all") (.paren (.arrayInit flagElements)))
        { scope := { signature := keepSignature } } = .ok code after ∧
      BuildsArray flagsTable "boolean" flagElements { scope := { signature := keepSignature } }
        lowered ∧
      code = lowered.code ++ [.putField (selfValue flagsTable) "all" lowered.value]) ∧
    (∃ code after lowered,
      lowerStmt flagsTable (.ret (some (.paren (.arrayInit flagElements))))
        { scope := { signature := keepSignature } } = .ok code after ∧
      BuildsArray flagsTable "boolean" flagElements { scope := { signature := keepSignature } }
        lowered ∧
      code = lowered.code ++ [.ret (some lowered.value)]) ∧
    (∃ code site after,
      lowerInvocation flagsTable none "keep" [.paren (.arrayInit flagElements)] Ty.void {} =
        .ok (code, site) after ∧
      PassesLiteral flagsTable "boolean" flagElements code site 0) ∧
    ∃ code site after,
      lowerInvocation flagsTable none "collect" [.paren (.arrayInit flagElements)] Ty.void {} =
        .ok (code, site) after ∧
      PassesLiteral flagsTable "int" flagElements code site 0 := by
  have isLiteral : (Expr.paren (.arrayInit flagElements)).unparen = .arrayInit flagElements := rfl
  have literals := array_literals_take_declared_elements flagsTable isLiteral
  refine ⟨?_, ?_, ?_, ?_, ?_⟩
  · obtain ⟨code, after, run⟩ := exists_ok_of_isSome (by decide +kernel :
      ((lowerStmt flagsTable (.assign (.var "flags") (.paren (.arrayInit flagElements)))).run'
        { scope := { signature := keepSignature } }).isSome = true)
    obtain ⟨lowered, builds, codeEq⟩ := ((literals _ after code).1 _ _ _ rfl rfl run).1 rfl
    exact ⟨code, after, lowered, run, builds, codeEq⟩
  · obtain ⟨code, after, run⟩ := exists_ok_of_isSome (by decide +kernel :
      ((lowerStmt flagsTable (.assign (.var "all") (.paren (.arrayInit flagElements)))).run'
        { scope := { signature := keepSignature } }).isSome = true)
    obtain ⟨lowered, builds, codeEq⟩ := ((literals _ after code).1 _ _ _ rfl rfl run).2 rfl
    exact ⟨code, after, lowered, run, builds, codeEq⟩
  · obtain ⟨code, after, run⟩ := exists_ok_of_isSome (by decide +kernel :
      ((lowerStmt flagsTable (.ret (some (.paren (.arrayInit flagElements))))).run'
        { scope := { signature := keepSignature } }).isSome = true)
    obtain ⟨lowered, builds, codeEq⟩ := (literals _ after code).2.1 rfl run
    exact ⟨code, after, lowered, run, builds, codeEq⟩
  · obtain ⟨⟨code, site⟩, after, run⟩ := exists_ok_of_isSome (by decide +kernel :
      ((lowerInvocation flagsTable none "keep" [.paren (.arrayInit flagElements)] Ty.void).run'
        {}).isSome = true)
    have passes := ((literals _ after code).2.2 _ _ _ _ _ _ rfl run).1 0 _ _ rfl rfl
    exact ⟨code, site, after, run, passes⟩
  · obtain ⟨⟨code, site⟩, after, run⟩ := exists_ok_of_isSome (by decide +kernel :
      ((lowerInvocation flagsTable none "collect" [.paren (.arrayInit flagElements)] Ty.void).run'
        {}).isSome = true)
    have passes := ((literals _ after code).2.2 _ _ _ _ _ _ rfl run).2 [] _ _ rfl rfl
    exact ⟨code, site, after, run, passes⟩

/-- A literal of truth values is no array of truth values where these are collected. -/
theorem not_passesLiteral_boolean_flagsTable :
    ∃ code site after,
      lowerInvocation flagsTable none "collect" [.arrayInit flagElements] Ty.void {} =
        .ok (code, site) after ∧
      ¬PassesLiteral flagsTable "boolean" flagElements code site 0 := by
  have tys : ((lowerInvocation flagsTable none "collect" [.arrayInit flagElements] Ty.void).run'
      {}).map (fun prepared => prepared.2.args.map Value.ty) = some [Ty.arrayOf "int"] := by
    decide +kernel
  obtain ⟨⟨code, site⟩, after, run⟩ := exists_ok_of_isSome (by decide +kernel :
    ((lowerInvocation flagsTable none "collect" [.arrayInit flagElements] Ty.void).run'
      {}).isSome = true)
  delta EStateM.run' EStateM.run at tys
  rw [run] at tys
  refine ⟨code, site, after, run, ?_⟩
  rintro ⟨_, lowered, _, _, _, builds, passedEq, _⟩
  have typed := congrArg (·[0]?) (Option.some.inj tys)
  simp [passedEq, builds.ty_eq, Ty.arrayOf] at typed

end ClassCompiler.ThreeAddress
