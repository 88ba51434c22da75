import ClassCompiler.Proofs.Emission.Operations
import ClassCompiler.Proofs.Semantics.Flow

/-!
# Emitted code passes a verifier

The code of every instruction starts and ends with an empty operand stack, and the
stacks in between follow from the operands that are loaded. This module says so for
any marks that a verifier keeps of the values on the stack: with one mark for all
values it counts them, with a mark for each category it checks categories. What the
marks have to agree on is stated for each instruction as `Agrees`.
-/

namespace ClassCompiler.StackCode

open ThreeAddress (Value Call)

/-! ## Categories -/

/-- The category of what is pushed for an operand. -/
def pushedCategory : Value → Category
  | .self _ => .ref
  | value => valueCategory value.ty

theorem category_elementKindOf (ty : Ty) : (elementKindOf ty).category = valueCategory ty := by
  rw [elementKindOf, valueCategory, Ty.isIntLike]
  cases ty.isInt with
  | true => rfl
  | false => cases ty.isBoolean <;> rfl

theorem descriptorOf_eq_void_iff (paths : ClassPaths) (ty : Ty) :
    paths.descriptorOf ty = .void ↔ ty.isVoid = true := by
  rw [Ty.isVoid, beq_iff_eq]
  rcases descriptorOf_cases paths ty with ⟨rfl, descriptorEq⟩ | ⟨rfl, descriptorEq⟩ |
      ⟨rfl, descriptorEq⟩ | ⟨⟨_, _, notVoid⟩, ⟨path, descriptorEq⟩ | ⟨elem, descriptorEq⟩⟩ <;>
    rw [descriptorEq]
  · exact iff_of_false (by simp) (by decide)
  · exact iff_of_false (by simp) (by decide)
  · exact iff_of_true rfl rfl
  · exact iff_of_false (by simp) notVoid
  · exact iff_of_false (by simp) notVoid

/-- The category of the result that a call leaves. -/
def resultCategory (call : Call) : Category :=
  match call.invocation with
  | .arrayLength => .int
  | .new | .newArray => .ref
  | .invoke _ => valueCategory call.returnTy

section

variable {α : Type} (mark : Category → α)

/-! ## What marks agree on -/

/-- Elements in an operand are taken from an array at an integer position. -/
def Regular : Value → Prop
  | .element array position _ => Regular array ∧ Regular position ∧
      mark (pushedCategory array) = mark .ref ∧ mark (pushedCategory position) = mark .int
  | _ => True

/-- A regular operand whose mark is that of a category. -/
def HasMark (value : Value) (category : Category) : Prop :=
  Regular mark value ∧ mark (pushedCategory value) = mark category

/-- The operands of a call have the marks that the call expects. -/
def AgreesCall (call : Call) : Prop :=
  match call.invocation, call.target, call.args with
  | .newArray, _, size :: _ => HasMark mark size .int
  | .arrayLength, some array, _ => HasMark mark array .ref
  | .invoke mode, some target, args =>
      (mode ≠ .static → HasMark mark target .ref) ∧
        ∀ arg ∈ args, HasMark mark arg (valueCategory arg.ty)
  | _, _, _ => True

/-- The operands of an instruction have the marks that its code expects. -/
def Agrees (isMain : Bool) : ThreeAddress.Instr → Prop
  | .assign (.element array position ty) value =>
      HasMark mark array .ref ∧ HasMark mark position .int ∧
        HasMark mark value (valueCategory ty)
  | .assign dest value => HasMark mark value (valueCategory dest.ty)
  | .binary dest _ left right =>
      HasMark mark left .int ∧ HasMark mark right .int ∧ mark (valueCategory dest.ty) = mark .int
  | .not dest operand => HasMark mark operand .int ∧ mark (valueCategory dest.ty) = mark .int
  | .getField dest object _ ty =>
      HasMark mark object .ref ∧ mark (valueCategory ty) = mark (valueCategory dest.ty)
  | .putField object _ value =>
      HasMark mark object .ref ∧ HasMark mark value (valueCategory value.ty)
  | .call dest call => AgreesCall mark call ∧
      ∀ value ∈ dest, mark (resultCategory call) = mark (valueCategory value.ty)
  | .ret (some value) => isMain = false → HasMark mark value (valueCategory value.ty)
  | .branch cond _ => HasMark mark cond .int
  | .ret none | .goto _ | .label _ => True

/-! ## Labels -/

open Classical in
/-- The stack at a label: at the end of a comparison there is its truth value, and no
value at any other label. -/
noncomputable def labelStack (name : String) : List α :=
  if ∃ kind number, name = endLabel kind number then [mark .int] else []

theorem labelStack_endLabel (kind : Comparison) (number : Nat) :
    labelStack mark (endLabel kind number) = [mark .int] :=
  if_pos ⟨kind, number, rfl⟩

theorem labelStack_trueLabel (kind : Comparison) (number : Nat) :
    labelStack mark (trueLabel kind number) = [] := by
  apply if_neg
  rintro ⟨other, otherNumber, same⟩
  exact trueLabel_ne_endLabel _ _ _ _ same

theorem labelStack_eq_nil {name : String} (foreign : ¬IsComparisonLabel name) :
    labelStack mark name = [] := by
  apply if_neg
  rintro ⟨kind, number, same⟩
  exact foreign ⟨kind, number, .inr same⟩

/-! ## Passing lines -/

/-- Lines that a verifier passes from one stack to another. -/
def Passes (limit : Nat) (lines : Lines) (entry exit : List α) : Prop :=
  ∃ profile, Checks mark (labelStack mark) limit lines entry profile exit

variable {mark} {limit : Nat} {lines first second : Lines} {entry middle exit : List α}

theorem passes_nil (bounded : entry.length ≤ limit) : Passes mark limit [] entry entry :=
  ⟨[], .nil bounded⟩

theorem Passes.append (passesFirst : Passes mark limit first entry middle)
    (passesSecond : Passes mark limit second middle exit) :
    Passes mark limit (first ++ second) entry exit := by
  obtain ⟨_, checksFirst⟩ := passesFirst
  obtain ⟨_, checksSecond⟩ := passesSecond
  exact ⟨_, checksFirst.append checksSecond⟩

theorem Passes.label {name : String} (bounded : entry.length ≤ limit)
    (agrees : labelStack mark name = entry) (passesRest : Passes mark limit lines entry exit) :
    Passes mark limit (.label name :: lines) entry exit := by
  obtain ⟨_, checksRest⟩ := passesRest
  exact ⟨_, .label bounded agrees checksRest⟩

theorem Passes.instr {instr : Instr} (bounded : entry.length ≤ limit)
    (fits : Fits mark instr.operands entry)
    (goesOn : instr.fallsThrough = true → middle = instr.stackAfter mark entry)
    (jumps : ∀ target ∈ instr.target?, labelStack mark target = instr.stackAfter mark entry)
    (passesRest : Passes mark limit lines middle exit) :
    Passes mark limit (.instr instr :: lines) entry exit := by
  obtain ⟨_, checksRest⟩ := passesRest
  exact ⟨_, .instr bounded fits goesOn jumps checksRest⟩

theorem Passes.straight {instr : Instr} (isStraight : instr.IsStraight)
    (bounded : entry.length ≤ limit) (fits : Fits mark instr.operands entry)
    (passesRest : Passes mark limit lines (instr.stackAfter mark entry) exit) :
    Passes mark limit (.instr instr :: lines) entry exit :=
  .instr bounded fits (fun _ => rfl) (by simp [isStraight.target?_eq_none]) passesRest

/-- Nothing is passed on after a return. -/
theorem passes_ret {category : Option Category} (bounded : entry.length ≤ limit)
    (fits : Fits mark (Instr.ret category).operands entry) :
    Passes mark limit [.instr (.ret category)] entry [] :=
  .instr bounded fits (fun falls => absurd falls Bool.false_ne_true) (by simp [Instr.target?])
    (passes_nil (Nat.zero_le _))

theorem fits_map_some (categories : List Category) (rest : List α) :
    Fits mark (categories.map some) (categories.map mark ++ rest) := by
  induction categories with
  | nil => trivial
  | cons category categories ih => exact ⟨rfl, ih⟩

/-- A straight instruction is passed if its operands are on the stack and there is room
for its results. -/
theorem passes_instr {instr : Instr} (taken given : List Category) (rest : List α)
    (straight : instr.IsStraight) (operandsEq : instr.operands = taken.map some)
    (resultsEq : instr.results = given) (bounded : taken.length + rest.length ≤ limit)
    (room : given.length + rest.length ≤ limit) :
    Passes mark limit [.instr instr] (taken.map mark ++ rest) (given.map mark ++ rest) := by
  have after : instr.stackAfter mark (taken.map mark ++ rest) = given.map mark ++ rest := by
    simp [Instr.stackAfter, operandsEq, resultsEq]
  have fits : Fits mark instr.operands (taken.map mark ++ rest) :=
    operandsEq ▸ fits_map_some taken rest
  apply Passes.straight straight (by simpa using bounded) fits
  rw [after]
  exact passes_nil (by simpa using room)

/-! ## Values -/

theorem passes_push {instr : Instr} {category : Category} (straight : instr.IsStraight)
    (noOperands : instr.operands = []) (results : instr.results = [category])
    (room : entry.length + 1 ≤ limit) :
    Passes mark limit [.instr instr] entry (mark category :: entry) :=
  passes_instr [] [category] entry straight noOperands results (by simp; omega) (by simp; omega)

/-- The code of an operand pushes its mark. -/
theorem passes_loadCode {names : List String} {value : Value} (loadable : Loadable names value)
    (regular : Regular mark value) (room : entry.length + loadHeight value ≤ limit) :
    Passes mark limit (loadCode names value) entry (mark (pushedCategory value) :: entry) := by
  induction value generalizing entry with
  | const constant => cases constant <;> exact passes_push trivial rfl rfl room
  | self ty | temp name ty | var name ty => exact passes_push trivial rfl rfl room
  | classRef name => exact loadable.elim
  | element array position ty arrayPasses positionPasses =>
      obtain ⟨arrayRegular, positionRegular, arrayMark, positionMark⟩ := regular
      rw [loadHeight] at room
      have bound := one_le_loadHeight position
      have loadsArray : Passes mark limit (loadCode names array) entry
          (mark (pushedCategory array) :: entry) :=
        arrayPasses loadable.1 arrayRegular (by omega)
      have loadsPosition : Passes mark limit (loadCode names position)
          (mark (pushedCategory array) :: entry)
          (mark (pushedCategory position) :: mark (pushedCategory array) :: entry) :=
        positionPasses loadable.2 positionRegular (by rw [List.length_cons]; omega)
      apply (loadsArray.append loadsPosition).append
      rw [arrayMark, positionMark, pushedCategory, ← category_elementKindOf]
      · exact passes_instr [.int, .ref] [(elementKindOf ty).category] entry trivial rfl rfl
          (by simp; omega) (by simp; omega)
      · exact nofun

/-- The code of an operand with the mark of a category pushes that mark. -/
theorem passes_load {names : List String} {value : Value} {category : Category}
    (loadable : Loadable names value) (hasMark : HasMark mark value category)
    (room : entry.length + loadHeight value ≤ limit) :
    Passes mark limit (loadCode names value) entry (mark category :: entry) :=
  hasMark.2 ▸ passes_loadCode loadable hasMark.1 room

/-- The code of operands pushes their marks one after the other. -/
theorem passes_loads {names : List String} {values : List Value} {categories : List Category}
    (loadable : ∀ value ∈ values, Loadable names value)
    (marks : List.Forall₂ (HasMark mark) values categories)
    (room : entry.length + loadsHeight values ≤ limit) :
    Passes mark limit (loadsCode names values) entry (categories.reverse.map mark ++ entry) := by
  induction marks generalizing entry with
  | nil => exact passes_nil (by simpa [loadsHeight] using room)
  | @cons value category values categories hasMark _ ih =>
      rw [loadsHeight] at room
      obtain ⟨loads, restLoads⟩ := List.forall_mem_cons.mp loadable
      rw [loadsCode, List.flatMap_cons, List.reverse_cons, List.map_append, List.append_assoc]
      apply (passes_load loads hasMark (by omega)).append
      exact ih restLoads (by rw [List.length_cons]; omega)

/-- The code that stores the top of the stack drops its mark. -/
theorem passes_storeCode {names : List String} {dest : Value} (storable : Storable names dest)
    {top : α} (fits : top = mark (valueCategory dest.ty)) (bounded : entry.length + 1 ≤ limit) :
    Passes mark limit (storeCode names dest) (top :: entry) entry := by
  subst fits
  have stores (slot : Nat) : Passes mark limit [.instr (.store (valueCategory dest.ty) slot)]
      (mark (valueCategory dest.ty) :: entry) entry :=
    passes_instr [valueCategory dest.ty] [] entry trivial rfl rfl (by simp; omega) (by simp; omega)
  cases dest with
  | temp name ty => exact stores _
  | var name ty => exact stores _
  | _ => exact storable.elim

/-! ## Operators -/

/-- The code of a comparison is passed on both of its ways. -/
theorem passes_comparisonCode (kind : Comparison) (number : Nat) (room : 2 ≤ limit) :
    Passes mark limit (comparisonCode kind number) [mark .int, mark .int] [mark .int] := by
  have one : 1 ≤ limit := by omega
  have zero : 0 ≤ limit := Nat.zero_le limit
  have whenTrue := labelStack_trueLabel mark kind number
  have atEnd := labelStack_endLabel mark kind number
  have jumps {name : String} {stack : List α} (agrees : labelStack mark name = stack) :
      ∀ target ∈ some name, labelStack mark target = stack := by
    rintro _ ⟨⟩
    exact agrees
  have holds : Passes mark limit [.label (trueLabel kind number), .instr (.pushInt 1),
      .label (endLabel kind number)] [] [mark .int] := by
    refine .label zero whenTrue ?_
    refine .straight trivial zero trivial ?_
    exact .label one atEnd (passes_nil one)
  refine .straight trivial room ⟨rfl, rfl, trivial⟩ ?_
  refine .instr one ⟨rfl, trivial⟩ (fun _ => rfl) (jumps whenTrue) ?_
  refine .straight trivial zero trivial ?_
  exact .instr one trivial (fun falls => absurd falls Bool.false_ne_true) (jumps atEnd) holds

theorem passes_operatorCode (counts : ComparisonCounts) (op : BinaryOp) (room : 2 ≤ limit) :
    Passes mark limit (operatorCode counts op) [mark .int, mark .int] [mark .int] := by
  cases op with
  | arith op | and =>
      exact passes_instr [.int, .int] [.int] [] trivial rfl rfl room (by simp; omega)
  | compare kind => exact passes_comparisonCode kind _ room

/-! ## Calls -/

/-- The marks that a call leaves. -/
def callMarks (mark : Category → α) (call : Call) : List α :=
  if leavesValue call then [mark (resultCategory call)] else []

/-- The categories of the operands of an invocation. -/
def operandCategories (mode : ThreeAddress.InvokeMode) (args : List Value) : List Category :=
  (if mode = .static then [] else [.ref]) ++ args.map fun arg => valueCategory arg.ty

theorem operands_invoke (linkage : Linkage) (mode : ThreeAddress.InvokeMode)
    (owner method : String) (args : List Value) (returnTy : Ty) :
    (Instr.invoke mode owner method
      (linkage.paths.signatureOf (args.map Value.ty) returnTy)).operands =
      (operandCategories mode args).reverse.map some := by
  have params : ((args.map Value.ty).map linkage.paths.descriptorOf).map
      (fun param => some param.category) = args.map fun arg => some (valueCategory arg.ty) := by
    simp [category_descriptorOf]
  rw [Instr.operands, ClassPaths.signatureOf, params, operandCategories]
  by_cases isStatic : mode = .static
  · simp [isStatic]
  · simp [isStatic]

theorem results_invoke (linkage : Linkage) (mode : ThreeAddress.InvokeMode)
    (owner method : String) (tys : List Ty) (returnTy : Ty) :
    (Instr.invoke mode owner method (linkage.paths.signatureOf tys returnTy)).results =
      if returnTy.isVoid then [] else [valueCategory returnTy] := by
  rw [Instr.results, ClassPaths.signatureOf, category_descriptorOf]
  simp only [descriptorOf_eq_void_iff]

theorem forall₂_operandsOf {mode : ThreeAddress.InvokeMode} {target : Value} {args : List Value}
    (targetMark : mode ≠ .static → HasMark mark target .ref)
    (argMarks : ∀ arg ∈ args, HasMark mark arg (valueCategory arg.ty)) :
    List.Forall₂ (HasMark mark) (operandsOf mode target args) (operandCategories mode args) := by
  have argsMarked :
      List.Forall₂ (HasMark mark) args (args.map fun arg => valueCategory arg.ty) := by
    rw [List.forall₂_map_right_iff, List.forall₂_same]
    exact argMarks
  rw [operandsOf, operandCategories]
  by_cases isStatic : mode = .static
  · rw [if_pos isStatic, if_pos isStatic]
    exact argsMarked
  · rw [if_neg isStatic, if_neg isStatic]
    exact .cons (targetMark isStatic) argsMarked

/-- The code of an invocation loads the operands and leaves the result. -/
theorem passes_invokeCode {linkage : Linkage} {names : List String}
    {mode : ThreeAddress.InvokeMode} {target : Value} {args : List Value} {returnTy : Ty}
    (loadable : ∀ value ∈ operandsOf mode target args, Loadable names value)
    (targetMark : mode ≠ .static → HasMark mark target .ref)
    (argMarks : ∀ arg ∈ args, HasMark mark arg (valueCategory arg.ty))
    (room : loadsHeight (operandsOf mode target args) ≤ limit)
    (roomForResult : returnTy.isVoid = false → 1 ≤ limit) (owner method : String) :
    Passes mark limit
      (loadsCode names (operandsOf mode target args) ++ [.instr (.invoke mode owner method
        (linkage.paths.signatureOf (args.map Value.ty) returnTy))])
      [] ((if returnTy.isVoid then [] else [valueCategory returnTy]).map mark) := by
  have marks := forall₂_operandsOf targetMark argMarks
  have bounded : (operandCategories mode args).length ≤ limit := by
    rw [← marks.length_eq]
    exact (length_le_loadsHeight _).trans room
  apply (passes_loads loadable marks (by simpa using room)).append
  rw [← List.append_nil ((if returnTy.isVoid then [] else [valueCategory returnTy]).map mark)]
  refine passes_instr _ _ [] trivial (operands_invoke ..) (results_invoke ..) ?_ ?_
  · simpa using bounded
  · cases isVoid : returnTy.isVoid with
    | true => exact Nat.zero_le _
    | false => exact roomForResult isVoid

/-- The code of a call leaves its result. -/
theorem passes_callCode {linkage : Linkage} {names : List String} {call : Call}
    (callable : Callable names call) (agrees : AgreesCall mark call)
    (room : callHeight call ≤ limit) :
    Passes mark limit (callCode linkage names call) [] (callMarks mark call) := by
  obtain ⟨invocation, target, method, args, returnTy⟩ := call
  cases invocation with
  | new => exact passes_push trivial rfl rfl room
  | newArray =>
      cases args with
      | nil => exact callable.elim
      | cons size rest =>
          change loadHeight size ≤ limit at room
          have one := (one_le_loadHeight size).trans room
          apply (passes_load callable.1 agrees (by simpa using room)).append
          exact passes_instr [.int] [.ref] [] trivial rfl rfl one one
  | arrayLength =>
      cases target with
      | none => exact callable.elim
      | some array =>
          change loadHeight array ≤ limit at room
          have one := (one_le_loadHeight array).trans room
          apply (passes_load callable agrees (by simpa using room)).append
          exact passes_instr [.ref] [.int] [] trivial rfl rfl one one
  | invoke mode =>
      cases target with
      | none => exact callable.elim
      | some target =>
          cases method with
          | none => exact callable.elim
          | some method =>
              obtain ⟨room, roomForResult⟩ := Nat.max_le.mp room
              have marksEq :
                  callMarks mark ⟨.invoke mode, some target, some method, args, returnTy⟩ =
                    (if returnTy.isVoid then [] else [valueCategory returnTy]).map mark := by
                cases isVoid : returnTy.isVoid <;>
                  simp [callMarks, leavesValue, Call.returnsValue, resultCategory, isVoid]
              rw [marksEq]
              apply passes_invokeCode callable.2.1 agrees.1 agrees.2 room
              intro hasResult
              simpa [Call.returnsValue, hasResult] using roomForResult

/-- The result of a call is stored or dropped. -/
theorem passes_resultCode {names : List String} {dest : Option Value} {call : Call}
    (receivable : Receivable names dest call) (dropped : leftOver (.call dest call) = 0)
    (agrees : ∀ value ∈ dest, mark (resultCategory call) = mark (valueCategory value.ty))
    (room : leavesValue call = true → 1 ≤ limit) :
    Passes mark limit (resultCode names dest call) (callMarks mark call) [] := by
  cases dest with
  | some dest =>
      rw [callMarks, if_pos receivable.1]
      exact passes_storeCode receivable.2 (agrees dest rfl) (room receivable.1)
  | none =>
      cases returns : call.returnsValue with
      | true =>
          have leaves : leavesValue call = true := by
            unfold leavesValue
            split
            · exact returns
            · rfl
          rw [resultCode, returns, if_pos rfl, callMarks, if_pos leaves]
          exact .straight trivial (room leaves) trivial (passes_nil (Nat.zero_le _))
      | false =>
          have leavesNone : leavesValue call = false := by
            simpa [leftOver, returns] using dropped
          rw [resultCode, returns, if_neg Bool.false_ne_true, callMarks, leavesNone,
            if_neg Bool.false_ne_true]
          exact passes_nil (Nat.zero_le _)

theorem one_le_callHeight {names : List String} {call : Call} (callable : Callable names call)
    (leaves : leavesValue call = true) : 1 ≤ callHeight call := by
  obtain ⟨invocation, target, method, args, returnTy⟩ := call
  cases invocation with
  | new => exact Nat.le_refl 1
  | newArray =>
      cases args with
      | nil => exact callable.elim
      | cons size rest => exact one_le_loadHeight size
  | arrayLength =>
      cases target with
      | none => exact callable.elim
      | some array => exact one_le_loadHeight array
  | invoke mode =>
      cases target with
      | none => exact callable.elim
      | some target =>
          apply Nat.le_trans _ (Nat.le_max_right _ _)
          change Call.returnsValue _ = true at leaves
          rw [leaves]
          exact Nat.le_refl 1

/-! ## Instructions -/

section

variable {linkage : Linkage} {isMain : Bool} {names : List String} {counts : ComparisonCounts}

theorem passes_assign {dest value : Value} (hasCode : HasCode isMain names (.assign dest value))
    (agrees : Agrees mark isMain (.assign dest value))
    (room : instrHeight isMain (.assign dest value) ≤ limit) :
    Passes mark limit (instrCode linkage isMain names counts (.assign dest value)) [] [] := by
  have stores (storable : Storable names dest) (loadable : Loadable names value)
      (hasMark : HasMark mark value (valueCategory dest.ty))
      (room : loadHeight value ≤ limit) :
      Passes mark limit (loadCode names value ++ storeCode names dest) [] [] :=
    (passes_load loadable hasMark (by simpa using room)).append
      (passes_storeCode storable rfl ((one_le_loadHeight value).trans room))
  cases dest with
  | element array position ty =>
      obtain ⟨arrayLoads, positionLoads, valueLoads⟩ := hasCode
      obtain ⟨arrayMark, positionMark, valueMark⟩ := agrees
      change loadsHeight [array, position, value] ≤ limit at room
      have three := (length_le_loadsHeight [array, position, value]).trans room
      apply (passes_loads (by simp [arrayLoads, positionLoads, valueLoads])
        (.cons arrayMark (.cons positionMark (.cons valueMark .nil)))
        (by simpa using room)).append
      rw [← category_elementKindOf]
      exact passes_instr [(elementKindOf ty).category, .int, .ref] [] [] trivial rfl rfl three
        (Nat.zero_le _)
  | temp name ty | var name ty => exact stores hasCode.2 hasCode.1 agrees room
  | const constant | self ty | classRef name => exact hasCode.2.elim

theorem passes_binary {dest left right : Value} {op : BinaryOp}
    (hasCode : HasCode isMain names (.binary dest op left right))
    (agrees : Agrees mark isMain (.binary dest op left right))
    (room : instrHeight isMain (.binary dest op left right) ≤ limit) :
    Passes mark limit (instrCode linkage isMain names counts (.binary dest op left right)) []
      [] := by
  obtain ⟨leftMark, rightMark, destMark⟩ := agrees
  cases found : increment? dest op left right with
  | some increment =>
      simp only [instrCode, found]
      exact passes_instr [] [] [] trivial rfl rfl (Nat.zero_le _) (Nat.zero_le _)
  | none =>
      simp only [HasCode, found] at hasCode
      obtain ⟨leftLoads, rightLoads, storable⟩ := hasCode
      simp only [instrHeight, found, Option.isSome_none, Bool.false_eq_true, if_false] at room
      have two := (length_le_loadsHeight [left, right]).trans room
      simp only [instrCode, found]
      have loads :
          Passes mark limit (loadsCode names [left, right]) [] [mark .int, mark .int] :=
        passes_loads (by simp [leftLoads, rightLoads]) (.cons leftMark (.cons rightMark .nil))
          (by simpa using room)
      apply (loads.append (passes_operatorCode counts op two)).append
      exact passes_storeCode storable destMark.symm (by simpa using Nat.le_of_succ_le two)

theorem passes_return {value : Option Value} (hasCode : HasCode isMain names (.ret value))
    (agrees : Agrees mark isMain (.ret value)) (room : instrHeight isMain (.ret value) ≤ limit) :
    Passes mark limit (instrCode linkage isMain names counts (.ret value)) [] [] := by
  have returnsNothing : Passes mark limit [.instr (.ret none)] [] [] :=
    passes_ret (Nat.zero_le _) trivial
  cases value with
  | none => exact returnsNothing
  | some value =>
      cases isMain with
      | true => exact returnsNothing
      | false =>
          change loadHeight value ≤ limit at room
          have one := (one_le_loadHeight value).trans room
          have loadable := hasCode.resolve_left Bool.false_ne_true
          apply (passes_load loadable (agrees rfl) (by simpa using room)).append
          apply passes_ret one
          split
          · trivial
          · exact ⟨rfl, trivial⟩

/-- The code of an instruction that leaves the stack empty is passed. -/
theorem passes_instrCode {instr : ThreeAddress.Instr}
    (emittable : Emittable isMain names instr) (agrees : Agrees mark isMain instr)
    (labelEmpty : ∀ name ∈ instr.label?, labelStack mark name = [])
    (targetEmpty : ∀ name ∈ instr.target?, labelStack mark name = [])
    (room : instrHeight isMain instr ≤ limit) :
    Passes mark limit (instrCode linkage isMain names counts instr) [] [] := by
  obtain ⟨hasCode, balanced⟩ := emittable
  cases instr with
  | assign dest value => exact passes_assign hasCode agrees room
  | binary dest op left right => exact passes_binary hasCode agrees room
  | not dest operand =>
      obtain ⟨loadable, storable⟩ := hasCode
      obtain ⟨hasMark, destMark⟩ := agrees
      obtain ⟨room, two⟩ := Nat.max_le.mp room
      have one : 1 ≤ limit := by omega
      have pushesOne : Passes mark limit [.instr (.pushInt 1)] [mark .int] [mark .int, mark .int] :=
        passes_push trivial rfl rfl two
      have flips : Passes mark limit [.instr .xor] [mark .int, mark .int] [mark .int] :=
        passes_instr [.int, .int] [.int] [] trivial rfl rfl two one
      apply ((passes_load loadable hasMark (by simpa using room)).append
        (pushesOne.append flips)).append
      exact passes_storeCode storable destMark.symm one
  | getField dest object field ty =>
      obtain ⟨loadable, _, _, storable⟩ := hasCode
      obtain ⟨hasMark, destMark⟩ := agrees
      change loadHeight object ≤ limit at room
      have one := (one_le_loadHeight object).trans room
      have gets : Passes mark limit
          [.instr (.getField (linkage.paths.classPath object.ty.name) field
            (linkage.paths.descriptorOf ty))] [mark .ref] [mark (valueCategory ty)] := by
        rw [← category_descriptorOf linkage.paths]
        exact passes_instr [.ref] [(linkage.paths.descriptorOf ty).category] [] trivial rfl rfl one
          one
      apply ((passes_load loadable hasMark (by simpa using room)).append gets).append
      exact passes_storeCode storable destMark one
  | putField object field value =>
      obtain ⟨objectLoads, valueLoads, _, _⟩ := hasCode
      obtain ⟨objectMark, valueMark⟩ := agrees
      change loadsHeight [object, value] ≤ limit at room
      have two := (length_le_loadsHeight [object, value]).trans room
      rw [← category_descriptorOf linkage.paths] at valueMark
      apply (passes_loads (by simp [objectLoads, valueLoads])
        (.cons objectMark (.cons valueMark .nil)) (by simpa using room)).append
      exact passes_instr [(linkage.paths.descriptorOf value.ty).category, .ref] [] [] trivial rfl
        rfl two (Nat.zero_le _)
  | call dest call =>
      apply (passes_callCode hasCode.1 agrees.1 room).append
      exact passes_resultCode hasCode.2 balanced agrees.2 fun leaves =>
        (one_le_callHeight hasCode.1 leaves).trans room
  | ret value => exact passes_return hasCode agrees room
  | goto target =>
      exact .instr (Nat.zero_le _) trivial (fun falls => absurd falls Bool.false_ne_true)
        targetEmpty (passes_nil (Nat.zero_le _))
  | branch cond target =>
      change loadHeight cond ≤ limit at room
      have one := (one_le_loadHeight cond).trans room
      apply (passes_load hasCode agrees (by simpa using room)).append
      exact .instr one ⟨rfl, trivial⟩ (fun _ => rfl) targetEmpty (passes_nil (Nat.zero_le _))
  | label name => exact .label (Nat.zero_le _) (labelEmpty name rfl) (passes_nil (Nat.zero_le _))

end

/-! ## Bodies -/

/-- Code that leaves the stack empty again and again is passed. -/
theorem passes_flatten {blocks : List Lines}
    (passes : ∀ block ∈ blocks, Passes mark limit block ([] : List α) []) :
    Passes mark limit blocks.flatten ([] : List α) [] := by
  induction blocks with
  | nil => exact passes_nil (Nat.zero_le _)
  | cons block rest ih =>
      obtain ⟨passesFirst, passesRest⟩ := List.forall_mem_cons.mp passes
      exact passesFirst.append (ih passesRest)

/-- Where lines that are passed meet, the account that follows the stacks shows the
stack between them. -/
theorem Passes.of_reaches_between {σ : Type} {account : Instr → σ → σ} {view : List α → σ}
    (passesFirst : Passes mark limit first entry middle)
    (passesSecond : Passes mark limit second middle exit)
    (follows : ∀ instr stack, Fits mark instr.operands stack →
      account instr (view stack) = view (instr.stackAfter mark stack))
    {state : σ} (reached : Reaches (first ++ second) account (view entry) first.length state) :
    state = view middle := by
  obtain ⟨firstStacks, checksFirst⟩ := passesFirst
  obtain ⟨secondStacks, checksSecond⟩ := passesSecond
  obtain ⟨stack, stackEq, rfl⟩ := (checksFirst.append checksSecond).of_reaches follows reached
  rw [List.append_assoc, ← checksFirst.length_eq, List.getElem?_append_right (Nat.le_refl _),
    Nat.sub_self, checksSecond.getElem?_zero] at stackEq
  cases stackEq
  rfl

end

section

variable (linkage : Linkage) (isMain : Bool) (names : List String)

/-- The code of a body, instruction by instruction. -/
def bodyBlocks (counts : ComparisonCounts) : ThreeAddress.Code → List Lines
  | [] => []
  | instr :: rest =>
      instrCode linkage isMain names counts instr :: bodyBlocks (instrCounts counts instr) rest

theorem flatten_bodyBlocks (counts : ComparisonCounts) (body : ThreeAddress.Code) :
    (bodyBlocks linkage isMain names counts body).flatten =
      bodyCode linkage isMain names counts body := by
  induction body generalizing counts with
  | nil => rfl
  | cons instr rest ih =>
      rw [bodyBlocks, List.flatten_cons, ih, bodyCode]

theorem exists_instr_of_mem_bodyBlocks {counts : ComparisonCounts} {body : ThreeAddress.Code}
    {block : Lines} (member : block ∈ bodyBlocks linkage isMain names counts body) :
    ∃ instr ∈ body, ∃ before, block = instrCode linkage isMain names before instr := by
  induction body generalizing counts with
  | nil => cases member
  | cons instr rest ih =>
      rcases List.mem_cons.mp member with rfl | later
      · exact ⟨instr, List.mem_cons_self, counts, rfl⟩
      · obtain ⟨other, otherMember, found⟩ := ih later
        exact ⟨other, List.mem_cons_of_mem _ otherMember, found⟩

end

end ClassCompiler.StackCode
