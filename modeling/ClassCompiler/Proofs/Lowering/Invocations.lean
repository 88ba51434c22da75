import ClassCompiler.Proofs.Lowering.Growth
import ClassCompiler.Proofs.Lowering.Inversion

/-!
# The parts of a call

The code before a call is the code of its receiver, then the code of its arguments from
left to right, then the code that collects trailing arguments. Only a call of a method of
the current class collects any: those behind the fixed parameters, unless they are a single
array, which is passed on.
-/

namespace ClassCompiler.Semantics

/-- The method of the current class that a call addresses. A call without a receiver
addresses the method of that name. -/
def Context.addressed? (context : Context) (receiver : Option Expr) (name : String) :
    Option MethodSignature :=
  match receiver with
  | none => context.table.method? name
  | some object => context.callee? object (context.typeOf object context.table.classTy) name

end ClassCompiler.Semantics

namespace ClassCompiler.ThreeAddress

open Lowering Effects LoweringState
open Semantics (Context collected? collectedElement?_eq)

/-- The code before a call, with or without a receiver, and the call. -/
def lowerInvocation (table : SymbolTable) (receiver : Option Expr) (name : String)
    (args : List Expr) (expected : Ty) : Lowering (Code × Call) :=
  match receiver with
  | none => lowerSelfCall table name args expected
  | some object => lowerCall table object name args expected

/-- The receiver of a call, and the code that computes it. -/
def lowerReceiver (table : SymbolTable) (receiver : Option Expr) (name : String) :
    Lowering (Code × Receiver) :=
  match receiver with
  | none => implicitReceiver table name
  | some object => explicitReceiver table object (lowerExpr table object table.classTy)

theorem lowerInvocation_eq (table : SymbolTable) (receiver : Option Expr) (name : String)
    (args : List Expr) (expected : Ty) :
    lowerInvocation table receiver name args expected =
      prepareCall table (lowerReceiver table receiver name) name
        (fun expectedAt => lowerExprs table expectedAt args) expected := by
  cases receiver <;> rfl

/-- The code of a receiver. Only an object that the call names needs any. -/
inductive LowersReceiver (table : SymbolTable) :
    Option Expr → LoweringState → Code → LoweringState → Prop where
  | implicit (state : LoweringState) : LowersReceiver table none state [] state
  | named {receiver : Expr} {className : String} {state : LoweringState}
      (names : (state.context table).classNamed? receiver = some className) :
      LowersReceiver table (some receiver) state [] state
  | object {receiver : Expr} {state reached : LoweringState} {lowered : Lowered}
      (namesNone : (state.context table).classNamed? receiver = none)
      (run : lowerExpr table receiver table.classTy state = .ok lowered reached) :
      LowersReceiver table (some receiver) state lowered.code reached

/-- Expressions that are lowered one after the other. -/
inductive LowersEach (table : SymbolTable) :
    (Nat → Ty) → List Expr → LoweringState → List Lowered → LoweringState → Prop where
  | nil (expectedAt : Nat → Ty) (state : LoweringState) :
      LowersEach table expectedAt [] state [] state
  | cons {expectedAt : Nat → Ty} {expr : Expr} {rest : List Expr}
      {state middle after : LoweringState} {first : Lowered} {others : List Lowered}
      (runFirst : lowerExpr table expr (expectedAt 0) state = .ok first middle)
      (lowersRest :
        LowersEach table (fun position => expectedAt (position + 1)) rest middle others after) :
      LowersEach table expectedAt (expr :: rest) state (first :: others) after

variable {table : SymbolTable} {state after : LoweringState}

/-- Expressions are lowered one after the other, and their code stands in that order. -/
theorem lowersEach_of_eq_ok {expectedAt : Nat → Ty} {exprs : List Expr} {code : Code}
    {values : List Value}
    (run : lowerExprs table expectedAt exprs state = .ok (code, values) after) :
    ∃ each, LowersEach table expectedAt exprs state each after ∧
      code = each.flatMap Lowered.code ∧ values = each.map Lowered.value := by
  induction exprs generalizing expectedAt state code values with
  | nil =>
      cases run
      exact ⟨[], .nil _ _, rfl, rfl⟩
  | cons expr rest ih =>
      rw [lowerExprs] at run
      obtain ⟨first, middle, runFirst, others⟩ := bind_eq_ok_iff.mp run
      obtain ⟨⟨restCode, restValues⟩, last, runRest, ends⟩ := bind_eq_ok_iff.mp others
      cases ends
      obtain ⟨each, lowersRest, rfl, rfl⟩ := ih runRest
      exact ⟨first :: each, .cons runFirst lowersRest, rfl, rfl⟩

theorem LowersEach.length_eq {expectedAt : Nat → Ty} {exprs : List Expr} {each : List Lowered}
    (lowers : LowersEach table expectedAt exprs state each after) :
    each.length = exprs.length := by
  induction lowers with
  | nil => rfl
  | cons _ _ ih =>
      rw [List.length_cons, List.length_cons, ih]

/-- The code of one of the expressions stands among the code of all of them. -/
theorem LowersEach.at_position {expectedAt : Nat → Ty} {exprs : List Expr} {each : List Lowered}
    (lowers : LowersEach table expectedAt exprs state each after) {position : Nat} {expr : Expr}
    (among : exprs[position]? = some expr) :
    ∃ before lowered behind reached last, each = before ++ lowered :: behind ∧
      before.length = position ∧
      lowerExpr table expr (expectedAt position) reached = .ok lowered last := by
  induction lowers generalizing position with
  | nil => cases among
  | @cons _ _ _ _ _ _ first _ runFirst _ ih =>
      cases position with
      | zero =>
          cases among
          exact ⟨[], first, _, _, _, rfl, rfl, runFirst⟩
      | succ position =>
          obtain ⟨before, lowered, behind, reached, last, rfl, lengthEq, run⟩ :=
            ih among
          exact ⟨first :: before, lowered, behind, reached, last, rfl, by simp [lengthEq], run⟩

/-- The receiver of a call, and the method of the current class that the call addresses. -/
theorem lowersReceiver_of_eq_ok {receiver : Option Expr} {name : String} {code : Code}
    {found : Receiver}
    (run : lowerReceiver table receiver name state = .ok (code, found) after) :
    LowersReceiver table receiver state code after ∧
      ownMethod? table found name = (state.context table).addressed? receiver name := by
  cases receiver with
  | none =>
      rw [lowerReceiver, implicitReceiver_apply] at run
      split at run
      · cases run
        exact ⟨.implicit _, by simp [ownMethod?, Context.addressed?]⟩
      · cases run
        exact ⟨.implicit _, by simp [ownMethod?, Context.addressed?, selfValue, Value.ty]⟩
  | some object =>
      rw [Context.addressed?, Context.callee?]
      obtain ⟨className, named, rfl, rfl, rfl⟩ | ⟨notNamed, lowered, lowers, rfl, rfl⟩ :=
        explicitReceiver_eq_ok run
      · rw [named]
        exact ⟨.named named, rfl⟩
      · rw [notNamed, table_context, ← (lowersExpr_of_eq_ok table object lowers).ty_eq]
        exact ⟨.object notNamed lowers, rfl⟩

/-- The parts of the code before a call, and the call that is made. -/
theorem lowerInvocation_eq_ok {receiver : Option Expr} {name : String} {args : List Expr}
    {expected : Ty} {code : Code} {site : Call} {own : Option MethodSignature}
    (addresses : (state.context table).addressed? receiver name = own)
    (run : lowerInvocation table receiver name args expected state = .ok (code, site) after) :
    ∃ receiverCode reached argumentCode operands middle packing packed mode target,
      LowersReceiver table receiver state receiverCode reached ∧
      lowerExprs table (argumentTy own) args reached = .ok (argumentCode, operands) middle ∧
      PacksArguments table own operands middle packing packed after ∧
      code = receiverCode ++ argumentCode ++ packing ∧
      site = .invoke mode target name packed (Context.resultTy own expected) := by
  rw [lowerInvocation_eq] at run
  obtain ⟨receiverCode, found, reached, argumentCode, operands, middle, packing, packed,
    receives, lowersArgs, packs, codeEq, siteEq⟩ := prepareCall_eq_ok_iff.mp run
  obtain ⟨lowersReceiver, ownEq⟩ := lowersReceiver_of_eq_ok receives
  rw [ownEq, addresses] at lowersArgs packs siteEq
  exact ⟨receiverCode, reached, argumentCode, operands, middle, packing, packed, _, _,
    lowersReceiver, lowersArgs, packsArguments_of_eq_ok packs, codeEq, siteEq⟩

/-! ## Methods with trailing arguments -/

section Vararg

variable {signature : MethodSignature} {fixed : List Symbol} {last elem : String}

theorem varargElement?_of_params
    (paramsEq : signature.params = fixed ++ [⟨last, Ty.varargOf elem⟩]) :
    varargElement? (some signature) = some (Ty.named elem) := by
  simp [varargElement?, MethodSignature.isVararg, paramsEq, Ty.varargOf, Ty.isVararg, Ty.element,
    Ty.named]

/-- An argument is expected to have the type of its parameter, and a trailing argument that
of the elements. -/
theorem argumentTy_of_params (paramsEq : signature.params = fixed ++ [⟨last, Ty.varargOf elem⟩])
    (position : Nat) :
    argumentTy (some signature) position =
      ((fixed[position]?).map Symbol.ty).getD (Ty.named elem) := by
  rw [argumentTy, varargElement?_of_params paramsEq]
  simp only [calleeParams, paramsEq, List.length_append, List.length_singleton,
    Nat.add_sub_cancel]
  split
  · next trailing => simp [List.getElem?_eq_none trailing]
  · next leading =>
      rw [List.getElem?_append_left (by omega), List.getElem?_eq_getElem (by omega)]
      rfl

/-- The trailing arguments are passed on if they are a single array, and otherwise packed. -/
theorem PacksArguments.cases_of_params {operands packed : List Value} {code : Code}
    (packs : PacksArguments table (some signature) operands state code packed after)
    (paramsEq : signature.params = fixed ++ [⟨last, Ty.varargOf elem⟩]) :
    (∃ array, operands.drop fixed.length = [array] ∧ array.ty.isArray = true ∧ code = [] ∧
        packed = operands.take fixed.length ++ [array]) ∨
      (∀ array, operands.drop fixed.length = [array] → array.ty.isArray = false) ∧
        (operands.drop fixed.length).length < 2147483648 ∧
        code = packCode table (Ty.named elem) (operands.drop fixed.length) state ∧
        packed = operands.take fixed.length ++ [state.nextTemp table (Ty.arrayOf elem)] := by
  have collectedEq := collected?_map_ty (varargElement?_of_params paramsEq) operands
  simp only [calleeParams, paramsEq, List.length_append, List.length_singleton,
    Nat.add_sub_cancel] at collectedEq
  cases packs with
  | kept collects =>
      rw [collects] at collectedEq
      split at collectedEq
      · next single =>
          obtain ⟨array, trailingEq⟩ := List.length_eq_one_iff.mp single.1
          refine .inl ⟨array, trailingEq, by simpa [trailingEq] using single.2, rfl, ?_⟩
          rw [← trailingEq, List.take_append_drop]
      · cases collectedEq
  | collected collects bound =>
      rw [collects] at collectedEq
      split at collectedEq
      · cases collectedEq
      · next several =>
          cases collectedEq
          refine .inr ⟨fun array trailingEq => ?_, bound, rfl, rfl⟩
          simpa [trailingEq] using several

/-- A parameter that is a plain array does not collect arguments. -/
theorem lt_of_array_param {found : Ty} {position : Nat} {param : String}
    (collects : varargElement? (some signature) = some found)
    (paramEq : signature.params[position]? = some ⟨param, Ty.arrayOf elem⟩) :
    position < signature.params.length - 1 := by
  have inside : position < signature.params.length := (List.getElem?_eq_some_iff.mp paramEq).1
  rcases Nat.lt_or_ge position (signature.params.length - 1) with leading | trailing
  · exact leading
  · have positionEq : signature.params.length - 1 = position := by omega
    simp [varargElement?, MethodSignature.isVararg, List.getLast?_eq_getElem?, positionEq, paramEq,
      Ty.arrayOf, Ty.isVararg] at collects

/-- An argument for a parameter that is a plain array is expected to have its type. -/
theorem argumentTy_of_array_param {position : Nat} {param : String}
    (paramEq : signature.params[position]? = some ⟨param, Ty.arrayOf elem⟩) :
    argumentTy (some signature) position = Ty.arrayOf elem := by
  simp only [argumentTy, calleeParams, paramEq]
  cases collects : varargElement? (some signature) with
  | none => rfl
  | some found =>
      have leading := lt_of_array_param collects paramEq
      exact if_neg (by omega)

/-- An argument for a parameter that is a plain array is passed as it is. -/
theorem PacksArguments.getElem?_of_array_param {operands packed : List Value} {code : Code}
    (packs : PacksArguments table (some signature) operands state code packed after)
    {position : Nat} {param : String}
    (paramEq : signature.params[position]? = some ⟨param, Ty.arrayOf elem⟩)
    (given : position < operands.length) : packed[position]? = operands[position]? := by
  cases packs with
  | kept => rfl
  | @collected fixed found collects _ =>
      have leading : position < fixed := by
        cases vararg : varargElement? (some signature) with
        | none => simp [collected?, collectedElement?_eq, vararg] at collects
        | some other =>
            have leading := lt_of_array_param vararg paramEq
            rw [collected?_map_ty vararg, calleeParams] at collects
            split at collects
            · cases collects
            · cases collects
              exact leading
      rw [List.getElem?_append_left (by rw [List.length_take]; omega),
        List.getElem?_take_of_lt leading]

end Vararg

end ClassCompiler.ThreeAddress
