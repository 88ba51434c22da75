import ClassCompiler.Proofs.Lowering.Relation

/-!
# Inversion of lowering

A successful lowering is one that the relations of `LowersExpr` and `LowersStmt`
allow. Only this module opens the lowering functions.
-/

namespace ClassCompiler.ThreeAddress

open Lowering Effects
open Semantics (Context collected? collectedElement?_eq isCall paramsOf_eq writesInto)

/-! ## Steps of the lowering state -/

theorem freshTemp_apply (table : SymbolTable) (ty : Ty) (state : LoweringState) :
    freshTemp table ty state = .ok (state.nextTemp table ty) (state.withTemp table ty) := rfl

theorem scope_apply (state : LoweringState) : scope state = .ok state.scope state := rfl

/-- A name resolves as it does in the context of the state. -/
theorem resolve_eq_ok_iff {table : SymbolTable} {name : String} {binding : Binding}
    {state after : LoweringState} :
    resolve table name state = .ok binding after ↔
      (state.context table).resolve? name = some binding ∧ after = state := by
  have resolves : (state.context table).resolve? name = state.scope.resolve? table name :=
    (state.context table).resolve?_eq name
  rw [resolves]
  simp only [resolve, bind_apply, scope_apply]
  cases state.scope.resolve? table name with
  | none => simp [throw_apply]
  | some found => simp [pure_apply, eq_comm]

theorem packArray_eq_ok_iff {table : SymbolTable} {elem : Ty} {values : List Value}
    {state after : LoweringState} {packed : Lowered} :
    packArray table elem values state = .ok packed after ↔
      values.length < 2147483648 ∧
      packed = ⟨packCode table elem values state,
        state.nextTemp table (Ty.arrayOf elem.name)⟩ ∧
      after = state.withTemp table (Ty.arrayOf elem.name) := by
  unfold packArray
  split
  · next bound =>
      rw [and_iff_right bound]
      simp only [bind_apply, freshTemp_apply, pure_apply, Call.newArray]
      simp [packCode, elementStores, Call.newArray, eq_comm]
  · next bound =>
      constructor
      · intro failed
        cases failed
      · rintro ⟨small, _⟩
        exact absurd small bound

/-- Arguments are collected unless a single array takes their place. -/
theorem collected?_map_ty {own : Option MethodSignature} {elem : Ty}
    (elemEq : varargElement? own = some elem) (values : List Value) :
    collected? own (values.map Value.ty) =
      if (values.drop ((calleeParams own).length - 1)).length = 1 ∧
          (values.drop ((calleeParams own).length - 1)).all (fun value => value.ty.isArray) then none
      else some ((calleeParams own).length - 1, elem) := by
  simp only [collected?, collectedElement?_eq, paramsOf_eq, elemEq, ← List.map_drop]
  split
  · next ty tyEq =>
      rcases List.map_eq_singleton_iff.mp tyEq with ⟨value, trailingEq, rfl⟩
      simp [trailingEq]
  · next several =>
      rw [if_neg]
      rintro ⟨single, _⟩
      rcases List.length_eq_one_iff.mp single with ⟨value, trailingEq⟩
      exact several value.ty (by rw [trailingEq, List.map_singleton])

theorem packsArguments_of_eq_ok {table : SymbolTable} {own : Option MethodSignature}
    {values packed : List Value} {state after : LoweringState} {code : Code}
    (run : packArguments table own values state = .ok (code, packed) after) :
    PacksArguments table own values state code packed after := by
  unfold packArguments at run
  cases elemEq : varargElement? own with
  | none =>
    rw [elemEq] at run
    cases run
    exact .kept (by simp [collected?, collectedElement?_eq, elemEq])
  | some elem =>
    simp only [elemEq] at run
    split at run
    · next single =>
      cases run
      rw [List.take_append_drop]
      exact .kept (by rw [collected?_map_ty elemEq, if_pos single])
    · next several =>
      rcases bind_eq_ok_iff.mp run with ⟨array, middle, packs, rest⟩
      rcases packArray_eq_ok_iff.mp packs with ⟨bound, rfl, rfl⟩
      cases rest
      exact .collected (by rw [collected?_map_ty elemEq, if_neg several]) bound

/-- A call is prepared by its receiver, its arguments and their packing. -/
theorem prepareCall_eq_ok_iff {table : SymbolTable} {receiver : Lowering (Code × Receiver)}
    {name : String} {arguments : (Nat → Ty) → Lowering (Code × List Value)} {expected : Ty}
    {state after : LoweringState} {code : Code} {site : Call} :
    prepareCall table receiver name arguments expected state = .ok (code, site) after ↔
      ∃ receiverCode found reached argumentCode values middle packing packed,
        receiver state = .ok (receiverCode, found) reached ∧
        arguments (argumentTy (ownMethod? table found name)) reached =
          .ok (argumentCode, values) middle ∧
        packArguments table (ownMethod? table found name) values middle =
          .ok (packing, packed) after ∧
        code = receiverCode ++ argumentCode ++ packing ∧
        site = .invoke (callTarget table (ownMethod? table found name) found).1
          (callTarget table (ownMethod? table found name) found).2 name packed
          (Context.resultTy (ownMethod? table found name) expected) := by
  unfold prepareCall
  simp only [bind_eq_ok_iff, pure_apply, EStateM.Result.ok.injEq, Prod.mk.injEq, Prod.exists]
  constructor
  · rintro ⟨receiverCode, found, reached, first, argumentCode, values, middle, second, packing,
      packed, last, third, ⟨rfl, rfl⟩, rfl⟩
    exact ⟨receiverCode, found, reached, argumentCode, values, middle, packing, packed, first,
      second, third, rfl, by cases ownMethod? table found name <;> rfl⟩
  · rintro ⟨receiverCode, found, reached, argumentCode, values, middle, packing, packed, first,
      second, third, rfl, rfl⟩
    exact ⟨receiverCode, found, reached, first, argumentCode, values, middle, second, packing,
      packed, after, third, ⟨rfl, by cases ownMethod? table found name <;> rfl⟩, rfl⟩

theorem implicitReceiver_apply (table : SymbolTable) (name : String) (state : LoweringState) :
    implicitReceiver table name state =
      if state.scope.signature.isStatic || (table.method? name).any MethodSignature.isStatic then
        .ok ([], .static table.className) state
      else .ok ([], .object (selfValue table)) state := by
  simp only [implicitReceiver, bind_apply, scope_apply]
  split <;> rfl

/-- A receiver is a class that is named or an object that is computed. -/
theorem explicitReceiver_eq_ok {table : SymbolTable} {expr : Expr} {lowered : Lowering Lowered}
    {state after : LoweringState} {code : Code} {receiver : Receiver}
    (run : explicitReceiver table expr lowered state = .ok (code, receiver) after) :
    (∃ className, (state.context table).classNamed? expr = some className ∧ code = [] ∧
        receiver = .static className ∧ after = state) ∨
      (state.context table).classNamed? expr = none ∧
        ∃ object, lowered state = .ok object after ∧ code = object.code ∧
          receiver = .object object.value := by
  have objectOf (run : objectReceiver lowered state = .ok (code, receiver) after) :
      ∃ object, lowered state = .ok object after ∧ code = object.code ∧
        receiver = .object object.value := by
    rcases bind_eq_ok_iff.mp run with ⟨object, middle, lowers, rest⟩
    cases rest
    exact ⟨object, lowers, rfl, rfl⟩
  unfold explicitReceiver at run
  unfold Context.classNamed?
  cases inner : expr.unparen with
  | var name =>
      rw [inner] at run
      simp only at run ⊢
      rcases bind_eq_ok_iff.mp run with ⟨binding, middle, resolves, rest⟩
      rcases resolve_eq_ok_iff.mp resolves with ⟨resolveEq, rfl⟩
      cases binding with
      | className =>
          cases rest
          exact .inl ⟨name, by simp [resolveEq], rfl, rfl, rfl⟩
      | declared ty | field ty => exact .inr ⟨by simp [resolveEq], objectOf rest⟩
  | _ =>
      rw [inner] at run
      exact .inr ⟨rfl, objectOf run⟩

theorem lowersCall_of_selfCall {table : SymbolTable} {name : String} {args : List Expr}
    (argsLower : ∀ {expectedAt state code values after},
      lowerExprs table expectedAt args state = .ok (code, values) after →
        LowersExprs table expectedAt args state code values after)
    {expected : Ty} {state after : LoweringState} {code : Code} {site : Call}
    (run : prepareCall table (implicitReceiver table name) name
        (fun expectedAt => lowerExprs table expectedAt args) expected state =
      .ok (code, site) after) :
    LowersCall table (.selfCall name args) expected state code site after := by
  rcases prepareCall_eq_ok_iff.mp run with ⟨receiverCode, found, reached, argumentCode, values,
    middle, packing, packed, receives, lowersArgs, packs, rfl, rfl⟩
  rw [implicitReceiver_apply] at receives
  split at receives
  · next isStatic =>
      cases receives
      have ownEq : ownMethod? table (.static table.className) name = table.method? name := by
        simp [ownMethod?]
      rw [ownEq] at lowersArgs packs ⊢
      exact .onClass (by simpa using isStatic) (argsLower lowersArgs)
        (packsArguments_of_eq_ok packs)
  · next isInstance =>
      cases receives
      have ownEq : ownMethod? table (.object (selfValue table)) name = table.method? name := by
        simp [ownMethod?, selfValue, Value.ty]
      rw [Bool.or_eq_true, not_or, Bool.not_eq_true, Bool.not_eq_true] at isInstance
      rw [ownEq] at lowersArgs packs ⊢
      rw [callTarget, isInstance.2]
      exact .onSelf isInstance.1 isInstance.2 (argsLower lowersArgs)
        (packsArguments_of_eq_ok packs)

theorem lowersCall_of_call {table : SymbolTable} {receiver : Expr} {name : String}
    {args : List Expr}
    (receiverLowers : ∀ {expected state lowered after},
      lowerExpr table receiver expected state = .ok lowered after →
        LowersExpr table receiver expected state lowered after)
    (argsLower : ∀ {expectedAt state code values after},
      lowerExprs table expectedAt args state = .ok (code, values) after →
        LowersExprs table expectedAt args state code values after)
    {expected : Ty} {state after : LoweringState} {code : Code} {site : Call}
    (run : prepareCall table
        (explicitReceiver table receiver (lowerExpr table receiver table.classTy)) name
        (fun expectedAt => lowerExprs table expectedAt args) expected state =
      .ok (code, site) after) :
    LowersCall table (.call receiver name args) expected state code site after := by
  rcases prepareCall_eq_ok_iff.mp run with ⟨receiverCode, found, reached, argumentCode, values,
    middle, packing, packed, receives, lowersArgs, packs, rfl, rfl⟩
  rcases explicitReceiver_eq_ok receives with
    ⟨className, named, rfl, rfl, rfl⟩ | ⟨notNamed, object, lowers, rfl, rfl⟩
  · exact .onNamed named (argsLower lowersArgs) (packsArguments_of_eq_ok packs)
  · exact .onObject notNamed (receiverLowers lowers) rfl (argsLower lowersArgs)
      (packsArguments_of_eq_ok packs) rfl

mutual

/-- A successful lowering of an expression is one that the relation allows. -/
theorem lowersExpr_of_eq_ok (table : SymbolTable) : ∀ (expr : Expr) {expected : Ty}
    {state after : LoweringState} {lowered : Lowered},
    lowerExpr table expr expected state = .ok lowered after →
      LowersExpr table expr expected state lowered after
  | .int value, _, _, _, _, run => by
      cases run
      exact .int value _ _
  | .bool value, _, _, _, _, run => by
      cases run
      exact .bool value _ _
  | .string value, _, _, _, _, run => by
      cases run
      exact .string value _ _
  | .self, _, _, _, _, run => by
      cases run
      exact .self _ _
  | .paren inner, _, _, _, _, run => by
      rw [lowerExpr] at run
      exact .paren (lowersExpr_of_eq_ok table inner run)
  | .var name, _, _, _, _, run => by
      rw [lowerExpr, lowerVar] at run
      rcases bind_eq_ok_iff.mp run with ⟨binding, middle, resolves, rest⟩
      rcases resolve_eq_ok_iff.mp resolves with ⟨resolveEq, rfl⟩
      cases binding with
      | declared ty =>
          cases rest
          exact .declared resolveEq
      | field ty =>
          cases rest
          exact .field resolveEq
      | className => cases rest
  | .binary op left right, _, _, _, _, run => by
      rw [lowerExpr] at run
      rcases bind_eq_ok_iff.mp run with ⟨first, middle, lowersLeft, rest⟩
      rcases bind_eq_ok_iff.mp rest with ⟨second, last, lowersRight, taken⟩
      cases taken
      exact .binary (lowersExpr_of_eq_ok table left lowersLeft)
        (lowersExpr_of_eq_ok table right lowersRight)
  | .not operand, _, _, _, _, run => by
      rw [lowerExpr] at run
      rcases bind_eq_ok_iff.mp run with ⟨lowered, last, lowers, taken⟩
      cases taken
      exact .not (lowersExpr_of_eq_ok table operand lowers)
  | .index array position, _, _, _, _, run => by
      rw [lowerExpr] at run
      rcases bind_eq_ok_iff.mp run with ⟨base, middle, lowersArray, rest⟩
      rcases bind_eq_ok_iff.mp rest with ⟨offset, last, lowersPosition, taken⟩
      cases taken
      exact .index (lowersExpr_of_eq_ok table array lowersArray)
        (lowersExpr_of_eq_ok table position lowersPosition)
  | .length array, _, _, _, _, run => by
      rw [lowerExpr] at run
      rcases bind_eq_ok_iff.mp run with ⟨base, last, lowersArray, taken⟩
      cases taken
      exact .length (lowersExpr_of_eq_ok table array lowersArray)
  | .newArray elem size, _, _, _, _, run => by
      rw [lowerExpr] at run
      rcases bind_eq_ok_iff.mp run with ⟨lowered, last, lowersSize, taken⟩
      cases taken
      exact .newArray (lowersExpr_of_eq_ok table size lowersSize)
  | .arrayInit elements, _, _, _, _, run => by
      rw [lowerExpr] at run
      rcases bind_eq_ok_iff.mp run with ⟨⟨code, values⟩, middle, lowersElements, rest⟩
      rcases bind_eq_ok_iff.mp rest with ⟨packed, last, packs, taken⟩
      rcases packArray_eq_ok_iff.mp packs with ⟨bound, rfl, rfl⟩
      cases taken
      exact .arrayInit (lowersExprs_of_eq_ok table elements lowersElements) bound
  | .newObject className, _, _, _, _, run => by
      rw [lowerExpr] at run
      cases run
      exact .newObject className _ _
  | .selfCall name args, expected, state, _, _, run => by
      rw [lowerExpr] at run
      rcases bind_eq_ok_iff.mp run with ⟨⟨code, site⟩, middle, prepared, rest⟩
      simp only at rest
      split at rest
      · cases rest
      · next hasValue =>
          cases rest
          exact .call (lowersCall_of_selfCall (lowersExprs_of_eq_ok table args) prepared)
            (by simpa using hasValue)
  | .call receiver name args, expected, state, _, _, run => by
      rw [lowerExpr] at run
      rcases bind_eq_ok_iff.mp run with ⟨⟨code, site⟩, middle, prepared, rest⟩
      simp only at rest
      split at rest
      · cases rest
      · next hasValue =>
          cases rest
          exact .call
            (lowersCall_of_call (lowersExpr_of_eq_ok table receiver)
              (lowersExprs_of_eq_ok table args) prepared)
            (by simpa using hasValue)

theorem lowersExprs_of_eq_ok (table : SymbolTable) : ∀ (exprs : List Expr)
    {expectedAt : Nat → Ty} {state after : LoweringState} {code : Code} {values : List Value},
    lowerExprs table expectedAt exprs state = .ok (code, values) after →
      LowersExprs table expectedAt exprs state code values after
  | [], _, _, _, _, _, run => by
      cases run
      exact .nil _ _
  | expr :: rest, _, _, _, _, _, run => by
      rw [lowerExprs] at run
      rcases bind_eq_ok_iff.mp run with ⟨first, middle, lowersFirst, others⟩
      rcases bind_eq_ok_iff.mp others with ⟨⟨code, values⟩, last, lowersRest, taken⟩
      cases taken
      exact .cons (lowersExpr_of_eq_ok table expr lowersFirst)
        (lowersExprs_of_eq_ok table rest lowersRest)

end

/-! ## Statements -/

theorem lowersCall_of_lowerSelfCall {table : SymbolTable} {name : String} {args : List Expr}
    {expected : Ty} {state after : LoweringState} {code : Code} {site : Call}
    (run : lowerSelfCall table name args expected state = .ok (code, site) after) :
    LowersCall table (.selfCall name args) expected state code site after :=
  lowersCall_of_selfCall (lowersExprs_of_eq_ok table args) run

theorem lowersCall_of_lowerCall {table : SymbolTable} {receiver : Expr} {name : String}
    {args : List Expr} {expected : Ty} {state after : LoweringState} {code : Code} {site : Call}
    (run : lowerCall table receiver name args expected state = .ok (code, site) after) :
    LowersCall table (.call receiver name args) expected state code site after :=
  lowersCall_of_call (lowersExpr_of_eq_ok table receiver) (lowersExprs_of_eq_ok table args) run

theorem lowersStmt_of_lowerIntoVariable {table : SymbolTable} {target value : Expr}
    {name : String} {ty : Ty} {state after : LoweringState} {code : Code}
    (targetEq : target.unparen = .var name)
    (resolves : (state.context table).resolve? name = some (.declared ty))
    (run : lowerIntoVariable table name ty value state = .ok code after) :
    LowersStmt table (.assign target value) state code after := by
  have assigned {code : Code} (apart : writesInto value ty = false)
      (run : (do
        let value ← lowerExpr table value ty
        return value.code ++ [.assign (.var name ty) value.value] : Lowering Code) state =
          .ok code after) :
      LowersStmt table (.assign target value) state code after := by
    rcases bind_eq_ok_iff.mp run with ⟨lowered, middle, lowers, rest⟩
    cases rest
    exact .assignValue targetEq resolves apart (lowersExpr_of_eq_ok table value lowers)
  unfold lowerIntoVariable at run
  cases valueEq : value.unparen with
  | binary op left right =>
      simp only [valueEq] at run
      split at run
      · next tyEq =>
          subst tyEq
          rcases bind_eq_ok_iff.mp run with ⟨first, middle, lowersLeft, rest⟩
          rcases bind_eq_ok_iff.mp rest with ⟨second, last, lowersRight, taken⟩
          cases taken
          exact .assignOperator targetEq resolves valueEq
            (lowersExpr_of_eq_ok table left lowersLeft)
            (lowersExpr_of_eq_ok table right lowersRight)
      · next tyNe => exact assigned (by simp [writesInto, valueEq, tyNe]) run
  | selfCall method args =>
      simp only [valueEq] at run
      rcases bind_eq_ok_iff.mp run with ⟨⟨before, site⟩, middle, prepared, rest⟩
      cases rest
      exact .assignCall targetEq resolves (valueEq ▸ lowersCall_of_lowerSelfCall prepared)
  | call receiver method args =>
      simp only [valueEq] at run
      rcases bind_eq_ok_iff.mp run with ⟨⟨before, site⟩, middle, prepared, rest⟩
      cases rest
      exact .assignCall targetEq resolves (valueEq ▸ lowersCall_of_lowerCall prepared)
  | _ =>
      simp only [valueEq] at run
      exact assigned (by simp [writesInto, isCall, valueEq]) run

/-- The element type that is expected of an assigned value. -/
theorem storedElementTy_eq_ok {table : SymbolTable} {array : Expr} {elem : Ty}
    {state after : LoweringState} (run : storedElementTy table array state = .ok elem after) :
    elem = (state.context table).assignedElement array ∧ after = state := by
  unfold storedElementTy at run
  unfold Context.assignedElement
  cases inner : array.unparen with
  | var name =>
      rw [inner] at run
      rcases bind_eq_ok_iff.mp run with ⟨binding, middle, resolves, rest⟩
      rcases resolve_eq_ok_iff.mp resolves with ⟨resolveEq, rfl⟩
      cases binding <;> cases rest <;> simp [resolveEq]
  | _ =>
      rw [inner] at run
      cases run
      exact ⟨rfl, rfl⟩

theorem lowersStmt_of_lowerAssign {table : SymbolTable} {target value : Expr}
    {state after : LoweringState} {code : Code}
    (run : lowerAssign table target value state = .ok code after) :
    LowersStmt table (.assign target value) state code after := by
  unfold lowerAssign at run
  cases targetEq : target.unparen with
  | var name =>
      rw [targetEq] at run
      rcases bind_eq_ok_iff.mp run with ⟨binding, middle, resolves, rest⟩
      rcases resolve_eq_ok_iff.mp resolves with ⟨resolveEq, rfl⟩
      cases binding with
      | declared ty => exact lowersStmt_of_lowerIntoVariable targetEq resolveEq rest
      | field ty =>
          rcases bind_eq_ok_iff.mp rest with ⟨lowered, last, lowers, taken⟩
          cases taken
          exact .assignField targetEq resolveEq (lowersExpr_of_eq_ok table value lowers)
      | className => cases rest
  | index array position =>
      rw [targetEq] at run
      rcases bind_eq_ok_iff.mp run with ⟨elem, start, expects, rest⟩
      rcases storedElementTy_eq_ok expects with ⟨rfl, rfl⟩
      rcases bind_eq_ok_iff.mp rest with ⟨lowered, first, lowers, rest⟩
      rcases bind_eq_ok_iff.mp rest with ⟨base, second, lowersArray, rest⟩
      rcases bind_eq_ok_iff.mp rest with ⟨offset, last, lowersPosition, taken⟩
      cases taken
      exact .assignElement targetEq (lowersExpr_of_eq_ok table value lowers)
        (lowersExpr_of_eq_ok table array lowersArray)
        (lowersExpr_of_eq_ok table position lowersPosition)
  | _ =>
      rw [targetEq] at run
      cases run

theorem lowersStmt_of_lowerExprStmt {table : SymbolTable} {expr : Expr}
    {state after : LoweringState} {code : Code}
    (run : lowerExprStmt table expr state = .ok code after) :
    LowersStmt table (.expr expr) state code after := by
  unfold lowerExprStmt at run
  cases inner : expr.unparen with
  | selfCall name args =>
      rw [inner] at run
      rcases bind_eq_ok_iff.mp run with ⟨⟨before, site⟩, middle, prepared, rest⟩
      cases rest
      exact .exprCall (inner ▸ lowersCall_of_lowerSelfCall prepared)
  | call receiver name args =>
      rw [inner] at run
      rcases bind_eq_ok_iff.mp run with ⟨⟨before, site⟩, middle, prepared, rest⟩
      cases rest
      exact .exprCall (inner ▸ lowersCall_of_lowerCall prepared)
  | _ =>
      rw [inner] at run
      rcases bind_eq_ok_iff.mp run with ⟨lowered, middle, lowers, rest⟩
      cases rest
      exact .exprValue (by simp [inner]) (by simp [inner]) (lowersExpr_of_eq_ok table expr lowers)

theorem lowersStmt_of_lowerReturn {table : SymbolTable} {value : Option Expr}
    {state after : LoweringState} {code : Code}
    (run : lowerReturn table value state = .ok code after) :
    LowersStmt table (.ret value) state code after := by
  rw [lowerReturn] at run
  rcases bind_eq_ok_iff.mp run with ⟨found, middle, scopeEq, rest⟩
  cases scopeEq
  cases value with
  | none =>
      cases rest
      exact .returnNothing (.inl rfl)
  | some value =>
      simp only at rest
      split at rest
      · next isMain =>
          cases rest
          exact .returnNothing (.inr isMain)
      · next notMain =>
          rcases bind_eq_ok_iff.mp rest with ⟨lowered, last, lowers, taken⟩
          cases taken
          exact .returnValue (by simpa using notMain) (lowersExpr_of_eq_ok table value lowers)

mutual

/-- A successful lowering of a statement is one that the relation allows. -/
theorem lowersStmt_of_eq_ok (table : SymbolTable) : ∀ (stmt : Stmt)
    {state after : LoweringState} {code : Code},
    lowerStmt table stmt state = .ok code after → LowersStmt table stmt state code after
  | .assign _ _, _, _, _, run => lowersStmt_of_lowerAssign (by rwa [lowerStmt] at run)
  | .expr _, _, _, _, run => lowersStmt_of_lowerExprStmt (by rwa [lowerStmt] at run)
  | .ret _, _, _, _, run => lowersStmt_of_lowerReturn (by rwa [lowerStmt] at run)
  | .ifElse cond thenBranch elseBranch, _, _, _, run => by
      rw [lowerStmt] at run
      rcases bind_eq_ok_iff.mp run with ⟨lowered, first, lowersCond, rest⟩
      rcases bind_eq_ok_iff.mp rest with ⟨labels, labelled, labelsEq, rest⟩
      cases labelsEq
      rcases bind_eq_ok_iff.mp rest with ⟨elseCode, second, lowersElse, rest⟩
      rcases bind_eq_ok_iff.mp rest with ⟨thenCode, last, lowersThen, taken⟩
      cases taken
      exact .ifElse (lowersExpr_of_eq_ok table cond lowersCond)
        (lowersStmt_of_eq_ok table elseBranch lowersElse)
        (lowersStmt_of_eq_ok table thenBranch lowersThen)
  | .whileLoop cond body, _, _, _, run => by
      rw [lowerStmt] at run
      rcases bind_eq_ok_iff.mp run with ⟨labels, labelled, labelsEq, rest⟩
      cases labelsEq
      rcases bind_eq_ok_iff.mp rest with ⟨lowered, first, lowersCond, rest⟩
      rcases bind_eq_ok_iff.mp rest with ⟨negated, second, negates, rest⟩
      cases negates
      rcases bind_eq_ok_iff.mp rest with ⟨bodyCode, last, lowersBody, taken⟩
      cases taken
      exact .whileLoop (lowersExpr_of_eq_ok table cond lowersCond)
        (lowersStmt_of_eq_ok table body lowersBody)
  | .block body, _, _, _, run => by
      rw [lowerStmt] at run
      exact lowersStmt_of_lowerStmts table body run

/-- Statements are lowered one after the other. -/
theorem lowersStmt_of_lowerStmts (table : SymbolTable) : ∀ (body : List Stmt)
    {state after : LoweringState} {code : Code},
    lowerStmts table body state = .ok code after →
      LowersStmt table (.block body) state code after
  | [], _, _, _, run => by
      cases run
      exact .blockNil _
  | stmt :: rest, _, _, _, run => by
      rw [lowerStmts] at run
      rcases bind_eq_ok_iff.mp run with ⟨code, middle, lowersFirst, others⟩
      rcases bind_eq_ok_iff.mp others with ⟨restCode, last, lowersRest, taken⟩
      cases taken
      exact .blockCons (lowersStmt_of_eq_ok table stmt lowersFirst)
        (lowersStmt_of_lowerStmts table rest lowersRest)

end

/-! ## Methods and programs -/

theorem lowersMethod_of_eq_ok {table : SymbolTable} {decl : MethodDecl}
    {state after : LoweringState} {method : Method}
    (run : lowerMethod table decl state = .ok method after) :
    LowersMethod table decl state method after := by
  unfold lowerMethod at run
  cases found : table.method? decl.name with
  | none =>
      rw [found] at run
      cases run
  | some signature =>
      rw [found] at run
      rcases bind_eq_ok_iff.mp run with ⟨_, entered, enters, rest⟩
      cases enters
      rcases bind_eq_ok_iff.mp rest with ⟨code, left, lowers, rest⟩
      rcases bind_eq_ok_iff.mp rest with ⟨temps, taken, takes, rest⟩
      cases takes
      cases rest
      exact .intro found (lowersStmt_of_lowerStmts table decl.body lowers)

/-- Methods are lowered one after the other, each at its own position. -/
theorem lowerMethod_of_getElem? {table : SymbolTable} {decls : List MethodDecl}
    {state after : LoweringState} {methods : List Method}
    (run : lowerMethods table decls state = .ok methods after) {index : Nat} {decl : MethodDecl}
    (declared : decls[index]? = some decl) :
    ∃ start method last, methods[index]? = some method ∧
      lowerMethod table decl start = .ok method last := by
  induction decls generalizing state methods index with
  | nil => cases declared
  | cons first rest ih =>
      rw [lowerMethods] at run
      rcases bind_eq_ok_iff.mp run with ⟨method, middle, lowersFirst, others⟩
      rcases bind_eq_ok_iff.mp others with ⟨restMethods, last, lowersRest, taken⟩
      cases taken
      cases index with
      | zero =>
          cases declared
          exact ⟨state, method, middle, rfl, lowersFirst⟩
      | succ index => exact ih lowersRest declared

theorem lowersMethod_of_getElem? {table : SymbolTable} {decls : List MethodDecl}
    {state after : LoweringState} {methods : List Method}
    (run : lowerMethods table decls state = .ok methods after) {index : Nat} {decl : MethodDecl}
    (declared : decls[index]? = some decl) :
    ∃ start method last, methods[index]? = some method ∧
      LowersMethod table decl start method last := by
  obtain ⟨start, method, last, atIndex, lowers⟩ := lowerMethod_of_getElem? run declared
  exact ⟨start, method, last, atIndex, lowersMethod_of_eq_ok lowers⟩

/-- The methods of a program follow the constructor in declaration order. -/
theorem lowersMethod_of_lowerProgram {table : SymbolTable} {program : Program}
    {state after : LoweringState} {unit : ClassUnit}
    (run : lowerProgram table program state = .ok unit after) {index : Nat} {decl : MethodDecl}
    (declared : program.decl.methods[index]? = some decl) :
    ∃ start method last, unit.methods[index + 1]? = some method ∧
      LowersMethod table decl start method last := by
  rcases bind_eq_ok_iff.mp run with ⟨methods, middle, lowers, taken⟩
  cases taken
  exact lowersMethod_of_getElem? lowers declared

end ClassCompiler.ThreeAddress
