import ClassCompiler.Proofs.Lowering.Relation
import ClassCompiler.Proofs.Names
import ClassCompiler.Proofs.Semantics.Coverage

/-!
# What lowering keeps and adds

While a method is lowered its signature stays the same, counters only grow, and
temporaries are only added. An operand that a lowered expression leaves has the
static type of the expression and is settled: code that is lowered later does not
assign to it.
-/

namespace ClassCompiler.ThreeAddress

open Semantics (Context collected?)

/-! ## States -/

namespace LoweringState

/-- A state that is reached from another one while a method is lowered. -/
structure Extends (state after : LoweringState) : Prop where
  signature : after.scope.signature = state.scope.signature
  temps : state.names.temps ≤ after.names.temps
  labels : ∀ kind, state.names.nextLabel kind ≤ after.names.nextLabel kind
  scope : state.scope.temps <+: after.scope.temps

theorem Extends.refl (state : LoweringState) : state.Extends state :=
  ⟨rfl, Nat.le_refl _, fun _ => Nat.le_refl _, List.prefix_rfl⟩

theorem Extends.trans {state middle after : LoweringState} (first : state.Extends middle)
    (second : middle.Extends after) : state.Extends after where
  signature := second.signature.trans first.signature
  temps := first.temps.trans second.temps
  labels := fun kind => (first.labels kind).trans (second.labels kind)
  scope := first.scope.trans second.scope

theorem le_tempNumber (table : SymbolTable) (state : LoweringState) :
    state.names.temps ≤ state.tempNumber table :=
  NameSupply.le_freeNumber _ _

theorem extends_withTemp (table : SymbolTable) (state : LoweringState) (ty : Ty) :
    state.Extends (state.withTemp table ty) where
  signature := rfl
  temps := Nat.le_succ_of_le (state.le_tempNumber table)
  labels := fun kind => by cases kind <;> exact Nat.le_refl _
  scope := List.prefix_append _ _

theorem extends_withLabels (state : LoweringState) (first second : LabelKind) :
    state.Extends (state.withLabels first second) where
  signature := rfl
  temps := by simp [withLabels]
  labels := fun kind => by simp only [withLabels, NameSupply.nextLabel_skipLabel]; omega
  scope := List.prefix_rfl

theorem Extends.context_eq {table : SymbolTable} {state after : LoweringState}
    (grows : state.Extends after) : after.context table = state.context table := by
  rw [context, context, grows.signature]

theorem Extends.takenNames_eq {table : SymbolTable} {state after : LoweringState}
    (grows : state.Extends after) :
    after.scope.takenNames table = state.scope.takenNames table := by
  rw [Scope.takenNames, Scope.takenNames, grows.signature]

end LoweringState

open LoweringState

/-! ## Growth -/

variable {table : SymbolTable}

theorem PacksArguments.extends {own : Option MethodSignature} {values packed : List Value}
    {state after : LoweringState} {code : Code}
    (packs : PacksArguments table own values state code packed after) : state.Extends after := by
  cases packs with
  | kept _ => exact .refl state
  | collected _ _ => exact extends_withTemp _ _ _

mutual

theorem LowersExpr.extends {expr : Expr} {expected : Ty} {state after : LoweringState}
    {lowered : Lowered} :
    LowersExpr table expr expected state lowered after → state.Extends after
  | .int _ _ _ | .bool _ _ _ | .string _ _ _ | .self _ _ | .declared _ => .refl _
  | .paren lowers => lowers.extends
  | .field _ | .newObject _ _ _ => extends_withTemp _ _ _
  | .binary lowersFirst lowersSecond | .index lowersFirst lowersSecond =>
      (lowersFirst.extends.trans lowersSecond.extends).trans (extends_withTemp _ _ _)
  | .not lowers | .length lowers | .newArray lowers | .arrayInit lowers _ | .call lowers _ =>
      lowers.extends.trans (extends_withTemp _ _ _)

theorem LowersExprs.extends {expectedAt : Nat → Ty} {exprs : List Expr}
    {state after : LoweringState} {code : Code} {values : List Value} :
    LowersExprs table expectedAt exprs state code values after → state.Extends after
  | .nil _ _ => .refl _
  | .cons lowersFirst lowersRest => lowersFirst.extends.trans lowersRest.extends

theorem LowersCall.extends {expr : Expr} {expected : Ty} {state after : LoweringState}
    {code : Code} {site : Call} :
    LowersCall table expr expected state code site after → state.Extends after
  | .onClass _ lowersArgs packs | .onSelf _ _ lowersArgs packs | .onNamed _ lowersArgs packs =>
      lowersArgs.extends.trans packs.extends
  | .onObject _ lowersReceiver _ lowersArgs packs _ =>
      (lowersReceiver.extends.trans lowersArgs.extends).trans packs.extends

end

theorem LowersStmt.extends {stmt : Stmt} {state after : LoweringState} {code : Code}
    (lowers : LowersStmt table stmt state code after) : state.Extends after := by
  induction lowers with
  | assignOperator _ _ _ lowersLeft lowersRight =>
      exact lowersLeft.extends.trans lowersRight.extends
  | assignCall _ _ lowers | assignValue _ _ _ lowers | assignField _ _ lowers | exprCall lowers
  | exprValue _ _ lowers | returnValue _ lowers => exact lowers.extends
  | assignElement _ lowers lowersArray lowersPosition =>
      exact (lowers.extends.trans lowersArray.extends).trans lowersPosition.extends
  | returnNothing _ => exact .refl _
  | ifElse lowersCond _ _ elseExtends thenExtends =>
      exact ((lowersCond.extends.trans (extends_withLabels _ _ _)).trans elseExtends).trans
        thenExtends
  | whileLoop lowersCond _ bodyExtends =>
      exact (((extends_withLabels _ _ _).trans lowersCond.extends).trans
        (extends_withTemp _ _ _)).trans bodyExtends
  | blockNil _ => exact .refl _
  | blockCons _ _ firstExtends restExtends => exact firstExtends.trans restExtends

/-! ## Types -/

mutual

/-- The operand of an expression has its static type. -/
theorem LowersExpr.ty_eq {expr : Expr} {expected : Ty} {state after : LoweringState}
    {lowered : Lowered} :
    LowersExpr table expr expected state lowered after →
      lowered.value.ty = (state.context table).typeOf expr expected
  | .int _ _ _ | .bool _ _ _ | .string _ _ _ | .self _ _ | .binary _ _ | .not _ | .length _
  | .newArray _ | .arrayInit _ _ | .newObject _ _ _ => rfl
  | .paren lowers => lowers.ty_eq
  | .declared resolves => by simp [Value.ty, Context.typeOf, resolves]
  | .field resolves => by simp [nextTemp, Value.ty, Context.typeOf, resolves]
  | .index lowersArray _ => by
      rw [Context.typeOf, ← lowersArray.ty_eq]
      rfl
  | .call lowersCall _ => lowersCall.returnTy_eq

/-- The result type of a call is its static type. -/
theorem LowersCall.returnTy_eq {expr : Expr} {expected : Ty} {state after : LoweringState}
    {code : Code} {site : Call} :
    LowersCall table expr expected state code site after →
      site.returnTy = (state.context table).typeOf expr expected
  | .onClass _ _ _ => rfl
  | .onSelf _ _ _ _ => rfl
  | .onNamed names _ _ => by simp [Call.invoke, Context.typeOf, Context.callee?, names]
  | .onObject namesNone lowersReceiver ownEq _ _ _ => by
      rw [Context.typeOf, Context.callee?, namesNone]
      simp [Call.invoke, ownEq, ← lowersReceiver.ty_eq]

/-- The operands of expressions have their static types. -/
theorem LowersExprs.map_ty_eq {expectedAt : Nat → Ty} {exprs : List Expr}
    {state after : LoweringState} {code : Code} {values : List Value} :
    LowersExprs table expectedAt exprs state code values after →
      values.map Value.ty = (state.context table).typesOf expectedAt exprs
  | .nil _ _ => rfl
  | .cons lowersFirst lowersRest => by
      rw [Context.typesOf, List.map_cons, lowersFirst.ty_eq, lowersRest.map_ty_eq,
        lowersFirst.extends.context_eq]

end

/-! ## Operands -/

/-- An operand that code lowered from a state on does not assign to. -/
inductive Settled (table : SymbolTable) (state : LoweringState) : Value → Prop where
  | const (constant : Constant) : Settled table state (.const constant)
  | self (ty : Ty) : Settled table state (.self ty)
  | declared {name : String} (ty : Ty) (taken : name ∈ state.scope.takenNames table) :
      Settled table state (.var name ty)
  | temp {number : Nat} (ty : Ty) (given : number < state.names.temps) :
      Settled table state (.temp (tempName number) ty)

theorem Settled.mono {state after : LoweringState} {value : Value}
    (settled : Settled table state value) (grows : state.Extends after) :
    Settled table after value := by
  cases settled with
  | const constant => exact .const constant
  | self ty => exact .self ty
  | declared ty taken => exact .declared ty (grows.takenNames_eq ▸ taken)
  | temp ty given => exact .temp ty (Nat.lt_of_lt_of_le given grows.temps)

theorem settled_nextTemp (state : LoweringState) (ty : Ty) :
    Settled table (state.withTemp table ty) (state.nextTemp table ty) :=
  .temp ty (Nat.lt_succ_self _)

/-- A name that resolves to a declaration is taken. -/
theorem mem_takenNames_of_resolve {state : LoweringState} {name : String} {ty : Ty}
    (resolves : (state.context table).resolve? name = some (.declared ty)) :
    name ∈ state.scope.takenNames table := by
  obtain ⟨symbol, member, nameEq, _⟩ := Context.exists_symbol_of_resolve resolves
  rw [Scope.takenNames, List.mem_map]
  exact ⟨symbol, List.mem_append_left _ member, nameEq⟩

theorem LowersExpr.settled {expr : Expr} {expected : Ty} {state after : LoweringState}
    {lowered : Lowered} :
    LowersExpr table expr expected state lowered after → Settled table after lowered.value
  | .int _ _ _ => .const _
  | .bool _ _ _ => .const _
  | .string _ _ _ => .const _
  | .self _ _ => .self _
  | .paren lowers => lowers.settled
  | .declared resolves => .declared _ (mem_takenNames_of_resolve resolves)
  | .field _ | .binary _ _ | .not _ | .index _ _ | .length _ | .newArray _ | .arrayInit _ _
  | .newObject _ _ _ | .call _ _ => settled_nextTemp _ _

theorem LowersExprs.settled {expectedAt : Nat → Ty} {exprs : List Expr}
    {state after : LoweringState} {code : Code} {values : List Value} :
    LowersExprs table expectedAt exprs state code values after →
      ∀ value ∈ values, Settled table after value
  | .nil _ _ => fun _ member => absurd member List.not_mem_nil
  | .cons lowersFirst lowersRest => by
      intro value member
      rcases List.mem_cons.mp member with rfl | among
      · exact lowersFirst.settled.mono lowersRest.extends
      · exact lowersRest.settled value among

/-! ## Straight code -/

theorem isStep_of_mem_packCode {elem : Ty} {values : List Value} {state : LoweringState} :
    ∀ instr ∈ packCode table elem values state, instr.IsStep := by
  intro instr member
  rcases List.mem_cons.mp member with rfl | among
  · exact ⟨trivial, nofun⟩
  · rcases List.mem_map.mp among with ⟨_, _, rfl⟩
    exact ⟨trivial, nofun⟩

theorem PacksArguments.isStep {own : Option MethodSignature} {values packed : List Value}
    {state after : LoweringState} {code : Code}
    (packs : PacksArguments table own values state code packed after) :
    ∀ instr ∈ code, instr.IsStep := by
  cases packs with
  | kept _ => simp
  | collected _ _ => exact isStep_of_mem_packCode

/-- Steps and then one instruction that leaves its result in a new temporary. -/
theorem forall_isStep_concat {code : Code} (steps : ∀ instr ∈ code, instr.IsStep) {instr : Instr}
    (straight : instr.IsStraight) {name : String} {ty : Ty}
    (destEq : instr.dest? = some (.temp name ty)) :
    ∀ each ∈ code ++ [instr], each.IsStep := by
  refine List.forall_mem_append.mpr ⟨steps, List.forall_mem_singleton.mpr ⟨straight, ?_⟩⟩
  rw [destEq]
  exact nofun

mutual

/-- The code of an expression has no jumps and assigns to no declared variable. -/
theorem LowersExpr.isStep {expr : Expr} {expected : Ty} {state after : LoweringState}
    {lowered : Lowered} :
    LowersExpr table expr expected state lowered after → ∀ instr ∈ lowered.code, instr.IsStep
  | .int _ _ _ | .bool _ _ _ | .string _ _ _ | .self _ _ | .declared _ => by simp
  | .paren lowers => lowers.isStep
  | .field _ => List.forall_mem_singleton.mpr ⟨trivial, nofun⟩
  | .newObject _ _ _ => by
      refine List.forall_mem_cons.mpr ⟨⟨trivial, nofun⟩, List.forall_mem_singleton.mpr ?_⟩
      exact ⟨trivial, nofun⟩
  | .binary lowersFirst lowersSecond | .index lowersFirst lowersSecond =>
      forall_isStep_concat (List.forall_mem_append.mpr ⟨lowersFirst.isStep, lowersSecond.isStep⟩)
        trivial rfl
  | .not lowers | .length lowers | .newArray lowers | .call lowers _ =>
      forall_isStep_concat lowers.isStep trivial rfl
  | .arrayInit lowersElements _ =>
      List.forall_mem_append.mpr ⟨lowersElements.isStep, isStep_of_mem_packCode⟩

theorem LowersExprs.isStep {expectedAt : Nat → Ty} {exprs : List Expr}
    {state after : LoweringState} {code : Code} {values : List Value} :
    LowersExprs table expectedAt exprs state code values after → ∀ instr ∈ code, instr.IsStep
  | .nil _ _ => by simp
  | .cons lowersFirst lowersRest =>
      List.forall_mem_append.mpr ⟨lowersFirst.isStep, lowersRest.isStep⟩

theorem LowersCall.isStep {expr : Expr} {expected : Ty} {state after : LoweringState}
    {code : Code} {site : Call} :
    LowersCall table expr expected state code site after → ∀ instr ∈ code, instr.IsStep
  | .onClass _ lowersArgs packs | .onSelf _ _ lowersArgs packs | .onNamed _ lowersArgs packs =>
      List.forall_mem_append.mpr ⟨lowersArgs.isStep, packs.isStep⟩
  | .onObject _ lowersReceiver _ lowersArgs packs _ =>
      List.forall_mem_append.mpr ⟨List.forall_mem_append.mpr
        ⟨lowersReceiver.isStep, lowersArgs.isStep⟩, packs.isStep⟩

end

theorem LowersExpr.isStraight {expr : Expr} {expected : Ty} {state after : LoweringState}
    {lowered : Lowered} (lowers : LowersExpr table expr expected state lowered after) :
    ∀ instr ∈ lowered.code, instr.IsStraight :=
  fun instr member => (lowers.isStep instr member).1

theorem LowersCall.isStraight {expr : Expr} {expected : Ty} {state after : LoweringState}
    {code : Code} {site : Call} (lowers : LowersCall table expr expected state code site after) :
    ∀ instr ∈ code, instr.IsStraight :=
  fun instr member => (lowers.isStep instr member).1

end ClassCompiler.ThreeAddress
