import ClassCompiler.Proofs.Lowering.Straight

/-!
# Meaning of lowered expressions

The code of an expression computes what the source evaluates. The value is left
in the operand of the expression, and every variable but the temporaries of the
code is kept, so operands that were computed earlier still hold their values.
-/

namespace ClassCompiler.ThreeAddress

open Semantics Effects LoweringState
open Context (Heeded)

variable {table : SymbolTable} {world : World Scalar} {env : String → Val Scalar}
  {state : LoweringState}

/-! ## Single instructions -/

theorem onMemory_readHeap {α : Type} (read : Heap → Except Abort α) (state : State Scalar) :
    onMemory (do attempt (read (← get).heap)) state = attempt (read state.memory.heap) state := by
  rw [onMemory, bind_of_ok (get_apply _)]
  cases read state.memory.heap <;> rfl

section Instructions

variable {ty : Ty}

theorem effect_binary {op : BinaryOp} {left right : Value} {first second : Val Scalar}
    (holdsLeft : Holds world env left first) (holdsRight : Holds world env right second)
    (dest : Value) (memory : Memory Scalar) :
    (Instr.binary dest op left right).effect world false ⟨env, memory⟩ =
      (do
        let value ← onMemory (attempt (Val.binary op first second))
        dest.write false value) ⟨env, memory⟩ := by
  rw [Instr.effect, bind_of_ok (holdsLeft.fetch_apply memory),
    bind_of_ok (holdsRight.fetch_apply memory)]
  cases Val.binary op first second <;> rfl

theorem computes_not {operand : Value} {held : Val Scalar} (holds : Holds world env operand held) :
    Computes world env [.not (state.nextTemp table ty) operand] (attempt held.not)
      (fun value last => Kept table state (state.withTemp table ty) env last ∧
        Holds world last (state.nextTemp table ty) value) := by
  refine .intoTemp fun memory => ?_
  rw [Instr.effect, bind_of_ok (holds.fetch_apply memory)]
  cases held.not <;> rfl

theorem computes_getField {name : String} :
    Computes world env [.getField (state.nextTemp table ty) (selfValue table) name ty]
      (do attempt (readField (← get).heap ((state.context table).fieldKey world name) (storageOf ty)
        (.ref world.self)))
      (fun value last => Kept table state (state.withTemp table ty) env last ∧
        Holds world last (state.nextTemp table ty) value) := by
  refine .intoTemp fun memory => ?_
  rw [Instr.effect, bind_of_ok (holds_selfValue.fetch_apply memory), bind_of_ok (get_apply _),
    bind_apply, bind_apply, onMemory_readHeap fun heap =>
      readField heap ((state.context table).fieldKey world name) (storageOf ty) (.ref world.self)]
  rfl

theorem computes_readElement {array position : Value} {base offset : Val Scalar}
    (holdsArray : Holds world env array base) (holdsPosition : Holds world env position offset) :
    Computes world env [.assign (state.nextTemp table ty) (.element array position ty)]
      (do attempt (readElement (← get).heap (storageOf ty) base offset))
      (fun value last => Kept table state (state.withTemp table ty) env last ∧
        Holds world last (state.nextTemp table ty) value) := by
  refine .intoTemp fun memory => ?_
  have readEq : (Value.element array position ty).fetch world false ⟨env, memory⟩ =
      onMemory (do attempt (readElement (← get).heap (storageOf ty) base offset))
        ⟨env, memory⟩ := by
    rw [onMemory_readHeap fun heap => readElement heap (storageOf ty) base offset, Value.fetch,
      bind_of_ok (get_apply _), Value.read, holdsArray memory, holdsPosition memory]
    rfl
  rw [bind_apply, ← readEq]
  rfl

/-- A call that always has a result, which is left in a new temporary. -/
theorem computes_valueCall {site : Call} {action : Action (Memory Scalar) (Val Scalar)}
    (performEq : ∀ memory, site.perform world false ⟨env, memory⟩ =
      (do return some (← onMemory action) : Action (State Scalar) _) ⟨env, memory⟩) :
    Computes world env [.call (some (state.nextTemp table ty)) site] action
      (fun value last => Kept table state (state.withTemp table ty) env last ∧
        Holds world last (state.nextTemp table ty) value) := by
  refine .intoTemp fun memory => ?_
  rw [Instr.effect, bind_apply, performEq, bind_apply, bind_apply]
  cases onMemory action ⟨env, memory⟩ <;> rfl

theorem computes_arrayLength {array : Value} {base : Val Scalar}
    (holds : Holds world env array base) :
    Computes world env [.call (some (state.nextTemp table ty)) (.arrayLength array)]
      (do attempt (readLength (← get).heap base))
      (fun value last => Kept table state (state.withTemp table ty) env last ∧
        Holds world last (state.nextTemp table ty) value) := by
  refine computes_valueCall fun memory => ?_
  rw [bind_apply, onMemory_readHeap fun heap => readLength heap base]
  change (array.fetch world false >>= _) _ = _
  rw [bind_of_ok (holds.fetch_apply memory), bind_of_ok (get_apply _), bind_apply]

theorem computes_newArray {elem : Ty} {size : Value} {length : Val Scalar}
    (holds : Holds world env size length) :
    Computes world env
      [.call (some (state.nextTemp table (Ty.arrayOf elem.name))) (.newArray elem size)]
      (createArray (world.path elem.name) (storageOf (Ty.named elem.name)) length)
      (fun array last => Kept table state (state.withTemp table (Ty.arrayOf elem.name)) env last ∧
        Holds world last (state.nextTemp table (Ty.arrayOf elem.name)) array) := by
  refine computes_valueCall fun memory => ?_
  change (size.fetch world false >>= _) _ = _
  rw [bind_of_ok (holds.fetch_apply memory)]
  rfl

theorem computes_newObject (className : String) :
    Computes world env
      [.call (some (state.nextTemp table (Ty.named className))) (.newObject className)]
      (createObject (world.path className))
      (fun object last => Kept table state (state.withTemp table (Ty.named className)) env last ∧
        Holds world last (state.nextTemp table (Ty.named className)) object) :=
  computes_valueCall fun _ => rfl

end Instructions

/-! ## Arrays of values -/

theorem computes_elementStores {array : Value} {elem : Ty} {base : Val Scalar}
    {operands : List Value} {values : List (Val Scalar)} (holdsArray : Holds world env array base)
    (holds : HoldAll world env operands values) (start : Nat) :
    Computes world env
      ((operands.zipIdx start).map fun (value, position) =>
        Instr.assign (.element array (.int (Int32.ofNat position)) elem) value)
      (storeAll elem base start values) (fun _ last => last = env) := by
  induction holds generalizing start with
  | nil => exact .pure rfl
  | @cons operand value operands values first _ ih =>
      rw [List.zipIdx_cons, List.map_cons, storeAll, ← List.singleton_append]
      have stores : Computes world env
          [.assign (.element array (.int (Int32.ofNat start)) elem) operand]
          (writeElement (storageOf elem) base (.int (Int32.ofNat start)) value)
            (fun _ last => last = env) := by
        refine .single fun memory => ?_
        rw [Instr.effect, bind_of_ok (holdsArray.fetch_apply memory),
          bind_of_ok ((holds_int _).fetch_apply memory), bind_of_ok (first.fetch_apply memory),
          bind_apply, onMemory]
        cases writeElement (storageOf elem) base (.int (Int32.ofNat start)) value memory <;> rfl
      refine stores.bind ?_
      rintro _ last rfl
      exact ih (start + 1)

/-- Code that packs operands makes an array of their values. -/
theorem computes_packCode {elem : Ty} {operands : List Value} {values : List (Val Scalar)}
    (single : elem.element = elem) (holds : HoldAll world env operands values)
    (settled : ∀ operand ∈ operands, Settled table state operand) :
    Computes world env (packCode table elem operands state) (evalArray world elem values)
      (fun array last => Kept table state (state.withTemp table (Ty.arrayOf elem.name)) env last ∧
        Holds world last (state.nextTemp table (Ty.arrayOf elem.name)) array) := by
  have creates : Computes world env
      [.call (some (state.nextTemp table (Ty.arrayOf elem.name)))
        (Call.newArray elem (.int (Int32.ofNat operands.length)))]
      (createArray (world.path elem.name) (storageOf elem) (.int (Int32.ofNat values.length)))
      (fun array last => Kept table state (state.withTemp table (Ty.arrayOf elem.name)) env last ∧
        Holds world last (state.nextTemp table (Ty.arrayOf elem.name)) array) := by
    rw [← List.Forall₂.length_eq holds]
    conv in createArray _ (storageOf elem) _ => rw [← single, Ty.element]
    exact computes_newArray (holds_int _)
  refine creates.bind ?_
  rintro array middle ⟨kept, holdsArray⟩
  refine (computes_elementStores holdsArray (holds.kept settled kept) 0).followed ?_
  rintro _ last rfl
  exact .pure ⟨kept, holdsArray⟩

theorem element_of_collected {own : Option MethodSignature} {tys : List Ty} {fixed : Nat}
    {elem : Ty} (collects : collected? own tys = some (fixed, elem)) : elem.element = elem := by
  have single (found : Ty) (vararg : varargElement? own = some found) :
      found.element = found := by
    unfold varargElement? at vararg
    cases own with
    | none => cases vararg
    | some signature =>
        simp only [Option.ite_none_right_eq_some, Option.map_eq_some_iff] at vararg
        rcases vararg with ⟨_, param, _, rfl⟩
        rfl
  unfold collected? at collects
  rw [collectedElement?_eq] at collects
  cases vararg : varargElement? own with
  | none => simp [vararg] at collects
  | some found =>
      have foundSingle := single found vararg
      simp only [vararg] at collects
      split at collects
      · split at collects
        · cases collects
        · cases collects
          exact foundSingle
      · cases collects
        exact foundSingle

/-- The arguments of a call are collected as in the source. -/
theorem PacksArguments.computes {own : Option MethodSignature} {operands packed : List Value}
    {values : List (Val Scalar)} {after : LoweringState} {code : Code}
    (packs : PacksArguments table own operands state code packed after)
    (holds : HoldAll world env operands values)
    (settled : ∀ operand ∈ operands, Settled table state operand) :
    Computes world env code (collectArguments world own (operands.map Value.ty) values)
      (fun collected last => Kept table state after env last ∧
        collected.1 = packed.map Value.ty ∧ HoldAll world last packed collected.2) := by
  cases packs with
  | kept collects =>
      rw [collectArguments, collects]
      exact .pure ⟨.refl _ _ _, rfl, holds⟩
  | @collected fixed elem collects _ =>
      rw [collectArguments, collects]
      refine (computes_packCode (element_of_collected collects) (List.forall₂_drop fixed holds)
        fun operand among => settled operand (List.mem_of_mem_drop among)).followed ?_
      rintro array last ⟨kept, holdsArray⟩
      have keeps : HoldAll world last (operands.take fixed) (values.take fixed) :=
        HoldAll.kept (List.forall₂_take fixed holds)
          (fun operand among => settled operand (List.mem_of_mem_take among)) kept
      exact .pure ⟨kept, by simp [nextTemp, Value.ty],
        List.rel_append keeps (.cons holdsArray .nil)⟩

/-! ## Calls -/

/-- A call instruction makes a call of the source. -/
def Performs (world : World Scalar) (env : String → Val Scalar) (site : Call)
    (event : CallEvent Scalar) : Prop :=
  ∀ memory, site.perform world false ⟨env, memory⟩ =
    onMemory (invoke world event) ⟨env, memory⟩

theorem performs_invoke {mode : InvokeMode} {target : Value} {owner : Owner}
    {receiver : Option (Val Scalar)} {operands : List Value} {values : List (Val Scalar)}
    (ownerEq : ownerOf mode target = .ok owner)
    (receives : ∀ memory, fetchReceiver world false mode target ⟨env, memory⟩ =
      .ok receiver ⟨env, memory⟩)
    (holds : HoldAll world env operands values) (name : String) (returnTy : Ty) :
    Performs world env (.invoke mode target name operands returnTy)
      ⟨owner, name, operands.map Value.ty, returnTy, receiver, values⟩ := by
  intro memory
  have accepts : acceptReceiver false receiver = .ok () := by
    rcases receiver with _ | _ | _ <;> rfl
  change performInvoke world false mode target name operands returnTy _ = _
  rw [performInvoke, ownerEq, bind_of_ok (attempt_ok _ _), bind_of_ok (receives memory),
    bind_of_ok (get_apply _), holds.readAll_eq memory, bind_of_ok (attempt_ok _ _),
    acceptAll_unchecked, bind_of_ok (attempt_ok _ _), accepts, bind_of_ok (attempt_ok _ _)]

theorem performs_static (className : String) {operands : List Value} {values : List (Val Scalar)}
    (holds : HoldAll world env operands values) (name : String) (returnTy : Ty) :
    Performs world env (.invoke .static (.classRef className) name operands returnTy)
      ⟨.static className, name, operands.map Value.ty, returnTy, none, values⟩ :=
  performs_invoke rfl (fun _ => rfl) holds name returnTy

theorem performs_virtual {target : Value} {object : Val Scalar} {operands : List Value}
    {values : List (Val Scalar)} (holdsTarget : Holds world env target object)
    (holds : HoldAll world env operands values) (name : String) (returnTy : Ty) :
    Performs world env (.invoke .virtual target name operands returnTy)
      ⟨.virtual target.ty, name, operands.map Value.ty, returnTy, some object, values⟩ := by
  refine performs_invoke rfl (fun memory => ?_) holds name returnTy
  change (target.fetch world false >>= _) _ = _
  rw [bind_of_ok (holdsTarget.fetch_apply memory)]
  rfl

theorem effect_call {site : Call} {event : CallEvent Scalar}
    (performs : Performs world env site event) (dest : Value) (memory : Memory Scalar) :
    (Instr.call (some dest) site).effect world false ⟨env, memory⟩ =
      (do
        let value ← onMemory (callResult world (pure event))
        dest.write false value) ⟨env, memory⟩ := by
  rw [Instr.effect, bind_apply, performs memory, bind_apply, onMemory, onMemory, callResult,
    bind_of_ok (pure_apply event memory), bind_apply]
  cases invoke world event memory with
  | error reason after => rfl
  | ok result after => cases result <;> rfl

/-- The result of a call may be dropped. -/
theorem computes_droppedCall {site : Call} {event : CallEvent Scalar}
    (performs : Performs world env site event) :
    Computes world env [.call none site] (invoke world event) (fun _ last => last = env) := by
  refine .single fun memory => ?_
  rw [Instr.effect, bind_apply, performs memory, bind_apply, onMemory]
  cases invoke world event memory <;> rfl

theorem performs_construct {ty : Ty} {object : Val Scalar}
    (holds : Holds world env (state.nextTemp table ty) object) :
    Performs world env (.construct (state.nextTemp table ty))
      ⟨.special ty, "<init>", [], Ty.void, some object, []⟩ := by
  refine performs_invoke rfl (fun memory => ?_) .nil _ _
  change ((state.nextTemp table ty).fetch world false >>= _) _ = _
  rw [bind_of_ok (holds.fetch_apply memory)]
  rfl

/-- A call is made with the arguments that were collected. -/
theorem PacksArguments.computes_callEvent {own : Option MethodSignature}
    {operands packed : List Value} {values : List (Val Scalar)} {after : LoweringState}
    {code : Code} {owner : Owner} {receiver : Option (Val Scalar)} {mode : InvokeMode}
    {target : Value} {name : String} {expected : Ty}
    (packs : PacksArguments table own operands state code packed after)
    (holds : HoldAll world env operands values)
    (settled : ∀ operand ∈ operands, Settled table state operand)
    (performs : ∀ last args, Kept table state after env last → HoldAll world last packed args →
      Performs world last
        (.invoke mode target name packed (Context.resultTy own expected))
        ⟨owner, name, packed.map Value.ty, Context.resultTy own expected, receiver, args⟩) :
    Computes world env code
      (callEvent world own owner receiver name (operands.map Value.ty) values expected)
      (fun event last => Kept table state after env last ∧
        Performs world last (.invoke mode target name packed (Context.resultTy own expected))
          event) := by
  refine (packs.computes holds settled).followed ?_
  rintro ⟨params, args⟩ last ⟨kept, rfl, holdsPacked⟩
  exact .pure ⟨kept, performs last args kept holdsPacked⟩

/-! ## Expressions -/

theorem element_literalElement (expected : Ty) :
    (literalElement expected).element = literalElement expected := by
  unfold literalElement
  split <;> rfl

/-- An expression has one value where expectations make no difference to it. -/
theorem eval_congr {context : Context} {source : String → Val Scalar} {expr : Expr}
    {first second : Ty} (alike : context.Alike Eq expr first second) :
    eval context world source expr first = eval context world source expr second := by
  cases inside : context.isOutsideCall expr with
  | true => rw [alike.1 inside]
  | false =>
      have sameElements := alike.2
      clear alike
      fun_induction Expr.unparen expr with
      | case1 inner ih =>
          rw [eval, eval]
          exact ih inside sameElements
      | case2 expr notParen =>
          cases expr with
          | paren inner => exact absurd rfl (notParen inner)
          | arrayInit elements => rw [eval, eval, sameElements rfl]
          | selfCall name args =>
              obtain ⟨own, found⟩ :=
                Option.isSome_iff_exists.mp (Option.isNone_eq_false_iff.mp inside)
              rw [eval, eval, callOnSelf, callOnSelf, found]
              rfl
          | call receiver name args =>
              obtain ⟨own, found⟩ :=
                Option.isSome_iff_exists.mp (Option.isNone_eq_false_iff.mp inside)
              rw [eval, eval, callOn, callOn]
              unfold Context.callee? at found
              cases named : context.classNamed? receiver with
              | some className | none =>
                  rw [named] at found
                  dsimp only at found ⊢
                  rw [found]
                  rfl
          | _ => rw [eval, eval]

/-- Expressions have the same values where expectations make no difference to them. -/
theorem evalAll_congr {context : Context} {source : String → Val Scalar} {exprs : List Expr}
    {first second : Nat → Ty}
    (alike : ∀ position expr, exprs[position]? = some expr →
      context.Alike Eq expr (first position) (second position)) :
    evalAll context world source first exprs = evalAll context world source second exprs := by
  induction exprs generalizing first second with
  | nil => rw [evalAll, evalAll]
  | cons expr rest ih =>
      rw [evalAll, evalAll, eval_congr (alike 0 expr rfl),
        ih fun position expr found => alike (position + 1) expr found]

theorem LowersCall.eval_eq {expr : Expr} {expected : Ty} {after : LoweringState} {code : Code}
    {site : Call} {source : String → Val Scalar}
    (lowersCall : LowersCall table expr expected state code site after) (context : Context) :
    eval context world source expr expected =
      callResult world (evalCall context world source expr expected) := by
  cases lowersCall <;> rw [eval, evalCall]

mutual

/-- The code of an expression computes its value. -/
theorem LowersExpr.computes {expr : Expr} {expected : Ty} {state after : LoweringState}
    {lowered : Lowered} {source env : String → Val Scalar} :
    LowersExpr table expr expected state lowered after →
    Agrees (state.scope.takenNames table) source env →
    Heeded ((state.context table).overlooked expr) →
    Computes world env lowered.code (eval (state.context table) world source expr expected)
      (fun value last => Kept table state after env last ∧ Holds world last lowered.value value)
  | .int value _ _, _, _ | .bool value _ _, _, _ | .string value _ _, _, _ => by
      rw [eval]
      exact .pure ⟨.refl _ _ _, fun _ => rfl⟩
  | .self _ _, _, _ => by
      rw [eval]
      exact .pure ⟨.refl _ _ _, holds_selfValue⟩
  | .paren lowers, agrees, heeded => by
      rw [eval]
      exact lowers.computes agrees heeded
  | .declared resolves, agrees, _ => by
      rw [eval, evalVar, resolves, ← agrees _ (mem_takenNames_of_resolve resolves)]
      exact .pure ⟨.refl _ _ _, holds_var _ _⟩
  | .field resolves, _, _ => by
      rw [eval, evalVar, resolves]
      exact computes_getField
  | .binary lowersLeft lowersRight, agrees, heeded => by
      obtain ⟨heededLeft, heededRight⟩ := List.forall_mem_append.mp heeded
      rw [eval, List.append_assoc]
      refine (lowersLeft.computes agrees heededLeft).bind ?_
      rintro left between ⟨keptLeft, holdsLeft⟩
      rw [← lowersLeft.extends.context_eq] at heededRight ⊢
      refine (lowersRight.computes (agrees.kept keptLeft lowersLeft.extends) heededRight).bind ?_
      rintro right middle ⟨keptRight, holdsRight⟩
      refine (Computes.intoTemp (effect_binary (holdsLeft.kept lowersLeft.settled keptRight)
        holdsRight _)).mono ?_
      rintro value last ⟨kept, holds⟩
      exact ⟨(keptLeft.trans keptRight lowersLeft.extends lowersRight.extends).trans kept
        (lowersLeft.extends.trans lowersRight.extends) (extends_withTemp _ _ _), holds⟩
  | .not lowers, agrees, heeded => by
      rw [eval]
      refine (lowers.computes agrees heeded).bind ?_
      rintro operand middle ⟨keptOperand, holdsOperand⟩
      refine (computes_not holdsOperand).mono ?_
      rintro value last ⟨kept, holds⟩
      exact ⟨keptOperand.trans kept lowers.extends (extends_withTemp _ _ _), holds⟩
  | .index lowersArray lowersPosition, agrees, heeded => by
      obtain ⟨heededArray, heededPosition⟩ := List.forall_mem_append.mp heeded
      rw [eval, List.append_assoc, Context.elementOf, ← lowersArray.ty_eq]
      refine (lowersArray.computes agrees heededArray).bind ?_
      rintro base between ⟨keptArray, holdsArray⟩
      rw [← lowersArray.extends.context_eq] at heededPosition ⊢
      refine (lowersPosition.computes (agrees.kept keptArray lowersArray.extends)
        heededPosition).bind ?_
      rintro offset middle ⟨keptPosition, holdsPosition⟩
      refine (computes_readElement (holdsArray.kept lowersArray.settled keptPosition)
        holdsPosition).mono ?_
      rintro value last ⟨kept, holds⟩
      exact ⟨(keptArray.trans keptPosition lowersArray.extends lowersPosition.extends).trans kept
        (lowersArray.extends.trans lowersPosition.extends) (extends_withTemp _ _ _), holds⟩
  | .length lowersArray, agrees, heeded => by
      rw [eval]
      refine (lowersArray.computes agrees heeded).bind ?_
      rintro base middle ⟨keptArray, holdsArray⟩
      refine (computes_arrayLength holdsArray).mono ?_
      rintro value last ⟨kept, holds⟩
      exact ⟨keptArray.trans kept lowersArray.extends (extends_withTemp _ _ _), holds⟩
  | .newArray lowersSize, agrees, heeded => by
      rw [eval]
      refine (lowersSize.computes agrees heeded).bind ?_
      rintro size middle ⟨keptSize, holdsSize⟩
      refine (computes_newArray holdsSize).mono ?_
      rintro value last ⟨kept, holds⟩
      exact ⟨keptSize.trans kept lowersSize.extends (extends_withTemp _ _ _), holds⟩
  | .arrayInit lowersElements _, agrees, heeded => by
      rw [eval]
      refine (lowersElements.computes agrees heeded).bind ?_
      rintro values middle ⟨keptElements, holdsElements⟩
      refine (computes_packCode (element_literalElement _) holdsElements
        lowersElements.settled).mono ?_
      rintro value last ⟨kept, holds⟩
      exact ⟨keptElements.trans kept lowersElements.extends (extends_withTemp _ _ _), holds⟩
  | .newObject className _ _, _, _ => by
      rw [eval, ← List.singleton_append]
      refine (computes_newObject className).bind ?_
      rintro object middle ⟨kept, holds⟩
      refine (computes_droppedCall (performs_construct holds)).followed ?_
      rintro _ last rfl
      exact .pure ⟨kept, holds⟩
  | .call lowersCall _, agrees, heeded => by
      rw [lowersCall.eval_eq]
      refine (lowersCall.computes agrees heeded).bind ?_
      rintro event middle ⟨keptCall, performs⟩
      refine (Computes.intoTemp (effect_call performs _)).mono ?_
      rintro value last ⟨kept, holds⟩
      exact ⟨keptCall.trans kept lowersCall.extends (extends_withTemp _ _ _), holds⟩

/-- The code of expressions computes their values. -/
theorem LowersExprs.computes {expectedAt : Nat → Ty} {exprs : List Expr}
    {state after : LoweringState} {code : Code} {operands : List Value}
    {source env : String → Val Scalar} :
    LowersExprs table expectedAt exprs state code operands after →
    Agrees (state.scope.takenNames table) source env →
    Heeded ((state.context table).overlookedAll exprs) →
    Computes world env code (evalAll (state.context table) world source expectedAt exprs)
      (fun values last => Kept table state after env last ∧ HoldAll world last operands values)
  | .nil _ _, _, _ => by
      rw [evalAll]
      exact .pure ⟨.refl _ _ _, .nil⟩
  | .cons lowersFirst lowersRest, agrees, heeded => by
      obtain ⟨heededFirst, heededRest⟩ := List.forall_mem_append.mp heeded
      rw [evalAll]
      refine (lowersFirst.computes agrees heededFirst).bind ?_
      rintro value middle ⟨keptFirst, holdsFirst⟩
      rw [← lowersFirst.extends.context_eq] at heededRest ⊢
      refine (lowersRest.computes (agrees.kept keptFirst lowersFirst.extends)
        heededRest).followed ?_
      rintro values last ⟨keptRest, holdsRest⟩
      exact .pure ⟨keptFirst.trans keptRest lowersFirst.extends lowersRest.extends,
        .cons (holdsFirst.kept lowersFirst.settled keptRest) holdsRest⟩

/-- The code before a call computes the call that is made. -/
theorem LowersCall.computes {expr : Expr} {expected : Ty} {state after : LoweringState}
    {code : Code} {site : Call} {source env : String → Val Scalar} :
    LowersCall table expr expected state code site after →
    Agrees (state.scope.takenNames table) source env →
    Heeded ((state.context table).overlooked expr) →
    Computes world env code (evalCall (state.context table) world source expr expected)
      (fun event last => Kept table state after env last ∧ Performs world last site event)
  | .onClass isStatic lowersArgs packs, agrees, heeded => by
      obtain ⟨heededLiteral, heededArgs⟩ := List.forall_mem_append.mp heeded
      have alike := Heeded.alike_argument heededLiteral (state.context table)
      rw [evalCall, callOnSelf, evalAll_congr alike, Context.typesOf_congr alike]
      refine (lowersArgs.computes agrees heededArgs).bind ?_
      rintro values middle ⟨keptArgs, holds⟩
      rw [if_pos (by simpa using isStatic), table_context, ← lowersArgs.map_ty_eq]
      refine (packs.computes_callEvent holds lowersArgs.settled fun _ _ _ holdsPacked =>
        performs_static _ holdsPacked _ _).mono ?_
      rintro event last ⟨kept, performs⟩
      exact ⟨keptArgs.trans kept lowersArgs.extends packs.extends, performs⟩
  | .onSelf isInstance calleeInstance lowersArgs packs, agrees, heeded => by
      obtain ⟨heededLiteral, heededArgs⟩ := List.forall_mem_append.mp heeded
      have alike := Heeded.alike_argument heededLiteral (state.context table)
      rw [evalCall, callOnSelf, evalAll_congr alike, Context.typesOf_congr alike]
      refine (lowersArgs.computes agrees heededArgs).bind ?_
      rintro values middle ⟨keptArgs, holds⟩
      rw [if_neg (by simp [isInstance, calleeInstance]), table_context, ← lowersArgs.map_ty_eq]
      refine (packs.computes_callEvent holds lowersArgs.settled fun _ _ _ holdsPacked =>
        performs_virtual holds_selfValue holdsPacked _ _).mono ?_
      rintro event last ⟨kept, performs⟩
      exact ⟨keptArgs.trans kept lowersArgs.extends packs.extends, performs⟩
  | .onNamed names lowersArgs packs, agrees, heeded => by
      rw [Context.overlooked, Context.callee?, names] at heeded
      obtain ⟨heededLiteral, heededParts⟩ := List.forall_mem_append.mp heeded
      have alike := Heeded.alike_argument heededLiteral (state.context table)
      rw [evalCall, callOn, names]
      dsimp only at alike ⊢
      rw [evalAll_congr alike, Context.typesOf_congr alike]
      refine (lowersArgs.computes agrees (List.forall_mem_append.mp heededParts).2).bind ?_
      rintro values middle ⟨keptArgs, holds⟩
      rw [← lowersArgs.map_ty_eq]
      refine (packs.computes_callEvent holds lowersArgs.settled fun _ _ _ holdsPacked =>
        performs_static _ holdsPacked _ _).mono ?_
      rintro event last ⟨kept, performs⟩
      exact ⟨keptArgs.trans kept lowersArgs.extends packs.extends, performs⟩
  | .onObject namesNone lowersReceiver ownEq lowersArgs packs targetEq, agrees, heeded => by
      rw [Context.overlooked, Context.callee?, namesNone] at heeded
      obtain ⟨heededLiteral, heededParts⟩ := List.forall_mem_append.mp heeded
      obtain ⟨heededReceiver, heededArgs⟩ := List.forall_mem_append.mp heededParts
      rw [evalCall, callOn, namesNone, List.append_assoc]
      refine (lowersReceiver.computes agrees heededReceiver).bind ?_
      rintro object between ⟨keptReceiver, holdsReceiver⟩
      simp only [table_context, ← lowersReceiver.ty_eq, ← ownEq] at heededLiteral ⊢
      have alike := Heeded.alike_argument heededLiteral (state.context table)
      rw [evalAll_congr alike, Context.typesOf_congr alike]
      rw [← lowersReceiver.extends.context_eq] at heededArgs ⊢
      have agreesArgs := agrees.kept keptReceiver lowersReceiver.extends
      refine (lowersArgs.computes agreesArgs heededArgs).bind ?_
      rintro values middle ⟨keptArgs, holds⟩
      rw [← lowersArgs.map_ty_eq]
      have keptBefore := keptReceiver.trans keptArgs lowersReceiver.extends lowersArgs.extends
      have growsBefore := lowersReceiver.extends.trans lowersArgs.extends
      split at targetEq
      · next isStatic =>
          cases targetEq
          rw [if_pos isStatic]
          refine (packs.computes_callEvent holds lowersArgs.settled fun _ _ _ holdsPacked =>
            performs_static _ holdsPacked _ _).mono ?_
          rintro event last ⟨kept, performs⟩
          exact ⟨keptBefore.trans kept growsBefore packs.extends, performs⟩
      · next isInstance =>
          cases targetEq
          rw [if_neg isInstance]
          have settled := lowersReceiver.settled.mono lowersArgs.extends
          have holdsObject := holdsReceiver.kept lowersReceiver.settled keptArgs
          refine (packs.computes_callEvent holds lowersArgs.settled fun _ _ kept holdsPacked =>
            performs_virtual (holdsObject.kept settled kept) holdsPacked _ _).mono ?_
          rintro event last ⟨kept, performs⟩
          exact ⟨keptBefore.trans kept growsBefore packs.extends, performs⟩

end

end ClassCompiler.ThreeAddress
