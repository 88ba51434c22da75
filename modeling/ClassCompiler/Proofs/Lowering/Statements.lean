import ClassCompiler.Proofs.Lowering.Expressions
import ClassCompiler.Proofs.Lowering.Labels
import ClassCompiler.Proofs.Semantics.Placement

/-!
# Meaning of lowered statements

Wherever the code of a statement stands in a body whose labels differ, running it
does what the source statement does: it reaches the place behind the code when the
statement completes normally, and otherwise ends the method in the same way. The
other direction follows the length of the run: a body that ends has executed a
statement whose source completes.
-/

namespace ClassCompiler.ThreeAddress

open Semantics Effects LoweringState
open Context (Heeded)

/-! ## Steps of a body -/

section Steps

variable {S : Type} [Arithmetic S] {method : Method} {world : World S} {checked : Bool}
  {place : Nat}

/-- Straight code runs from its place to its end. -/
theorem steps_of_runCode {code : Code} (straight : ∀ instr ∈ code, instr.IsStraight)
    (placed : PlacedAt code place method.body) {state after : State S}
    (runEq : runCode world checked code state = .ok () after) :
    Steps (method.step world checked) code.length ⟨place, state⟩ ⟨place + code.length, after⟩ := by
  induction code generalizing place state with
  | nil =>
      cases runEq
      exact .refl _
  | cons instr rest ih =>
      rcases bind_eq_ok_iff.mp runEq with ⟨_, middle, effectEq, restEq⟩
      have stepEq := step_of_isStraight placed.head (straight instr List.mem_cons_self)
        world checked
        state
      rw [effectEq] at stepEq
      have steps := ih
        (fun instr member => straight instr (List.mem_cons_of_mem _ member)) placed.tail restEq
      rw [Nat.add_right_comm] at steps
      exact .head stepEq steps

/-- Straight code that aborts ends the method. -/
theorem stops_of_runCode {code : Code} (straight : ∀ instr ∈ code, instr.IsStraight)
    (placed : PlacedAt code place method.body) {state after : State S} {reason : Abort}
    (runEq : runCode world checked code state = .error reason after) :
    Stops (method.step world checked) ⟨place, state⟩ ⟨.aborted reason, after⟩ := by
  induction code generalizing place state with
  | nil => cases runEq
  | cons instr rest ih =>
      have stepEq := step_of_isStraight placed.head (straight instr List.mem_cons_self)
        world checked
        state
      rw [runCode, bind_apply] at runEq
      cases effectEq : instr.effect world checked state with
      | error found middle =>
          rw [effectEq] at stepEq runEq
          cases runEq
          exact .of_stop stepEq
      | ok _ middle =>
          rw [effectEq] at stepEq runEq
          exact .of_steps (.single stepEq) (ih
            (fun instr member => straight instr (List.mem_cons_of_mem _ member)) placed.tail runEq)

end Steps

variable {table : SymbolTable} {world : World Scalar} {source env : String → Val Scalar}
  {memory : Memory Scalar} {method : Method} {place : Nat}

theorem Computes.steps {α : Type} {code : Code} {action : Action (Memory Scalar) α}
    {post : α → (String → Val Scalar) → Prop} (computes : Computes world env code action post)
    (straight : ∀ instr ∈ code, instr.IsStraight) (placed : PlacedAt code place method.body)
    {value : α} {after : Memory Scalar} (result : action memory = .ok value after) :
    ∃ last, Steps (method.step world false) code.length ⟨place, ⟨env, memory⟩⟩
      ⟨place + code.length, ⟨last, after⟩⟩ ∧ post value last := by
  have computed := computes memory
  rw [result] at computed
  rcases computed with ⟨last, runEq, holds⟩
  exact ⟨last, steps_of_runCode straight placed runEq, holds⟩

theorem Computes.stops {α : Type} {code : Code} {action : Action (Memory Scalar) α}
    {post : α → (String → Val Scalar) → Prop} (computes : Computes world env code action post)
    (straight : ∀ instr ∈ code, instr.IsStraight) (placed : PlacedAt code place method.body)
    {reason : Abort} {after : Memory Scalar} (result : action memory = .error reason after) :
    ∃ last, Stops (method.step world false) ⟨place, ⟨env, memory⟩⟩
      ⟨.aborted reason, ⟨last, after⟩⟩ := by
  have computed := computes memory
  rw [result] at computed
  rcases computed with ⟨last, runEq⟩
  exact ⟨last, stops_of_runCode straight placed runEq⟩

/-! ## Completion -/

/-- A run from a configuration completes as a statement does: it reaches the place
behind the statement, or it ends the method. -/
def Achieves (method : Method) (world : World Scalar) (taken : List String) (start : Config Scalar)
    (behind : Nat) : Completion → Prop
  | .normal source memory =>
      ∃ n last, Steps (method.step world false) n start ⟨behind, ⟨last, memory⟩⟩ ∧
        Agrees taken source last
  | .returned value memory =>
      ∃ last, Stops (method.step world false) start ⟨.returned value, ⟨last, memory⟩⟩
  | .aborted reason memory =>
      ∃ last, Stops (method.step world false) start ⟨.aborted reason, ⟨last, memory⟩⟩

theorem Achieves.of_steps {taken : List String} {start middle : Config Scalar} {behind n : Nat}
    {completion : Completion} (steps : Steps (method.step world false) n start middle)
    (achieves : Achieves method world taken middle behind completion) :
    Achieves method world taken start behind completion := by
  cases completion with
  | normal source memory =>
      rcases achieves with ⟨m, last, rest, agrees⟩
      exact ⟨n + m, last, steps.trans rest, agrees⟩
  | returned value memory | aborted reason memory =>
      rcases achieves with ⟨last, stops⟩
      exact ⟨last, .of_steps steps stops⟩

/-- A completion that is not normal does not depend on the place behind. -/
theorem Achieves.of_not_normal {taken : List String} {start : Config Scalar} {behind other : Nat}
    {completion : Completion} (leaves : completion.isNormal = false)
    (achieves : Achieves method world taken start behind completion) :
    Achieves method world taken start other completion := by
  cases completion with
  | normal source memory => cases leaves
  | returned value memory => exact achieves
  | aborted reason memory => exact achieves

/-- Straight code achieves the completion of the action that it computes. -/
theorem Computes.achieves {α : Type} {code : Code} {action : Action (Memory Scalar) α}
    {taken : List String} {assigned : α → String → Val Scalar}
    (computes : Computes world env code action (fun value last =>
      Agrees taken (assigned value) last))
    (straight : ∀ instr ∈ code, instr.IsStraight) (placed : PlacedAt code place method.body) :
    Achieves method world taken ⟨place, ⟨env, memory⟩⟩ (place + code.length)
      (.of (fun value => .normal (assigned value)) (action memory)) := by
  cases result : action memory with
  | ok value after =>
      rcases computes.steps straight placed result with ⟨last, steps, agrees⟩
      exact ⟨code.length, last, steps, agrees⟩
  | error reason after => exact computes.stops straight placed result

/-! ## Assignments -/

theorem Agrees.assignVariable {taken : List String} (agrees : Agrees taken source env)
    (name : String) (value : Val Scalar) :
    Agrees taken (assignVariable source name value) (assignVariable env name value) := by
  intro other member
  unfold Semantics.assignVariable
  split
  · rfl
  · exact agrees other member

theorem eval_unparen (context : Context) (expr : Expr) (expected : Ty) :
    eval context world source expr.unparen expected = eval context world source expr expected := by
  fun_induction Expr.unparen expr with
  | case1 inner ih => rw [ih, eval]
  | case2 => rfl

theorem computes_move {operand : Value} {held : Val Scalar} {name : String} {ty : Ty}
    (holds : Holds world env operand held) :
    Computes world env [.assign (.var name ty) operand] (pure held)
      (fun value last => last = assignVariable env name value) := by
  refine .single fun memory => ?_
  rw [Instr.effect, bind_of_ok (holds.fetch_apply memory), write_var_apply]
  · rfl
  · intro array position ty same
    cases same

theorem computes_putField {state : LoweringState} {operand : Value} {held : Val Scalar}
    {name : String} (holds : Holds world env operand held) :
    Computes world env [.putField (selfValue table) name operand]
      (writeField ((state.context table).fieldKey world name) (storageOf operand.ty)
        (.ref world.self) held)
      (fun _ last => last = env) := by
  refine .single fun memory => ?_
  rw [Instr.effect, bind_of_ok (holds_selfValue.fetch_apply memory),
    bind_of_ok (holds.fetch_apply memory), bind_apply]
  change onMemory (writeField ((state.context table).fieldKey world name) (storageOf operand.ty) _
    held) _ = _
  rw [onMemory]
  cases writeField ((state.context table).fieldKey world name) (storageOf operand.ty)
    (.ref world.self) held
    memory <;> rfl

theorem computes_writeElement {array position operand : Value} {base offset held : Val Scalar}
    {elem : Ty} (holdsArray : Holds world env array base)
    (holdsPosition : Holds world env position offset) (holds : Holds world env operand held) :
    Computes world env [.assign (.element array position elem) operand]
      (writeElement (storageOf elem) base offset held) (fun _ last => last = env) := by
  refine .single fun memory => ?_
  rw [Instr.effect, bind_of_ok (holdsArray.fetch_apply memory),
    bind_of_ok (holdsPosition.fetch_apply memory), bind_of_ok (holds.fetch_apply memory),
    bind_apply, onMemory]
  cases writeElement (storageOf elem) base offset held memory <;> rfl

theorem forall_isStraight_append {code : Code} {instr : Instr}
    (straight : ∀ other ∈ code, other.IsStraight) (last : instr.IsStraight) :
    ∀ other ∈ code ++ [instr], other.IsStraight :=
  List.forall_mem_append.mpr ⟨straight, by simpa using last⟩

/-- A name that is lowered is that of a variable or a field. -/
theorem LowersExpr.exists_resolve {expr : Expr} {expected : Ty} {state after : LoweringState}
    {lowered : Lowered} (lowers : LowersExpr table expr expected state lowered after)
    (name : String) (isVar : expr.unparen = .var name) :
    ∃ ty, (state.context table).resolve? name = some (.declared ty) ∨
      (state.context table).resolve? name = some (.field ty) := by
  have lowersName := lowers.unparen
  rw [isVar] at lowersName
  cases lowersName with
  | declared resolves => exact ⟨_, .inl resolves⟩
  | field resolves => exact ⟨_, .inr resolves⟩
  | call lowersCall => cases lowersCall

/-- The code of an assignment does what the assignment does. -/
theorem achieves_assign {target value : Expr} {state after : LoweringState} {code : Code}
    (lowers : LowersStmt table (.assign target value) state code after)
    (heeded : Heeded ((state.context table).assignOverlooked target value))
    (agrees : Agrees (state.scope.takenNames table) source env)
    (placed : PlacedAt code place method.body) :
    Achieves method world (state.scope.takenNames table) ⟨place, ⟨env, memory⟩⟩
      (place + code.length)
      (execAssign (state.context table) world target value source memory) := by
  unfold execAssign
  unfold Context.assignOverlooked at heeded
  cases lowers with
  | @assignOperator _ _ left right name op _ middle _ first second targetEq resolves valueEq
      lowersLeft lowersRight =>
      simp only [targetEq, resolves] at heeded ⊢
      rw [← Context.overlooked_unparen, valueEq] at heeded
      obtain ⟨heededLeft, heededRight⟩ := List.forall_mem_append.mp heeded
      rw [← eval_unparen, valueEq, eval]
      refine Computes.achieves ?_ (forall_isStraight_append
        (List.forall_mem_append.mpr ⟨lowersLeft.isStraight, lowersRight.isStraight⟩) trivial) placed
      rw [List.append_assoc]
      refine (lowersLeft.computes agrees heededLeft).bind ?_
      rintro leftValue between ⟨keptLeft, holdsLeft⟩
      rw [← lowersLeft.extends.context_eq] at heededRight ⊢
      have agreesLeft := agrees.kept keptLeft lowersLeft.extends
      refine (lowersRight.computes agreesLeft heededRight).bind ?_
      rintro rightValue last ⟨keptRight, holdsRight⟩
      have agreesRight := agreesLeft.kept keptRight lowersRight.extends
      rw [lowersRight.extends.takenNames_eq, lowersLeft.extends.takenNames_eq] at agreesRight
      refine (Computes.intoVariable (effect_binary (holdsLeft.kept lowersLeft.settled keptRight)
        holdsRight _)).mono ?_
      rintro result _ rfl
      exact agreesRight.assignVariable name result
  | @assignCall _ _ name ty _ _ _ _ targetEq resolves lowersCall =>
      simp only [targetEq, resolves] at heeded ⊢
      rw [← Context.overlooked_unparen] at heeded
      rw [← eval_unparen, lowersCall.eval_eq]
      refine Computes.achieves ?_ (forall_isStraight_append lowersCall.isStraight trivial) placed
      refine (lowersCall.computes agrees heeded).bind ?_
      rintro event last ⟨kept, performs⟩
      have agreesLast := agrees.afterwards kept
      refine (Computes.intoVariable (effect_call performs _)).mono ?_
      rintro result _ rfl
      exact agreesLast.assignVariable name result
  | @assignValue _ _ name ty _ _ _ targetEq resolves _ lowers =>
      simp only [targetEq, resolves] at heeded ⊢
      refine Computes.achieves ?_ (forall_isStraight_append lowers.isStraight trivial) placed
      rw [← bind_pure (eval _ _ _ _ _)]
      refine (lowers.computes agrees heeded).bind ?_
      rintro result last ⟨kept, holds⟩
      have agreesLast := agrees.afterwards kept
      refine (computes_move holds).mono ?_
      rintro _ _ rfl
      exact agreesLast.assignVariable name _
  | @assignField _ _ name ty _ _ _ targetEq resolves lowers =>
      simp only [targetEq, resolves] at heeded ⊢
      refine Computes.achieves ?_ (forall_isStraight_append lowers.isStraight trivial) placed
      rw [← lowers.ty_eq]
      refine (lowers.computes agrees heeded).bind ?_
      rintro result last ⟨kept, holds⟩
      have agreesLast := agrees.afterwards kept
      refine (computes_putField holds).mono ?_
      rintro _ _ rfl
      exact agreesLast
  | @assignElement _ _ array position _ first second _ lowered base offset targetEq lowers
      lowersArray lowersPosition =>
      simp only [targetEq] at heeded ⊢
      obtain ⟨heededStored, heededParts⟩ := List.forall_mem_append.mp heeded
      obtain ⟨heededValue, heededPlace⟩ := List.forall_mem_append.mp heededParts
      obtain ⟨heededArray, heededPosition⟩ := List.forall_mem_append.mp heededPlace
      have known := lowersArray.exists_resolve
      rw [lowers.extends.context_eq] at known
      have valueAlike := Context.alike_element (fun _ => rfl) known heededStored
      have arrayAlike := (state.context table).alike_array (fun _ => rfl) array
      rw [eval_congr valueAlike, eval_congr arrayAlike, Context.elementOf, arrayAlike.typeOf_eq]
      refine Computes.achieves ?_ (forall_isStraight_append
        (List.forall_mem_append.mpr ⟨List.forall_mem_append.mpr
          ⟨lowers.isStraight, lowersArray.isStraight⟩, lowersPosition.isStraight⟩) trivial) placed
      rw [List.append_assoc, List.append_assoc]
      refine (lowers.computes agrees heededValue).bind ?_
      rintro result between ⟨kept, holds⟩
      have agreesValue := agrees.kept kept lowers.extends
      rw [← lowers.extends.context_eq] at lowersArray heededArray heededPosition ⊢
      rw [← lowersArray.ty_eq]
      refine (lowersArray.computes agreesValue heededArray).bind ?_
      rintro baseValue middle ⟨keptArray, holdsArray⟩
      have agreesArray := agreesValue.kept keptArray lowersArray.extends
      rw [← lowersArray.extends.context_eq] at heededPosition ⊢
      refine (lowersPosition.computes agreesArray heededPosition).bind ?_
      rintro offsetValue last ⟨keptPosition, holdsPosition⟩
      have agreesLast := agreesArray.kept keptPosition lowersPosition.extends
      rw [lowersPosition.extends.takenNames_eq, lowersArray.extends.takenNames_eq,
        lowers.extends.takenNames_eq] at agreesLast
      have holdsValue := (holds.kept lowers.settled keptArray).kept
        (lowers.settled.mono lowersArray.extends) keptPosition
      refine (computes_writeElement (holdsArray.kept lowersArray.settled keptPosition)
        holdsPosition holdsValue).mono ?_
      rintro _ _ rfl
      exact agreesLast

/-! ## Expressions as statements, and returns -/

theorem evalDropped_of_lowersCall {context : Context} {expr : Expr} {state after : LoweringState}
    {code : Code} {site : Call}
    (lowersCall : LowersCall table expr.unparen Ty.void state code site after) :
    evalDropped context world source expr = (do
      let event ← evalCall context world source expr.unparen Ty.void
      let _ ← invoke world event) := by
  unfold evalDropped
  generalize expr.unparen = inner at lowersCall ⊢
  cases lowersCall <;> rfl

theorem evalDropped_of_value {context : Context} {expr : Expr}
    (noSelfCall : ∀ name args, expr.unparen ≠ .selfCall name args)
    (noCall : ∀ receiver name args, expr.unparen ≠ .call receiver name args) :
    evalDropped context world source expr = (do
      let _ ← eval context world source expr Ty.void) := by
  unfold evalDropped
  cases inner : expr.unparen with
  | selfCall name args => exact absurd inner (noSelfCall name args)
  | call receiver name args => exact absurd inner (noCall receiver name args)
  | _ => rfl

/-- The code of an expression statement does what the statement does. -/
theorem achieves_expr {expr : Expr} {state after : LoweringState} {code : Code}
    (lowers : LowersStmt table (.expr expr) state code after)
    (heeded : Heeded ((state.context table).overlooked expr))
    (agrees : Agrees (state.scope.takenNames table) source env)
    (placed : PlacedAt code place method.body) :
    Achieves method world (state.scope.takenNames table) ⟨place, ⟨env, memory⟩⟩
      (place + code.length) (execExpr (state.context table) world expr source memory) := by
  unfold execExpr
  cases lowers with
  | exprCall lowersCall =>
      rw [evalDropped_of_lowersCall lowersCall]
      rw [← Context.overlooked_unparen] at heeded
      refine Computes.achieves ?_ (forall_isStraight_append lowersCall.isStraight trivial) placed
      refine (lowersCall.computes agrees heeded).bind ?_
      rintro event last ⟨kept, performs⟩
      have agreesLast := agrees.afterwards kept
      refine (computes_droppedCall performs).followed ?_
      rintro _ _ rfl
      exact .pure agreesLast
  | exprValue noSelfCall noCall lowers =>
      rw [evalDropped_of_value noSelfCall noCall]
      refine Computes.achieves ?_ lowers.isStraight placed
      refine (lowers.computes agrees heeded).followed ?_
      rintro _ last ⟨kept, _⟩
      have agreesLast := agrees.afterwards kept
      exact .pure agreesLast

/-- The code of a return does what the return does. -/
theorem achieves_return {value : Option Expr} {state after : LoweringState} {code : Code}
    (lowers : LowersStmt table (.ret value) state code after)
    (heeded : Heeded ((state.context table).stmtOverlooked (.ret value)))
    (agrees : Agrees (state.scope.takenNames table) source env)
    (placed : PlacedAt code place method.body)
    (mainEq : method.isMain = state.scope.signature.isMain) :
    Achieves method world (state.scope.takenNames table) ⟨place, ⟨env, memory⟩⟩
      (place + code.length) (execReturn (state.context table) world value source memory) := by
  unfold execReturn
  cases lowers with
  | returnNothing nothing =>
      have stops : Stops (method.step world false) ⟨place, ⟨env, memory⟩⟩
          ⟨.returned none, ⟨env, memory⟩⟩ := by
        exact .of_stop (step_ret placed.head _)
      rcases nothing with rfl | isMain
      · exact ⟨env, stops⟩
      · cases value with
        | none => exact ⟨env, stops⟩
        | some value =>
            simp only [signature_context, isMain, if_true]
            exact ⟨env, stops⟩
  | @returnValue value _ _ lowered notMain lowers =>
      have isMethod : ¬ (state.context table).signature.isMain = true := by simpa using notMain
      rw [Context.stmtOverlooked, if_neg isMethod] at heeded
      dsimp only
      rw [if_neg isMethod]
      have computes : Computes world env lowered.code (eval (state.context table) world source value
          (state.context table).signature.returnTy) _ :=
        lowers.computes agrees heeded
      cases result : eval (state.context table) world source value
          (state.context table).signature.returnTy memory with
      | error reason middle => exact computes.stops lowers.isStraight placed.left result
      | ok returned middle =>
          rcases computes.steps lowers.isStraight placed.left result with ⟨last, steps, _, holds⟩
          have finishEq : method.finish world false ⟨last, middle⟩ (some lowered.value) =
              .returned (if lowered.value.ty.isVoid then none else some returned) := by
            simp only [Method.finish, mainEq, notMain, Bool.false_eq_true, if_false, holds middle,
              accept_unchecked]
            split <;> rfl
          refine ⟨last, .of_steps steps (.of_stop ?_)⟩
          rw [lowers.ty_eq] at finishEq
          rw [step_ret placed.right.head, finishEq]
          rfl

/-! ## Conditions -/

/-- The code of a condition computes the value on which a branch depends. -/
theorem LowersExpr.computes_condition {cond : Expr} {state after : LoweringState}
    {lowered : Lowered} (lowers : LowersExpr table cond Ty.boolean state lowered after)
    (heeded : Heeded ((state.context table).overlooked cond))
    (agrees : Agrees (state.scope.takenNames table) source env) :
    Computes world env lowered.code (eval (state.context table) world source cond Ty.boolean)
      (fun value last => Agrees (state.scope.takenNames table) source last ∧
        Holds world last lowered.value value) := by
  refine (lowers.computes agrees heeded).mono ?_
  rintro value last ⟨kept, holds⟩
  have agreesLast := agrees.afterwards kept
  exact ⟨agreesLast, holds⟩

theorem Val.not_eq (value : Val Scalar) : value.not = value.test.map fun holds => .bool !holds := by
  rcases value with (_ | _) | _ <;> rfl

/-- The code of a condition and of its negation computes the negated value. -/
theorem LowersExpr.computes_negation {cond : Expr} {state after : LoweringState}
    {lowered : Lowered} (lowers : LowersExpr table cond Ty.boolean state lowered after)
    (heeded : Heeded ((state.context table).overlooked cond))
    (agrees : Agrees (state.scope.takenNames table) source env) :
    Computes world env (lowered.code ++ [.not (after.nextTemp table Ty.boolean) lowered.value])
      (evalCondition (state.context table) world source cond)
      (fun holds last => Agrees (state.scope.takenNames table) source last ∧
        Holds world last (after.nextTemp table Ty.boolean) (.bool !holds)) := by
  refine (lowers.computes_condition heeded agrees).bind ?_
  rintro value middle ⟨agreesMiddle, holds⟩
  have negates : Computes world middle [.not (after.nextTemp table Ty.boolean) lowered.value]
      (attempt value.test) (fun tested last =>
        last = assignVariable middle (tempName (after.tempNumber table)) (.bool !tested)) := by
    refine .single fun memory => ?_
    rw [Instr.effect, bind_of_ok (holds.fetch_apply memory), Val.not_eq]
    cases value.test with
    | error reason => rfl
    | ok tested => exact write_nextTemp_apply after Ty.boolean _ _
  refine negates.mono ?_
  rintro tested _ rfl
  refine ⟨fun name taken => ?_, holds_nextTemp after Ty.boolean _⟩
  rw [kept_assignVariable after Ty.boolean middle (.bool !tested) name fun new => new.1 ?_]
  · exact agreesMiddle name taken
  · rwa [lowers.extends.takenNames_eq]

theorem step_branch {cond : Value} {name : String} {target : Nat} {holds : Bool}
    (atPlace : method.body[place]? = some (.branch cond name))
    (labelEq : Code.labelPlace? method.body name = some target)
    (holdsCond : Holds world env cond (.bool holds)) :
    method.step world false ⟨place, ⟨env, memory⟩⟩ =
      .next ⟨if holds then target else place + 1, ⟨env, memory⟩⟩ := by
  have tested : (cond.read world false ⟨env, memory⟩ >>= Val.test) = .ok holds := by
    rw [holdsCond memory]
    rfl
  simp only [Method.step, atPlace, tested, jump, labelEq]
  cases holds <;> rfl

end ClassCompiler.ThreeAddress
