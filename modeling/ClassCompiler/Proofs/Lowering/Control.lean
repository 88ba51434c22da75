import ClassCompiler.Proofs.Lowering.Statements

/-!
# Meaning of lowered control flow

A conditional jumps to its positive branch and falls into the negative one, and a
loop is left when the negation of its condition holds. Wherever such code stands
in a body whose labels differ, it runs as the source statement does. Conversely,
if the body ends at all then so does the statement: an infinite loop of the source
would be an infinite run of the code, and the length of the run that ends bounds
the number of turns.
-/

namespace ClassCompiler.ThreeAddress

open Semantics Effects LoweringState
open Context (Heeded)

variable {table : SymbolTable} {context : Context} {world : World Scalar}
  {source env : String → Val Scalar} {memory after : Memory Scalar} {method : Method} {place : Nat}

/-- A label is found where it stands if no label is defined twice. -/
theorem labelPlace?_of_nodup (unique : (definedLabels method.body).Nodup) {name : String}
    (atPlace : method.body[place]? = some (.label name)) :
    Code.labelPlace? method.body name = some place :=
  labelPlace?_eq_some (List.nodup_iff_count_le_one.mp unique name) atPlace

/-- A completion is achieved further on if the steps in between do nothing. -/
theorem Achieves.and_steps {taken : List String} {start : Config Scalar} {behind other n : Nat}
    {completion : Completion} (achieves : Achieves method world taken start behind completion)
    (steps : ∀ state, Steps (method.step world false) n ⟨behind, state⟩ ⟨other, state⟩) :
    Achieves method world taken start other completion := by
  cases completion with
  | normal source memory =>
      rcases achieves with ⟨m, last, rest, agrees⟩
      exact ⟨m + n, last, rest.trans (steps _), agrees⟩
  | returned value memory => exact achieves
  | aborted reason memory => exact achieves

/-! ## Conditions -/

theorem evalCondition_eq_ok {cond : Expr} {holds : Bool}
    (result : evalCondition context world source cond memory = .ok holds after) :
    eval context world source cond Ty.boolean memory = .ok (.bool holds) after := by
  rcases bind_eq_ok_iff.mp result with ⟨value, middle, evalEq, tested⟩
  rw [evalEq]
  rcases value with (_ | _) | _
  · cases tested
  · cases tested
    rfl
  · cases tested

/-- A condition that holds jumps, and one that does not goes on. -/
theorem LowersExpr.steps_branch {cond : Expr} {state last : LoweringState} {lowered : Lowered}
    {name : String} {target : Nat} {holds : Bool}
    (lowers : LowersExpr table cond Ty.boolean state lowered last)
    (heeded : Heeded ((state.context table).overlooked cond))
    (agrees : Agrees (state.scope.takenNames table) source env)
    (placed : PlacedAt (lowered.code ++ [.branch lowered.value name]) place method.body)
    (labelEq : Code.labelPlace? method.body name = some target)
    (result : evalCondition (state.context table) world source cond memory = .ok holds after) :
    ∃ now, Steps (method.step world false) (lowered.code.length + 1) ⟨place, ⟨env, memory⟩⟩
        ⟨if holds then target else place + lowered.code.length + 1, ⟨now, after⟩⟩ ∧
      Agrees (state.scope.takenNames table) source now := by
  rcases (lowers.computes_condition heeded agrees).steps lowers.isStraight placed.left
    (evalCondition_eq_ok result) with ⟨now, steps, agreesNow, holdsCond⟩
  exact ⟨now, steps.trans (.single (step_branch placed.right.head labelEq holdsCond)), agreesNow⟩

/-- A condition that aborts ends the method. -/
theorem LowersExpr.stops_branch {cond : Expr} {state last : LoweringState} {lowered : Lowered}
    {name : String} {reason : Abort}
    (lowers : LowersExpr table cond Ty.boolean state lowered last)
    (heeded : Heeded ((state.context table).overlooked cond))
    (agrees : Agrees (state.scope.takenNames table) source env)
    (placed : PlacedAt (lowered.code ++ [.branch lowered.value name]) place method.body)
    (result : evalCondition (state.context table) world source cond memory = .error reason after) :
    ∃ now, Stops (method.step world false) ⟨place, ⟨env, memory⟩⟩
      ⟨.aborted reason, ⟨now, after⟩⟩ := by
  have computes : Computes world env lowered.code
      (eval (state.context table) world source cond Ty.boolean) _ :=
    lowers.computes_condition heeded agrees
  cases evaluated : eval (state.context table) world source cond Ty.boolean memory with
  | error found middle =>
      rw [evalCondition, bind_of_error evaluated] at result
      cases result
      exact computes.stops lowers.isStraight placed.left evaluated
  | ok value middle =>
      rw [evalCondition, bind_of_ok evaluated] at result
      rcases computes.steps lowers.isStraight placed.left evaluated with ⟨now, steps, _, holds⟩
      cases tested : value.test with
      | ok found =>
          rw [tested] at result
          cases result
      | error found =>
          have readEq : (lowered.value.read world false ⟨now, middle⟩ >>= Val.test) =
              .error found := by
            rw [holds middle]
            exact tested
          rw [tested] at result
          cases result
          refine ⟨now, .of_steps steps (.of_stop ?_)⟩
          simp only [Method.step, placed.right.head, readEq]

/-! ## Conditionals -/

/-- The code of a conditional. -/
def ifCode (cond : Lowered) (thenLabel endLabel : String) (elseCode thenCode : Code) : Code :=
  cond.code ++ [.branch cond.value thenLabel] ++ elseCode ++
    [.goto endLabel, .label thenLabel] ++ thenCode ++ [.label endLabel]

section Conditional

variable {cond : Lowered} {thenLabel endLabel : String} {elseCode thenCode : Code}

/-- The place of the positive branch. -/
def thenPlace (place : Nat) (cond : Lowered) (elseCode : Code) : Nat :=
  place + cond.code.length + elseCode.length + 3

/-- The place of the negative branch. -/
def elsePlace (place : Nat) (cond : Lowered) : Nat := place + cond.code.length + 1

/-- The parts of a conditional stand at their places. -/
structure IfPlaced (method : Method) (place : Nat) (cond : Lowered) (thenLabel endLabel : String)
    (elseCode thenCode : Code) : Prop where
  branch : PlacedAt (cond.code ++ [.branch cond.value thenLabel]) place method.body
  elsePart : PlacedAt elseCode (elsePlace place cond) method.body
  leave : method.body[elsePlace place cond + elseCode.length]? = some (.goto endLabel)
  enter : method.body[elsePlace place cond + elseCode.length + 1]? = some (.label thenLabel)
  thenPart : PlacedAt thenCode (thenPlace place cond elseCode) method.body
  close : method.body[thenPlace place cond elseCode + thenCode.length]? = some (.label endLabel)

theorem ifPlaced (placed : PlacedAt (ifCode cond thenLabel endLabel elseCode thenCode) place
    method.body) : IfPlaced method place cond thenLabel endLabel elseCode thenCode where
  branch := placed.left.left.left.left
  elsePart := placed.left.left.left.right.cast (by simp [elsePlace]; omega)
  leave := (placed.left.left.right.cast (by simp [elsePlace]; omega)).head
  enter := (placed.left.left.right.tail.cast (by simp [elsePlace]; omega)).head
  thenPart := placed.left.right.cast (by simp [thenPlace]; omega)
  close := (placed.right.cast (by simp [thenPlace]; omega)).head

variable {expr : Expr} {state last : LoweringState}

theorem IfPlaced.steps_then (unique : (definedLabels method.body).Nodup)
    (placed : IfPlaced method place cond thenLabel endLabel elseCode thenCode)
    (lowers : LowersExpr table expr Ty.boolean state cond last)
    (heeded : Heeded ((state.context table).overlooked expr))
    (agrees : Agrees (state.scope.takenNames table) source env)
    (result : evalCondition (state.context table) world source expr memory = .ok true after) :
    ∃ now, Steps (method.step world false) (cond.code.length + 1 + 1) ⟨place, ⟨env, memory⟩⟩
        ⟨thenPlace place cond elseCode, ⟨now, after⟩⟩ ∧
      Agrees (state.scope.takenNames table) source now := by
  rcases lowers.steps_branch heeded agrees placed.branch
    (labelPlace?_of_nodup unique placed.enter) result
    with ⟨now, steps, agreesNow⟩
  have placeEq :
      thenPlace place cond elseCode = elsePlace place cond + elseCode.length + 1 + 1 := by
    simp only [thenPlace, elsePlace]
    omega
  rw [placeEq]
  exact ⟨now, steps.trans (.single (step_label placed.enter _)), agreesNow⟩

theorem IfPlaced.steps_else (unique : (definedLabels method.body).Nodup)
    (placed : IfPlaced method place cond thenLabel endLabel elseCode thenCode)
    (lowers : LowersExpr table expr Ty.boolean state cond last)
    (heeded : Heeded ((state.context table).overlooked expr))
    (agrees : Agrees (state.scope.takenNames table) source env)
    (result : evalCondition (state.context table) world source expr memory = .ok false after) :
    ∃ now, Steps (method.step world false) (cond.code.length + 1) ⟨place, ⟨env, memory⟩⟩
        ⟨elsePlace place cond, ⟨now, after⟩⟩ ∧
      Agrees (state.scope.takenNames table) source now :=
  lowers.steps_branch heeded agrees placed.branch (labelPlace?_of_nodup unique placed.enter) result

theorem length_ifCode (place : Nat) :
    place + (ifCode cond thenLabel endLabel elseCode thenCode).length =
      thenPlace place cond elseCode + thenCode.length + 1 := by
  simp only [ifCode, thenPlace, List.length_append, List.length_cons, List.length_nil]
  omega

/-- Behind the positive branch stands the end of the conditional. -/
theorem IfPlaced.leave_then
    (placed : IfPlaced method place cond thenLabel endLabel elseCode thenCode)
    (now : State Scalar) :
    Steps (method.step world false) 1 ⟨thenPlace place cond elseCode + thenCode.length, now⟩
      ⟨place + (ifCode cond thenLabel endLabel elseCode thenCode).length, now⟩ := by
  rw [length_ifCode]
  exact .single (step_label placed.close now)

/-- Behind the negative branch a jump leads to the end of the conditional. -/
theorem IfPlaced.leave_else (unique : (definedLabels method.body).Nodup)
    (placed : IfPlaced method place cond thenLabel endLabel elseCode thenCode)
    (now : State Scalar) :
    Steps (method.step world false) 2 ⟨elsePlace place cond + elseCode.length, now⟩
      ⟨place + (ifCode cond thenLabel endLabel elseCode thenCode).length, now⟩ :=
  .head (step_goto placed.leave (labelPlace?_of_nodup unique placed.close) now)
    (placed.leave_then now)

end Conditional

/-! ## Loops -/

/-- The code of a loop. -/
def whileCode (cond : Lowered) (negated : Value) (condLabel endLabel : String) (bodyCode : Code) :
    Code :=
  [.label condLabel] ++ cond.code ++ [.not negated cond.value] ++ [.branch negated endLabel] ++
    bodyCode ++ [.goto condLabel, .label endLabel]

section Loop

variable {cond : Lowered} {negated : Value} {condLabel endLabel : String} {bodyCode : Code}

/-- The place of the body of a loop. -/
def bodyPlace (place : Nat) (cond : Lowered) : Nat := place + cond.code.length + 3

/-- The parts of a loop stand at their places. -/
structure WhilePlaced (method : Method) (place : Nat) (cond : Lowered) (negated : Value)
    (condLabel endLabel : String) (bodyCode : Code) : Prop where
  enter : method.body[place]? = some (.label condLabel)
  test : PlacedAt (cond.code ++ [.not negated cond.value]) (place + 1) method.body
  branch : method.body[place + cond.code.length + 2]? = some (.branch negated endLabel)
  bodyPart : PlacedAt bodyCode (bodyPlace place cond) method.body
  again : method.body[bodyPlace place cond + bodyCode.length]? = some (.goto condLabel)
  close : method.body[bodyPlace place cond + bodyCode.length + 1]? = some (.label endLabel)

theorem whilePlaced
    (placed : PlacedAt (whileCode cond negated condLabel endLabel bodyCode) place method.body) :
    WhilePlaced method place cond negated condLabel endLabel bodyCode where
  enter := placed.left.left.left.left.left.head
  test := by
    have beginning := placed.left.left.left
    rw [List.append_assoc] at beginning
    exact beginning.right
  branch := (placed.left.left.right.cast (by simp; omega)).head
  bodyPart := placed.left.right.cast (by simp [bodyPlace]; omega)
  again := (placed.right.cast (by simp [bodyPlace]; omega)).head
  close := (placed.right.tail.cast (by simp [bodyPlace]; omega)).head

variable {expr : Expr} {state last : LoweringState}

theorem length_whileCode (place : Nat) :
    place + (whileCode cond negated condLabel endLabel bodyCode).length =
      bodyPlace place cond + bodyCode.length + 1 + 1 := by
  simp only [whileCode, bodyPlace, List.length_append, List.length_cons, List.length_nil]
  omega

/-- One test of the condition leads into the body or behind the loop. -/
theorem WhilePlaced.steps_test (unique : (definedLabels method.body).Nodup)
    (placed : WhilePlaced method place cond (last.nextTemp table Ty.boolean) condLabel endLabel
      bodyCode)
    (lowers : LowersExpr table expr Ty.boolean state cond last)
    (heeded : Heeded ((state.context table).overlooked expr))
    (agrees : Agrees (state.scope.takenNames table) source env) {holds : Bool}
    (result : evalCondition (state.context table) world source expr memory = .ok holds after) :
    ∃ n now, Steps (method.step world false) (n + 1) ⟨place, ⟨env, memory⟩⟩
        ⟨if holds then bodyPlace place cond else place +
          (whileCode cond (last.nextTemp table Ty.boolean) condLabel endLabel bodyCode).length,
          ⟨now, after⟩⟩ ∧
      Agrees (state.scope.takenNames table) source now := by
  rcases (lowers.computes_negation heeded agrees).steps
    (forall_isStraight_append lowers.isStraight trivial) placed.test result with
    ⟨now, steps, agreesNow, holdsNegated⟩
  have placeEq : place + 1 +
      (cond.code ++ [Instr.not (last.nextTemp table Ty.boolean) cond.value]).length =
      place + cond.code.length + 2 := by
    simp only [List.length_append, List.length_cons, List.length_nil]
    omega
  rw [placeEq] at steps
  have branches : method.step world false ⟨place + cond.code.length + 2, ⟨now, after⟩⟩ =
      .next ⟨if !holds then bodyPlace place cond + bodyCode.length + 1 else bodyPlace place cond,
        ⟨now, after⟩⟩ :=
    step_branch placed.branch (labelPlace?_of_nodup unique placed.close) holdsNegated
  have tested := (Steps.head (step_label placed.enter _) steps).trans (.single branches)
  cases holds with
  | true => exact ⟨_, now, tested, agreesNow⟩
  | false =>
      rw [length_whileCode]
      exact ⟨_, now, tested.trans (.single (step_label placed.close _)), agreesNow⟩

theorem WhilePlaced.stops_test
    (placed : WhilePlaced method place cond (last.nextTemp table Ty.boolean) condLabel endLabel
      bodyCode)
    (lowers : LowersExpr table expr Ty.boolean state cond last)
    (heeded : Heeded ((state.context table).overlooked expr))
    (agrees : Agrees (state.scope.takenNames table) source env) {reason : Abort}
    (result : evalCondition (state.context table) world source expr memory = .error reason after) :
    ∃ now, Stops (method.step world false) ⟨place, ⟨env, memory⟩⟩
      ⟨.aborted reason, ⟨now, after⟩⟩ := by
  rcases (lowers.computes_negation heeded agrees).stops
    (forall_isStraight_append lowers.isStraight trivial) placed.test result with ⟨now, stops⟩
  exact ⟨now, .of_steps (.single (step_label placed.enter _)) stops⟩

/-- Behind the body a jump leads back to the condition. -/
theorem WhilePlaced.turn (unique : (definedLabels method.body).Nodup)
    (placed : WhilePlaced method place cond negated condLabel endLabel bodyCode)
    (now : State Scalar) :
    Steps (method.step world false) 1 ⟨bodyPlace place cond + bodyCode.length, now⟩
      ⟨place, now⟩ :=
  .single (step_goto placed.again (labelPlace?_of_nodup unique placed.enter) now)

end Loop

/-! ## The source determines the run -/

/-- The code of a statement achieves the completion of the statement. -/
theorem achieves_of_exec (unique : (definedLabels method.body).Nodup) {stmt : Stmt}
    {completion : Completion} (exec : Exec context world stmt source memory completion) :
    ∀ {state last : LoweringState} {code : Code} {env : String → Val Scalar} {place : Nat},
      state.context table = context → method.isMain = context.signature.isMain →
      LowersStmt table stmt state code last → Heeded (context.stmtOverlooked stmt) →
      Agrees (state.scope.takenNames table) source env → PlacedAt code place method.body →
      Achieves method world (state.scope.takenNames table) ⟨place, ⟨env, memory⟩⟩
        (place + code.length) completion := by
  induction exec with
  | assign target value source memory =>
      rintro state last code env place rfl mainEq lowers heeded agrees placed
      exact achieves_assign lowers heeded agrees placed
  | expr expr source memory =>
      rintro state last code env place rfl mainEq lowers heeded agrees placed
      exact achieves_expr lowers heeded agrees placed
  | ret value source memory =>
      rintro state last code env place rfl mainEq lowers heeded agrees placed
      exact achieves_return lowers heeded agrees placed mainEq
  | ifAborts result =>
      rintro state last code env place rfl mainEq lowers heeded agrees placed
      cases lowers with
      | ifElse lowersCond lowersElse lowersThen =>
          obtain ⟨heededCond, _⟩ := List.forall_mem_append.mp heeded
          exact lowersCond.stops_branch heededCond agrees (ifPlaced placed).branch result
  | ifTrue result execThen ih =>
      rintro state last code env place rfl mainEq lowers heeded agrees placed
      cases lowers with
      | @ifElse _ _ _ _ first second _ lowered elseCode thenCode lowersCond lowersElse lowersThen =>
          have parts := ifPlaced placed
          obtain ⟨heededCond, heededBranches⟩ := List.forall_mem_append.mp heeded
          obtain ⟨heededThen, _⟩ := List.forall_mem_append.mp heededBranches
          rcases parts.steps_then unique lowersCond heededCond agrees result with
            ⟨now, steps, agreesNow⟩
          have grows := (lowersCond.extends.trans (extends_withLabels _ .ifThen .ifEnd)).trans
            lowersElse.extends
          rw [← grows.takenNames_eq] at agreesNow ⊢
          have achieves := ih grows.context_eq mainEq lowersThen heededThen agreesNow
            parts.thenPart
          exact (achieves.of_steps steps).and_steps fun _ => parts.leave_then _
  | ifFalse result execElse ih =>
      rintro state last code env place rfl mainEq lowers heeded agrees placed
      cases lowers with
      | @ifElse _ _ _ _ first second _ lowered elseCode thenCode lowersCond lowersElse lowersThen =>
          have parts := ifPlaced placed
          obtain ⟨heededCond, heededBranches⟩ := List.forall_mem_append.mp heeded
          obtain ⟨_, heededElse⟩ := List.forall_mem_append.mp heededBranches
          rcases parts.steps_else unique lowersCond heededCond agrees result with
            ⟨now, steps, agreesNow⟩
          have grows := lowersCond.extends.trans (extends_withLabels _ .ifThen .ifEnd)
          rw [← grows.takenNames_eq] at agreesNow ⊢
          have achieves := ih grows.context_eq mainEq lowersElse heededElse agreesNow
            parts.elsePart
          exact (achieves.of_steps steps).and_steps fun _ => parts.leave_else unique _
  | whileAborts result =>
      rintro state last code env place rfl mainEq lowers heeded agrees placed
      cases lowers with
      | whileLoop lowersCond lowersBody =>
          obtain ⟨heededCond, _⟩ := List.forall_mem_append.mp heeded
          exact (whilePlaced placed).stops_test lowersCond heededCond agrees result
  | whileEnds result =>
      rintro state last code env place rfl mainEq lowers heeded agrees placed
      cases lowers with
      | whileLoop lowersCond lowersBody =>
          obtain ⟨heededCond, _⟩ := List.forall_mem_append.mp heeded
          rcases (whilePlaced placed).steps_test unique lowersCond heededCond agrees result with
            ⟨n, now, steps, agreesNow⟩
          exact ⟨n + 1, now, steps, agreesNow⟩
  | whileLeaves result execBody leaves ih =>
      rintro state last code env place rfl mainEq lowers heeded agrees placed
      cases lowers with
      | whileLoop lowersCond lowersBody =>
          have parts := whilePlaced placed
          obtain ⟨heededCond, heededBody⟩ := List.forall_mem_append.mp heeded
          rcases parts.steps_test unique lowersCond heededCond agrees result with
            ⟨n, now, steps, agreesNow⟩
          have grows := ((extends_withLabels state .whileCond .whileEnd).trans
            lowersCond.extends).trans (extends_withTemp table _ Ty.boolean)
          rw [(extends_withLabels _ _ _).takenNames_eq, ← grows.takenNames_eq] at agreesNow
          rw [← grows.takenNames_eq]
          have achieves := ih grows.context_eq mainEq lowersBody heededBody agreesNow
            parts.bodyPart
          exact (achieves.of_steps steps).of_not_normal leaves
  | whileTurns result execBody execRest bodyHypothesis restHypothesis =>
      rintro state last code env place rfl mainEq lowers heeded agrees placed
      cases lowers with
      | whileLoop lowersCond lowersBody =>
          have parts := whilePlaced placed
          obtain ⟨heededCond, heededBody⟩ := List.forall_mem_append.mp heeded
          rcases parts.steps_test unique lowersCond heededCond agrees result with
            ⟨n, now, steps, agreesNow⟩
          have grows := ((extends_withLabels state .whileCond .whileEnd).trans
            lowersCond.extends).trans (extends_withTemp table _ Ty.boolean)
          rw [(extends_withLabels _ _ _).takenNames_eq, ← grows.takenNames_eq] at agreesNow
          rcases bodyHypothesis grows.context_eq mainEq lowersBody heededBody agreesNow
            parts.bodyPart with ⟨m, next, bodySteps, agreesNext⟩
          rw [grows.takenNames_eq] at agreesNext
          have achieves := restHypothesis rfl mainEq (.whileLoop lowersCond lowersBody) heeded
            agreesNext placed
          exact achieves.of_steps ((steps.trans bodySteps).trans (parts.turn unique _))
  | blockEnds source memory =>
      rintro state last code env place rfl mainEq lowers heeded agrees placed
      cases lowers
      exact ⟨0, env, .refl _, agrees⟩
  | blockLeaves execFirst leaves ih =>
      rintro state last code env place rfl mainEq lowers heeded agrees placed
      cases lowers with
      | blockCons lowersFirst lowersRest =>
          obtain ⟨heededFirst, _⟩ := List.forall_mem_append.mp heeded
          exact (ih rfl mainEq lowersFirst heededFirst agrees placed.left).of_not_normal leaves
  | blockTurns execFirst execRest firstHypothesis restHypothesis =>
      rintro state last code env place rfl mainEq lowers heeded agrees placed
      cases lowers with
      | blockCons lowersFirst lowersRest =>
          obtain ⟨heededFirst, heededRest⟩ := List.forall_mem_append.mp heeded
          rcases firstHypothesis rfl mainEq lowersFirst heededFirst agrees placed.left with
            ⟨n, now, steps, agreesNow⟩
          rw [← lowersFirst.extends.takenNames_eq] at agreesNow ⊢
          have achieves := restHypothesis lowersFirst.extends.context_eq mainEq lowersRest
            heededRest
            agreesNow placed.right
          rw [Nat.add_assoc, ← List.length_append] at achieves
          exact achieves.of_steps steps

/-! ## The run determines the source -/

/-- A run that ends has a statement of the source behind it that completes. -/
theorem exec_of_stopsIn (unique : (definedLabels method.body).Nodup)
    (mainEq : method.isMain = context.signature.isMain) (n : Nat) :
    ∀ {stmt : Stmt} {state last : LoweringState} {code : Code} {source env : String → Val Scalar}
      {memory : Memory Scalar} {place : Nat} {ending : Ending Scalar},
      LowersStmt table stmt state code last → state.context table = context →
      Heeded (context.stmtOverlooked stmt) → Agrees (state.scope.takenNames table) source env →
      PlacedAt code place method.body →
      StopsIn (method.step world false) n ⟨place, ⟨env, memory⟩⟩ ending →
      ∃ completion, Exec context world stmt source memory completion := by
  induction n using Nat.strongRecOn with
  | ind n shorter =>
      intro stmt state last code source env memory place ending lowers contextEq heeded
        agrees placed
        stops
      -- Blocks start their first statement without a step, so the lowering is followed inside.
      have bounded : ∃ m ≤ n, StopsIn (method.step world false) m ⟨place, ⟨env, memory⟩⟩ ending :=
        ⟨n, Nat.le_refl n, stops⟩
      clear stops
      rcases bounded with ⟨m, bound, stops⟩
      induction lowers generalizing source env memory place m with
      | assignOperator | assignCall | assignValue | assignField | assignElement =>
          exact ⟨_, .assign _ _ _ _⟩
      | exprCall | exprValue => exact ⟨_, .expr _ _ _⟩
      | returnNothing | returnValue => exact ⟨_, .ret _ _ _⟩
      | @ifElse cond thenBranch elseBranch state first second last lowered elseCode thenCode lowersCond
          lowersElse lowersThen =>
          subst contextEq
          have parts := ifPlaced placed
          have growsCond := lowersCond.extends.trans (extends_withLabels _ .ifThen .ifEnd)
          have growsElse := growsCond.trans lowersElse.extends
          obtain ⟨heededCond, heededBranches⟩ := List.forall_mem_append.mp heeded
          obtain ⟨heededThen, heededElse⟩ := List.forall_mem_append.mp heededBranches
          cases result : evalCondition (state.context table) world source cond memory with
          | error reason after => exact ⟨_, .ifAborts result⟩
          | ok holds after =>
              cases holds with
              | true =>
                  rcases parts.steps_then unique lowersCond heededCond agrees result with
                    ⟨now, steps, agreesNow⟩
                  rcases stops.after_steps steps with ⟨k, lengthEq, stopsThen⟩
                  rw [← growsElse.takenNames_eq] at agreesNow
                  rcases shorter k (by omega) lowersThen growsElse.context_eq heededThen agreesNow
                    parts.thenPart stopsThen with ⟨completion, exec⟩
                  exact ⟨completion, .ifTrue result exec⟩
              | false =>
                  rcases parts.steps_else unique lowersCond heededCond agrees result with
                    ⟨now, steps, agreesNow⟩
                  rcases stops.after_steps steps with ⟨k, lengthEq, stopsElse⟩
                  rw [← growsCond.takenNames_eq] at agreesNow
                  rcases shorter k (by omega) lowersElse growsCond.context_eq heededElse agreesNow
                    parts.elsePart stopsElse with ⟨completion, exec⟩
                  exact ⟨completion, .ifFalse result exec⟩
      | @whileLoop cond body state first last lowered bodyCode lowersCond lowersBody =>
          subst contextEq
          have parts := whilePlaced placed
          have grows := ((extends_withLabels state .whileCond .whileEnd).trans
            lowersCond.extends).trans (extends_withTemp table first Ty.boolean)
          obtain ⟨heededCond, heededBody⟩ := List.forall_mem_append.mp heeded
          cases result : evalCondition (state.context table) world source cond memory with
          | error reason after => exact ⟨_, .whileAborts result⟩
          | ok holds after =>
              rcases parts.steps_test unique lowersCond heededCond agrees result with
                ⟨j, now, steps, agreesNow⟩
              rw [(extends_withLabels _ _ _).takenNames_eq, ← grows.takenNames_eq] at agreesNow
              cases holds with
              | false => exact ⟨_, .whileEnds result⟩
              | true =>
                  rcases stops.after_steps steps with ⟨k, lengthEq, stopsBody⟩
                  rcases shorter k (by omega) lowersBody grows.context_eq heededBody agreesNow
                    parts.bodyPart stopsBody with ⟨completion, exec⟩
                  cases completion with
                  | returned value memory | aborted reason memory =>
                      exact ⟨_, .whileLeaves result exec rfl⟩
                  | normal next afterBody =>
                      rcases achieves_of_exec unique exec grows.context_eq mainEq lowersBody
                        heededBody agreesNow parts.bodyPart with ⟨i, later, bodySteps, agreesLater⟩
                      have turns := (steps.trans bodySteps).trans (parts.turn unique _)
                      rcases stops.after_steps turns with ⟨l, turnsEq, stopsAgain⟩
                      rw [grows.takenNames_eq] at agreesLater
                      rcases shorter l (by omega) (.whileLoop lowersCond lowersBody) rfl heeded
                        agreesLater placed stopsAgain with ⟨completion, execRest⟩
                      exact ⟨completion, .whileTurns result exec execRest⟩
      | blockNil => exact ⟨_, .blockEnds _ _⟩
      | @blockCons stmt rest state middle last code restCode lowersFirst lowersRest firstHypothesis
          restHypothesis =>
          obtain ⟨heededFirst, heededRest⟩ := List.forall_mem_append.mp heeded
          rcases firstHypothesis contextEq heededFirst agrees placed.left m bound stops with
            ⟨completion, exec⟩
          cases completion with
          | returned value memory | aborted reason memory => exact ⟨_, .blockLeaves exec rfl⟩
          | normal next after =>
              rcases achieves_of_exec unique exec contextEq mainEq lowersFirst heededFirst agrees
                placed.left with
                ⟨i, now, steps, agreesNow⟩
              rcases stops.after_steps steps with ⟨k, lengthEq, stopsRest⟩
              rw [← lowersFirst.extends.takenNames_eq] at agreesNow
              rcases restHypothesis (lowersFirst.extends.context_eq.trans contextEq) heededRest
                agreesNow placed.right k (by omega) stopsRest with ⟨completion, execRest⟩
              exact ⟨completion, .blockTurns exec execRest⟩

end ClassCompiler.ThreeAddress
