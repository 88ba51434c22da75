import ClassCompiler.Proofs.Lowering.Temporaries
import ClassCompiler.Proofs.Semantics.Occurrences

/-!
# Faults of occurrences

Every step of lowering that can fail is one of an occurrence: a name that stands for no
value, an array literal that is too long, a `void` call whose value is needed, or a
target that cannot be assigned to. Lowering succeeds in every state of the method if no
occurrence is faulty, and otherwise fails with the error of one that is. Either way it
only takes temporaries and labels in the scope of the method.
-/

namespace ClassCompiler.Semantics

/-- The errors that an occurrence causes in a method of a name. -/
inductive Occurrence.Faults (method : String) : Occurrence → CompileError → Prop where
  | unknown (name : String) :
      Faults method (.reference name none) (.unresolvedSymbol name method)
  | classAsValue (name : String) :
      Faults method (.reference name (some .className)) (.unresolvedSymbol name method)
  | oversized {elem : Ty} {tys : List Ty} (tooLong : 2147483648 ≤ tys.length) :
      Faults method (.array elem tys) (.unsupported .oversizedArrayLiteral)
  | voidAsValue {own : Option MethodSignature} {target : Target} {name : String} {tys : List Ty}
      {result : Ty} (isVoid : result.isVoid = true) :
      Faults method (.call own target name tys result .temporary)
        (.unsupported (.voidCallAsValue name))
  | unknownTarget (name : String) :
      Faults method .invalidTarget (.unresolvedSymbol name method)
  | malformedTarget (fault : NodeFault) :
      Faults method .invalidTarget (.malformed .assignStmt fault)

/-- Occurrences that cause no error in any method. -/
def Occurrence.isSafe : Occurrence → Bool
  | .reference _ none | .reference _ (some .className) | .array _ _ | .call _ _ _ _ _ _
  | .invalidTarget => false
  | _ => true

theorem Occurrence.not_faults_of_isSafe {method : String} {occurrence : Occurrence}
    (safe : occurrence.isSafe = true) (error : CompileError) :
    ¬occurrence.Faults method error := by
  intro faults
  cases faults <;> cases safe

/-- No occurrence of a list is faulty. -/
def Faultless (method : String) (occurrences : List Occurrence) : Prop :=
  AllOf (fun occurrence => ∀ error, ¬occurrence.Faults method error) occurrences

end ClassCompiler.Semantics

namespace ClassCompiler.ThreeAddress

open Lowering Effects
open Semantics (AllOf Context Dest Faultless Occurrence Target collectedArray passedTys)

variable {context : Context} {α β : Type} {occurrences earlier later : List Occurrence}
  {post : α → Prop}

/-! ## Steps that check occurrences -/

/-- A step that only takes temporaries and labels in the scope of a method. It has a result
with a property if no occurrence of a list is faulty, and fails with the error of one of
them otherwise. -/
def Checks (context : Context) (occurrences : List Occurrence) (post : α → Prop)
    (step : Lowering α) : Prop :=
  ∀ state : LoweringState, state.context context.table = context →
    Outcome step state
      (fun value after => Draws context.table state after ∧ post value ∧
        Faultless context.signature.name occurrences)
      (fun error after => Draws context.table state after ∧ ∃ occurrence ∈ occurrences,
        occurrence.Faults context.signature.name error)

theorem Checks.pure {value : α} (holds : post value) : Checks context [] post (Pure.pure value) :=
  fun state _ => ⟨.refl state, holds, List.forall_mem_nil _⟩

/-- A result is there for an occurrence that is not faulty. -/
theorem Checks.sound {occurrence : Occurrence} {value : α}
    (faultless : ∀ error, ¬occurrence.Faults context.signature.name error) (holds : post value) :
    Checks context [occurrence] post (Pure.pure value) :=
  fun state _ => ⟨.refl state, holds, List.forall_mem_singleton.mpr faultless⟩

theorem Checks.safe {occurrence : Occurrence} {value : α} (isSafe : occurrence.isSafe = true)
    (holds : post value) : Checks context [occurrence] post (Pure.pure value) :=
  .sound (Occurrence.not_faults_of_isSafe isSafe) holds

theorem Checks.throw {occurrence : Occurrence} {error : CompileError}
    (member : occurrence ∈ occurrences)
    (faults : occurrence.Faults context.signature.name error) :
    Checks context occurrences post (MonadExcept.throw error) :=
  fun state _ => ⟨.refl state, occurrence, member, faults⟩

theorem Checks.bind {first : Lowering α} {next : α → Lowering β} {last : β → Prop}
    (checks : Checks context earlier post first)
    (follows : ∀ value, post value → Checks context later last (next value)) :
    Checks context (earlier ++ later) last (first >>= next) := by
  intro state contextEq
  apply Outcome.bind
  apply (checks state contextEq).mono
  · rintro value middle ⟨drawsFirst, holds, faultlessFirst⟩
    apply (follows value holds middle (drawsFirst.context_eq.trans contextEq)).mono
    · rintro result after ⟨drawsLater, ends, faultlessLater⟩
      exact ⟨drawsFirst.trans drawsLater, ends,
        List.forall_mem_append.mpr ⟨faultlessFirst, faultlessLater⟩⟩
    · rintro error after ⟨drawsLater, occurrence, member, faults⟩
      exact ⟨drawsFirst.trans drawsLater, occurrence, List.mem_append_right _ member, faults⟩
  · rintro error after ⟨drawsFirst, occurrence, member, faults⟩
    exact ⟨drawsFirst, occurrence, List.mem_append_left _ member, faults⟩

/-- A step that cannot fail may follow. -/
theorem Checks.followed {first : Lowering α} {next : α → Lowering β} {last : β → Prop}
    (checks : Checks context occurrences post first)
    (follows : ∀ value, post value → Checks context [] last (next value)) :
    Checks context occurrences last (first >>= next) := by
  rw [← List.append_nil occurrences]
  exact checks.bind follows

/-- A step that cannot fail may come before, with occurrences that are not faulty. -/
theorem Checks.safely {first : Lowering α} {next : α → Lowering β} {last : β → Prop}
    (checks : Checks context [] post first) (areSafe : earlier.all Occurrence.isSafe = true)
    (follows : ∀ value, post value → Checks context later last (next value)) :
    Checks context (earlier ++ later) last (first >>= next) := by
  have checksSafe : Checks context earlier post first := by
    intro state contextEq
    apply (checks state contextEq).mono
    · rintro value after ⟨draws, holds, _⟩
      refine ⟨draws, holds, ?_⟩
      intro occurrence member
      exact Occurrence.not_faults_of_isSafe (List.all_eq_true.mp areSafe occurrence member)
    · rintro error after ⟨_, occurrence, member, _⟩
      cases member
  exact checksSafe.bind follows

theorem checks_freshTemp (ty : Ty) :
    Checks context [] (fun value => value.ty = ty) (freshTemp context.table ty) :=
  fun state _ => ⟨⟨_, takesTemps_withTemp state ty⟩, rfl, List.forall_mem_nil _⟩

theorem checks_scope :
    Checks context [] (fun scope => scope.signature = context.signature) scope :=
  fun state contextEq =>
    ⟨.refl state, congrArg Context.signature contextEq, List.forall_mem_nil _⟩

theorem checks_ifLabels : Checks context [] (fun _ => True) ifLabels :=
  fun state _ => ⟨⟨_, takesTemps_withLabels state .ifThen .ifEnd⟩, trivial, List.forall_mem_nil _⟩

theorem checks_whileLabels : Checks context [] (fun _ => True) whileLabels :=
  fun state _ =>
    ⟨⟨_, takesTemps_withLabels state .whileCond .whileEnd⟩, trivial, List.forall_mem_nil _⟩

/-- A name is resolved as in its context. -/
theorem outcome_resolve {state : LoweringState} (contextEq : state.context context.table = context)
    (name : String) :
    Outcome (resolve context.table name) state
      (fun binding after => context.resolve? name = some binding ∧ after = state)
      (fun error after => context.resolve? name = none ∧
        error = .unresolvedSymbol name context.signature.name ∧ after = state) := by
  have resolves : state.scope.resolve? context.table name = context.resolve? name :=
    ((state.context context.table).resolve?_eq name).symm.trans
      (congrArg (Context.resolve? · name) contextEq)
  have signatureEq : state.scope.signature = context.signature :=
    congrArg Context.signature contextEq
  unfold Outcome resolve
  simp only [bind_apply, scope_apply, resolves, signatureEq]
  cases context.resolve? name with
  | none => exact ⟨rfl, rfl, rfl⟩
  | some binding => exact ⟨rfl, rfl⟩

theorem checks_resolve {name : String} {next : Binding → Lowering α}
    (unknown : context.resolve? name = none → ∃ occurrence ∈ occurrences,
      occurrence.Faults context.signature.name (.unresolvedSymbol name context.signature.name))
    (known : ∀ binding, context.resolve? name = some binding →
      Checks context occurrences post (next binding)) :
    Checks context occurrences post (resolve context.table name >>= next) := by
  intro state contextEq
  apply Outcome.bind
  apply (outcome_resolve contextEq name).mono
  · rintro binding after ⟨resolves, rfl⟩
    exact known binding resolves _ contextEq
  · rintro error after ⟨resolves, rfl, rfl⟩
    exact ⟨.refl _, unknown resolves⟩

/-! ## Calls -/

/-- The value of a lowered expression has a type. -/
def Lowered.HasTy (ty : Ty) (lowered : Lowered) : Prop := lowered.value.ty = ty

theorem checks_negate (value : Value) :
    Checks context [] (Lowered.HasTy Ty.boolean) (negate context.table value) :=
  (checks_freshTemp _).bind fun _ destTy => .pure destTy

theorem checks_packArray (elem : Ty) (values : List Value) :
    Checks context [.array elem (values.map Value.ty)] (Lowered.HasTy (Ty.arrayOf elem.name))
      (packArray context.table elem values) := by
  unfold packArray
  by_cases bound : values.length < 2147483648
  · rw [if_pos bound]
    apply (checks_freshTemp _).bind
    intro dest destTy
    apply Checks.sound _ destTy
    intro error faults
    cases faults with
    | oversized tooLong =>
        rw [List.length_map] at tooLong
        exact Nat.not_le_of_lt bound tooLong
  · rw [if_neg bound]
    apply Checks.throw (List.mem_singleton_self _)
    apply Occurrence.Faults.oversized
    rw [List.length_map]
    exact Nat.le_of_not_lt bound

theorem checks_packArguments {own : Option MethodSignature} {values : List Value} {tys : List Ty}
    (tysEq : values.map Value.ty = tys) :
    Checks context (collectedArray own tys) (fun _ => True)
      (packArguments context.table own values) := by
  subst tysEq
  unfold packArguments
  cases elemEq : varargElement? own with
  | none =>
      simp only [collectedArray, Semantics.collected?, Semantics.collectedElement?_eq, elemEq]
      exact .pure trivial
  | some elem =>
      simp only [collectedArray, collected?_map_ty elemEq]
      by_cases single : (values.drop ((calleeParams own).length - 1)).length = 1 ∧
          (values.drop ((calleeParams own).length - 1)).all (fun value => value.ty.isArray)
      · simp only [if_pos single]
        exact .pure trivial
      · simp only [if_neg single, ← List.map_drop]
        exact (checks_packArray elem _).followed fun _ _ => .pure trivial

/-- A call checks its receiver, its arguments and the array of those that it collects. -/
theorem checks_prepareCall {receiver : Lowering (Code × Receiver)} (name : String)
    (arguments : (Nat → Ty) → Lowering (Code × List Value)) (expected : Ty)
    {own : Option MethodSignature} {tys : List Ty}
    (checksReceiver : Checks context earlier
      (fun found => ownMethod? context.table found.2 name = own) receiver)
    (checksArgs : Checks context later (fun found => found.2.map Value.ty = tys)
      (arguments (argumentTy own))) :
    Checks context (earlier ++ (later ++ collectedArray own tys))
      (fun found => found.2.returnTy = Context.resultTy own expected)
      (prepareCall context.table receiver name arguments expected) := by
  apply checksReceiver.bind
  rintro ⟨receiverCode, found⟩ rfl
  apply checksArgs.bind
  rintro ⟨argumentCode, values⟩ tysEq
  apply (checks_packArguments tysEq).followed
  rintro ⟨packing, packed⟩ _
  apply Checks.pure
  cases ownMethod? context.table found name <;> rfl

/-- The value of a call is there unless the call is `void`. -/
theorem checks_callValue {own : Option MethodSignature} {target : Target} {name : String}
    {tys : List Ty} {prepared : Lowering (Code × Call)} {ty : Ty}
    (checks : Checks context occurrences (fun found => found.2.returnTy = ty) prepared) :
    Checks context (occurrences ++ [.call own target name tys ty .temporary]) (Lowered.HasTy ty)
      (callValue context.table name prepared) := by
  apply checks.bind
  rintro ⟨code, site⟩ rfl
  simp only
  split
  · next isVoid => exact .throw (List.mem_singleton_self _) (.voidAsValue isVoid)
  · next hasValue =>
      apply (checks_freshTemp _).bind
      intro dest destTy
      apply Checks.sound _ destTy
      intro error faults
      cases faults with
      | voidAsValue isVoid => exact hasValue isVoid

theorem checks_implicitReceiver (name : String) :
    Checks context []
      (fun found => ownMethod? context.table found.2 name = context.table.method? name)
      (implicitReceiver context.table name) := by
  apply checks_scope.bind
  intro scope _
  split
  · exact .pure (if_pos rfl)
  · exact .pure (if_pos rfl)

/-- A receiver that names a class is the class. -/
theorem checks_explicitReceiver_of_class {receiver : Expr} {className name : String}
    {lowered : Lowering Lowered} (names : context.classNamed? receiver = some className) :
    Checks context [] (fun found => ownMethod? context.table found.2 name =
        context.staticCallee? className name)
      (explicitReceiver context.table receiver lowered) := by
  have isClass : receiver.unparen = .var className ∧
      context.resolve? className = some .className := by
    unfold Context.classNamed? at names
    split at names
    · next inner =>
        split at names
        · next resolves =>
            cases names
            exact ⟨inner, resolves⟩
        · cases names
    · cases names
  unfold explicitReceiver
  simp only [isClass.1]
  apply checks_resolve
  · intro unknown
    rw [isClass.2] at unknown
    cases unknown
  · intro binding resolves
    rw [isClass.2] at resolves
    cases resolves
    exact .pure rfl

/-- A receiver that names no class is an object. -/
theorem checks_explicitReceiver_of_object {receiver : Expr} {name : String} {ty : Ty}
    {lowered : Lowering Lowered} (names : context.classNamed? receiver = none)
    (checks : Checks context (context.occurrences receiver context.table.classTy .temporary)
      (Lowered.HasTy ty) lowered) :
    Checks context (context.occurrences receiver context.table.classTy .temporary)
      (fun found => ownMethod? context.table found.2 name = context.instanceCallee? ty name)
      (explicitReceiver context.table receiver lowered) := by
  have object : Checks context (context.occurrences receiver context.table.classTy .temporary)
      (fun found => ownMethod? context.table found.2 name = context.instanceCallee? ty name)
      (objectReceiver lowered) := by
    apply checks.followed
    rintro value rfl
    exact .pure rfl
  unfold explicitReceiver
  cases inner : receiver.unparen with
  | var other =>
      apply checks_resolve
      · intro unknown
        rw [← Context.occurrences_unparen, inner, Context.occurrences, unknown]
        exact ⟨_, List.mem_singleton_self _, .unknown other⟩
      · intro binding resolves
        cases binding with
        | className =>
            simp only [Context.classNamed?, inner, resolves, if_true] at names
            cases names
        | declared ty => exact object
        | field ty => exact object
  | _ => exact object

/-- The occurrences of a call are those that come before it, which are checked while it
is prepared, and the call itself, wherever its result goes. -/
def ChecksCall (context : Context) (expr : Expr) (name : String) (expected : Ty)
    (prepared : Lowering (Code × Call)) : Prop :=
  ∃ before own target passed,
    (∀ dest, context.occurrences expr expected dest =
      before ++ [.call own target name passed (context.typeOf expr expected) dest]) ∧
    Checks context before (fun found => found.2.returnTy = context.typeOf expr expected) prepared

namespace ChecksCall

variable {expr : Expr} {name : String} {expected : Ty} {prepared : Lowering (Code × Call)}

theorem value (checks : ChecksCall context expr name expected prepared) :
    Checks context (context.occurrences expr expected .temporary)
      (Lowered.HasTy (context.typeOf expr expected)) (callValue context.table name prepared) := by
  obtain ⟨before, own, target, passed, occurrencesEq, checksBefore⟩ := checks
  rw [occurrencesEq]
  exact checks_callValue checksBefore

/-- A call that needs no temporary is no fault. -/
theorem stored (checks : ChecksCall context expr name expected prepared) (dest : Dest)
    (noTemporary : dest ≠ .temporary) (value : Option Value) :
    Checks context (context.occurrences expr expected dest) (fun _ => True) (do
      let found ← prepared
      return found.1 ++ [.call value found.2]) := by
  obtain ⟨before, own, target, passed, occurrencesEq, checksBefore⟩ := checks
  rw [occurrencesEq]
  apply checksBefore.bind
  rintro ⟨code, site⟩ _
  apply Checks.sound _ trivial
  intro error faults
  cases faults
  exact noTemporary rfl

end ChecksCall

theorem checksCall_lowerSelfCall {args : List Expr} (name : String) (expected : Ty)
    (checksArgs : ∀ expectedAt, Checks context (context.occurrencesAll expectedAt args)
      (fun found => found.2.map Value.ty = context.typesOf expectedAt args)
      (lowerExprs context.table expectedAt args)) :
    ChecksCall context (.selfCall name args) name expected
      (lowerSelfCall context.table name args expected) := by
  unfold ChecksCall
  simp only [Context.occurrences, Context.typeOf]
  exact ⟨_, _, _, _, fun dest => rfl, checks_prepareCall name
    (fun expectedAt => lowerExprs context.table expectedAt args) expected
    (checks_implicitReceiver name) (checksArgs _)⟩

theorem checksCall_lowerCall {receiver : Expr} {args : List Expr} (name : String) (expected : Ty)
    (checksReceiver : ∀ expected, Checks context (context.occurrences receiver expected .temporary)
      (Lowered.HasTy (context.typeOf receiver expected))
      (lowerExpr context.table receiver expected))
    (checksArgs : ∀ expectedAt, Checks context (context.occurrencesAll expectedAt args)
      (fun found => found.2.map Value.ty = context.typesOf expectedAt args)
      (lowerExprs context.table expectedAt args)) :
    ChecksCall context (.call receiver name args) name expected
      (lowerCall context.table receiver name args expected) := by
  unfold ChecksCall
  simp only [Context.occurrences, Context.typeOf, Context.callee?]
  cases names : context.classNamed? receiver with
  | some className =>
      exact ⟨_, _, _, _, fun dest => rfl, checks_prepareCall name
        (fun expectedAt => lowerExprs context.table expectedAt args) expected
        (checks_explicitReceiver_of_class names) (checksArgs _)⟩
  | none =>
      have prepares := checks_prepareCall name
        (fun expectedAt => lowerExprs context.table expectedAt args) expected
        (checks_explicitReceiver_of_object names (checksReceiver context.table.classTy))
        (checksArgs _)
      rw [← List.append_assoc] at prepares
      exact ⟨_, _, _, _, fun dest => rfl, prepares⟩

/-! ## Expressions -/

theorem checks_lowerVar (name : String) (expected : Ty) :
    Checks context [.reference name (context.resolve? name)]
      (Lowered.HasTy (context.typeOf (.var name) expected)) (lowerVar context.table name) := by
  rw [Context.typeOf]
  apply checks_resolve
  · intro unknown
    rw [unknown]
    exact ⟨_, List.mem_singleton_self _, .unknown name⟩
  · intro binding resolves
    rw [resolves]
    cases binding with
    | declared ty => exact .safe rfl rfl
    | field ty => exact (checks_freshTemp ty).bind fun _ destTy => .safe rfl destTy
    | className =>
        apply checks_scope.bind
        intro scope signatureEq
        rw [signatureEq]
        exact .throw (List.mem_singleton_self _) (.classAsValue name)

mutual

/-- An expression is lowered to a value of its static type if no occurrence in it is
faulty. -/
theorem checks_lowerExpr : (expr : Expr) → (expected : Ty) →
    Checks context (context.occurrences expr expected .temporary)
      (Lowered.HasTy (context.typeOf expr expected)) (lowerExpr context.table expr expected)
  | .int _, _ | .bool _, _ | .string _, _ => by
      rw [lowerExpr, Context.occurrences]
      exact .pure rfl
  | .self, _ => by
      rw [lowerExpr, Context.occurrences]
      exact .safe rfl rfl
  | .paren inner, expected => by
      rw [lowerExpr, Context.occurrences, Context.typeOf]
      exact checks_lowerExpr inner expected
  | .var name, _ => by
      rw [lowerExpr, Context.occurrences]
      exact checks_lowerVar name _
  | .binary op left right, _ => by
      rw [lowerExpr, Context.occurrences, List.append_assoc]
      exact (checks_lowerExpr left _).bind fun _ _ => (checks_lowerExpr right _).bind fun _ _ =>
        (checks_freshTemp _).bind fun _ destTy => .safe rfl destTy
  | .not operand, _ => by
      rw [lowerExpr, Context.occurrences]
      exact (checks_lowerExpr operand _).bind fun _ _ =>
        (checks_negate _).bind fun _ negatedTy => .safe rfl negatedTy
  | .index array position, _ => by
      rw [lowerExpr, Context.occurrences, Context.typeOf, List.append_assoc]
      apply (checks_lowerExpr array _).bind
      intro base baseTy
      rw [← baseTy]
      exact (checks_lowerExpr position _).bind fun _ _ =>
        (checks_freshTemp _).bind fun _ destTy => .safe rfl destTy
  | .length array, _ => by
      rw [lowerExpr, Context.occurrences]
      exact (checks_lowerExpr array _).bind fun _ _ =>
        (checks_freshTemp _).bind fun _ destTy => .safe rfl destTy
  | .newArray _ size, _ => by
      rw [lowerExpr, Context.occurrences]
      exact (checks_lowerExpr size _).bind fun _ _ =>
        (checks_freshTemp _).bind fun _ destTy => .safe rfl destTy
  | .arrayInit elements, _ => by
      rw [lowerExpr, Context.occurrences, Context.typeOf]
      apply (checks_lowerExprs elements _).bind
      rintro ⟨code, values⟩ tysEq
      rw [← tysEq]
      exact (checks_packArray _ values).followed fun _ packedTy => .pure packedTy
  | .newObject _, _ => by
      rw [lowerExpr, Context.occurrences]
      exact (checks_freshTemp _).bind fun _ destTy => .safe rfl destTy
  | .selfCall name args, expected => by
      rw [lowerExpr_selfCall]
      exact (checksCall_lowerSelfCall name expected (checks_lowerExprs args)).value
  | .call receiver name args, expected => by
      rw [lowerExpr_call]
      exact (checksCall_lowerCall name expected (checks_lowerExpr receiver)
        (checks_lowerExprs args)).value

theorem checks_lowerExprs : (exprs : List Expr) → (expectedAt : Nat → Ty) →
    Checks context (context.occurrencesAll expectedAt exprs)
      (fun found => found.2.map Value.ty = context.typesOf expectedAt exprs)
      (lowerExprs context.table expectedAt exprs)
  | [], _ => .pure rfl
  | expr :: rest, _ => by
      rw [lowerExprs, Context.occurrencesAll, Context.typesOf]
      apply (checks_lowerExpr expr _).bind
      intro first firstTy
      apply (checks_lowerExprs rest _).followed
      rintro ⟨code, values⟩ tysEq
      exact .pure (List.cons_eq_cons.mpr ⟨firstTy, tysEq⟩)

end

/-! ## Statements -/

theorem checks_lowerIntoVariable (name : String) (ty : Ty) (value : Expr) :
    Checks context (context.variableOccurrences ty value) (fun _ => True)
      (lowerIntoVariable context.table name ty value) := by
  have moves : Checks context (context.occurrences value ty .temporary ++
      [.assign ty (context.typeOf value ty)]) (fun _ => True) (do
        let lowered ← lowerExpr context.table value ty
        return lowered.code ++ [.assign (.var name ty) lowered.value]) :=
    (checks_lowerExpr value ty).bind fun _ _ => .safe rfl trivial
  unfold Context.variableOccurrences Semantics.writesInto Semantics.isCall lowerIntoVariable
  cases inner : value.unparen with
  | binary op left right =>
      simp only [decide_eq_true_eq]
      by_cases sameTy : op.resultTy = ty
      · rw [if_pos sameTy, if_pos sameTy, ← Context.occurrences_unparen, inner,
          Context.occurrences, List.append_assoc]
        exact (checks_lowerExpr left _).bind fun _ _ =>
          (checks_lowerExpr right _).bind fun _ _ => .safe rfl trivial
      · rw [if_neg sameTy, if_neg sameTy]
        exact moves
  | selfCall method args =>
      simp only [if_true]
      rw [← Context.occurrences_unparen, inner]
      exact (checksCall_lowerSelfCall method ty (checks_lowerExprs args)).stored (.into ty)
        (by simp) _
  | call receiver method args =>
      simp only [if_true]
      rw [← Context.occurrences_unparen, inner]
      exact (checksCall_lowerCall method ty (checks_lowerExpr receiver)
        (checks_lowerExprs args)).stored (.into ty) (by simp) _
  | _ =>
      simp only [Bool.false_eq_true, if_false]
      exact moves

/-- The array of an assignment is looked up before anything is lowered. -/
theorem checks_storedElementTy {array : Expr} {next : Ty → Lowering α} (expected : Ty)
    (contains : context.occurrences array expected .temporary ⊆ occurrences)
    (checks : Checks context occurrences post (next (context.assignedElement array))) :
    Checks context occurrences post (storedElementTy context.table array >>= next) := by
  intro state contextEq
  apply Outcome.bind
  have found : Outcome (storedElementTy context.table array) state
      (fun ty after => ty = context.assignedElement array ∧ after = state)
      (fun error after => after = state ∧ ∃ occurrence ∈
        context.occurrences array expected .temporary,
          occurrence.Faults context.signature.name error) := by
    unfold storedElementTy Context.assignedElement
    rw [← Context.occurrences_unparen]
    cases array.unparen with
    | var name =>
        rw [Context.occurrences]
        apply Outcome.bind
        apply (outcome_resolve contextEq name).mono
        · rintro binding after ⟨resolves, rfl⟩
          simp only [resolves]
          cases binding <;> exact ⟨rfl, rfl⟩
        · rintro error after ⟨resolves, rfl, rfl⟩
          rw [resolves]
          exact ⟨rfl, _, List.mem_singleton_self _, .unknown name⟩
    | _ => exact ⟨rfl, rfl⟩
  apply found.mono
  · rintro ty after ⟨rfl, rfl⟩
    exact checks _ contextEq
  · rintro error after ⟨rfl, occurrence, member, faults⟩
    exact ⟨.refl _, occurrence, contains member, faults⟩

theorem checks_lowerAssign (target value : Expr) :
    Checks context (context.assignOccurrences target value) (fun _ => True)
      (lowerAssign context.table target value) := by
  unfold Context.assignOccurrences lowerAssign
  cases inner : target.unparen with
  | var name =>
      simp only
      apply checks_resolve
      · intro unknown
        rw [unknown]
        exact ⟨_, List.mem_singleton_self _, .unknownTarget name⟩
      · intro binding resolves
        rw [resolves]
        cases binding with
        | declared ty => exact checks_lowerIntoVariable name ty value
        | field ty => exact (checks_lowerExpr value ty).bind fun _ _ => .safe rfl trivial
        | className => exact .throw (List.mem_singleton_self _) (.malformedTarget _)
  | index array position =>
      simp only
      apply checks_storedElementTy (Ty.arrayOf (context.assignedElement array).name)
      · intro occurrence member
        simp only [List.mem_append]
        exact .inl (.inl (.inr member))
      · rw [List.append_assoc, List.append_assoc]
        exact (checks_lowerExpr value _).bind fun _ _ =>
          (checks_lowerExpr array _).bind fun _ _ =>
          (checks_lowerExpr position _).bind fun _ _ => .safe rfl trivial
  | _ => exact .throw (List.mem_singleton_self _) (.malformedTarget _)

theorem checks_lowerExprStmt (expr : Expr) :
    Checks context (context.stmtOccurrences (.expr expr)) (fun _ => True)
      (lowerExprStmt context.table expr) := by
  rw [Context.stmtOccurrences, Semantics.isCall]
  unfold lowerExprStmt
  cases inner : expr.unparen with
  | selfCall name args =>
      simp only [if_true]
      rw [← Context.occurrences_unparen, inner]
      exact (checksCall_lowerSelfCall name Ty.void (checks_lowerExprs args)).stored .dropped
        (by decide) none
  | call receiver name args =>
      simp only [if_true]
      rw [← Context.occurrences_unparen, inner]
      exact (checksCall_lowerCall name Ty.void (checks_lowerExpr receiver)
        (checks_lowerExprs args)).stored .dropped (by decide) none
  | _ =>
      simp only [Bool.false_eq_true, if_false]
      exact (checks_lowerExpr expr _).followed fun _ _ => .pure trivial

theorem checks_lowerReturn (value : Option Expr) :
    Checks context (context.returnOccurrences value) (fun _ => True)
      (lowerReturn context.table value) := by
  cases value with
  | none => exact checks_scope.bind fun _ _ => .safe rfl trivial
  | some value =>
      rw [Context.returnOccurrences]
      by_cases isMain : context.signature.isMain = true
      · rw [if_pos isMain]
        apply checks_scope.bind
        intro scope signatureEq
        simp only [signatureEq, if_pos isMain]
        exact .safe rfl trivial
      · rw [if_neg isMain, ← List.nil_append (context.occurrences _ _ _ ++ _)]
        apply checks_scope.bind
        intro scope signatureEq
        simp only [signatureEq, if_neg isMain]
        exact (checks_lowerExpr value _).bind fun _ _ => .safe rfl trivial

mutual

/-- A statement is lowered if no occurrence in it is faulty. -/
theorem checks_lowerStmt : (stmt : Stmt) →
    Checks context (context.stmtOccurrences stmt) (fun _ => True) (lowerStmt context.table stmt)
  | .assign target value => by
      rw [lowerStmt, Context.stmtOccurrences]
      exact checks_lowerAssign target value
  | .expr expr => by
      rw [lowerStmt]
      exact checks_lowerExprStmt expr
  | .ret value => by
      rw [lowerStmt, Context.stmtOccurrences]
      exact checks_lowerReturn value
  | .ifElse cond thenBranch elseBranch => by
      rw [lowerStmt, Context.stmtOccurrences, List.append_assoc, List.append_assoc]
      exact (checks_lowerExpr cond _).bind fun _ _ =>
        checks_ifLabels.safely rfl fun _ _ => (checks_lowerStmt elseBranch).bind fun _ _ =>
          (checks_lowerStmt thenBranch).followed fun _ _ => .pure trivial
  | .whileLoop cond body => by
      rw [lowerStmt, Context.stmtOccurrences, List.append_assoc]
      exact checks_whileLabels.bind fun _ _ => (checks_lowerExpr cond _).bind fun _ _ =>
        (checks_negate _).safely rfl fun _ _ =>
          (checks_lowerStmt body).followed fun _ _ => .pure trivial
  | .block body => by
      rw [lowerStmt, Context.stmtOccurrences]
      exact checks_lowerStmts body

theorem checks_lowerStmts : (body : List Stmt) →
    Checks context (context.bodyOccurrences body) (fun _ => True) (lowerStmts context.table body)
  | [] => .pure trivial
  | stmt :: rest => by
      rw [lowerStmts, Context.bodyOccurrences]
      exact (checks_lowerStmt stmt).bind fun _ _ =>
        (checks_lowerStmts rest).followed fun _ _ => .pure trivial

end

/-! ## Methods -/

/-- A method is lowered if no occurrence in its body is faulty, and otherwise fails with
the error of one that is. Its temporaries are those that were taken since it was
entered. -/
theorem outcome_lowerMethod {table : SymbolTable} {decl : MethodDecl}
    {signature : MethodSignature} (found : table.method? decl.name = some signature)
    (state : LoweringState) :
    Outcome (lowerMethod table decl) state
      (fun method after => (∃ last, Draws table (state.entering signature) last ∧
          method.temps = last.scope.temps ∧ after = { last with scope.temps := [] }) ∧
        Faultless signature.name ((Context.mk table signature).bodyOccurrences decl.body))
      (fun error after => Draws table (state.entering signature) after ∧
        ∃ occurrence ∈ (Context.mk table signature).bodyOccurrences decl.body,
          occurrence.Faults signature.name error) := by
  have checks : Checks ⟨table, signature⟩ _ _ (lowerStmts table decl.body) :=
    checks_lowerStmts decl.body
  unfold lowerMethod
  rw [found]
  apply Outcome.bind
  apply Outcome.bind
  apply (checks (state.entering signature) rfl).mono
  · rintro code last ⟨draws, _, faultless⟩
    exact ⟨⟨last, draws, rfl, rfl⟩, faultless⟩
  · intro error after isFault
    exact isFault

/-- No occurrence in the methods of a lowered class is faulty. -/
theorem faultless_of_lowerMethods {table : SymbolTable} {decls : List MethodDecl}
    {state after : LoweringState} {methods : List Method}
    (run : lowerMethods table decls state = .ok methods after) {decl : MethodDecl}
    (member : decl ∈ decls) {signature : MethodSignature}
    (found : table.method? decl.name = some signature) :
    Faultless signature.name ((Context.mk table signature).bodyOccurrences decl.body) := by
  induction decls generalizing state methods with
  | nil => cases member
  | cons first rest ih =>
      rw [lowerMethods] at run
      obtain ⟨method, middle, lowersFirst, others⟩ := bind_eq_ok_iff.mp run
      obtain ⟨restMethods, last, lowersRest, taken⟩ := bind_eq_ok_iff.mp others
      cases taken
      rcases List.mem_cons.mp member with rfl | inRest
      · exact ((outcome_lowerMethod found state).of_ok lowersFirst).2
      · exact ih lowersRest inRest

end ClassCompiler.ThreeAddress
