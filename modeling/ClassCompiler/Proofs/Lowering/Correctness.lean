import ClassCompiler.Proofs.Lowering.Control
import ClassCompiler.Proofs.Lowering.Inversion

/-!
# Lowering preserves meaning

The body of a declared method ends in a way, with a memory, exactly if the body of
the lowered method does, from the same variables and memory and in the same world.
The memory contains the heap with all fields and the trace of all calls, so calls
are made in the same order, on the same receivers and with the same arguments.
Bodies that run for ever are lowered to bodies that run for ever.

One condition is put on a program that is lowered: no declared type but `int` is overlooked.
An array literal of other elements that stands alone for collected arguments, or an outside
call whose result is assigned to such an element of an array without a name, is lowered as if
integers were declared. Where an operation meets values of the wrong sort both sides abort
alike.
-/

namespace ClassCompiler.ThreeAddress

open Semantics LoweringState
open Context (Heeded)

variable {table : SymbolTable} {context : Context} {world : World Scalar}

/-! ## The end of a body -/

/-- Only a return from a method without result is added to the code of a body. -/
theorem mem_of_mem_completeBody {signature : MethodSignature} {code : Code} {instr : Instr}
    (member : instr ∈ completeBody signature code) :
    instr ∈ code ∨
      instr = .ret none ∧ (signature.isMain || signature.returnTy.isVoid) = true := by
  rw [completeBody_eq] at member
  split at member
  · next returns =>
      rw [List.mem_append, List.mem_singleton] at member
      exact member.imp_right fun instrEq => ⟨instrEq, (Bool.and_eq_true_iff.mp returns).1⟩
  · exact .inl member

theorem mem_completeBody_of_mem {signature : MethodSignature} {code : Code} {instr : Instr}
    (member : instr ∈ code) : instr ∈ completeBody signature code := by
  rw [completeBody_eq]
  split
  · exact List.mem_append_left _ member
  · exact member

@[simp] theorem endsInReturn_concat (code : Code) (instr : Instr) :
    endsInReturn (code ++ [instr]) = instr.isReturn := by
  simp [endsInReturn]

theorem endsInReturn_append (first : Code) {second : Code} (nonempty : second ≠ []) :
    endsInReturn (first ++ second) = endsInReturn second := by
  simp only [endsInReturn, List.getLast?_append_of_ne_nil first nonempty]

theorem endsInReturn_of_isStraight {code : Code} (straight : ∀ instr ∈ code, instr.IsStraight) :
    endsInReturn code = false := by
  unfold endsInReturn
  split
  · next instr lastEq =>
      have isStraight := straight instr (List.mem_of_getLast? lastEq)
      cases instr with
      | ret value => exact isStraight.elim
      | _ => rfl
  · rfl

theorem isNormal_of_return {value : Option Expr} {env : String → Val Scalar}
    {memory : Memory Scalar} {completion : Completion}
    (exec : Exec context world (.ret value) env memory completion) :
    completion.isNormal = false := by
  cases exec
  unfold execReturn
  cases value with
  | none => rfl
  | some value =>
      dsimp only
      split
      · rfl
      · cases eval context world env value context.signature.returnTy memory <;> rfl

/-- A statement whose code ends with a return does not complete normally. -/
theorem isNormal_of_endsInReturn {stmt : Stmt} {state last : LoweringState} {code : Code}
    (lowers : LowersStmt table stmt state code last) (ends : endsInReturn code = true)
    {env : String → Val Scalar} {memory : Memory Scalar} {completion : Completion}
    (exec : Exec context world stmt env memory completion) : completion.isNormal = false := by
  induction lowers generalizing env memory completion with
  | assignOperator | assignCall | assignValue | assignField | assignElement | exprCall | ifElse =>
      rw [endsInReturn_concat] at ends
      cases ends
  | whileLoop =>
      rw [endsInReturn_append _ (by simp)] at ends
      cases ends
  | exprValue _ _ lowers =>
      rw [endsInReturn_of_isStraight lowers.isStraight] at ends
      cases ends
  | returnNothing | returnValue => exact isNormal_of_return exec
  | blockNil => cases ends
  | @blockCons stmt rest state middle last code restCode lowersFirst lowersRest firstHypothesis
      restHypothesis =>
      cases exec with
      | blockLeaves execFirst leaves => exact leaves
      | blockTurns execFirst execRest =>
          by_cases empty : restCode = []
          · rw [empty, List.append_nil] at ends
            cases firstHypothesis ends execFirst
          · rw [endsInReturn_append code empty] at ends
            exact restHypothesis ends execRest

/-! ## Methods -/

section Method

variable {decl : MethodDecl} {signature : MethodSignature} {state last : LoweringState}
  {code : Code} {env : String → Val Scalar} {memory : Memory Scalar}

theorem placedAt_completeBody (signature : MethodSignature) (code : Code) :
    PlacedAt code 0 (completeBody signature code) := by
  rw [completeBody_eq]
  split
  · exact List.prefix_append _ _
  · exact .whole _

/-- The lowered body of a method ends as the source does when it completes. -/
theorem stops_of_exec
    (lowers : LowersStmt table (.block decl.body) (state.entering signature) code last)
    (heeded : Heeded ((Context.mk table signature).bodyOverlooked decl.body))
    {completion : Completion}
    (exec : Exec ⟨table, signature⟩ world (.block decl.body) env memory completion) :
    ∃ final, Stops ((methodOf signature last.scope.temps code).step world false)
      ⟨0, ⟨env, memory⟩⟩
      ⟨(completion.ending signature).1, ⟨final, (completion.ending signature).2⟩⟩ := by
  have unique : (definedLabels (methodOf signature last.scope.temps code).body).Nodup := by
    rw [methodOf, definedLabels_completeBody]
    exact lowers.labelled.distinct
  have achieves := achieves_of_exec unique exec rfl rfl lowers heeded (fun _ _ => rfl)
    (placedAt_completeBody signature code)
  cases completion with
  | returned value memory => exact achieves
  | aborted reason memory => exact achieves
  | normal source after =>
      rcases achieves with ⟨n, final, steps, _⟩
      refine ⟨final, .of_steps steps (.of_stop ?_)⟩
      have notReturned : endsInReturn code = false := by
        by_contra returned
        cases isNormal_of_endsInReturn lowers (by simpa using returned) exec
      have bodyEq : (methodOf signature last.scope.temps code).body =
          if signature.isMain || signature.returnTy.isVoid then code ++ [.ret none] else code := by
        simp [methodOf, completeBody_eq, notReturned]
      simp only [Completion.ending]
      cases hasNoResult : signature.isMain || signature.returnTy.isVoid with
      | true =>
          rw [hasNoResult, if_pos rfl] at bodyEq
          have atEnd : (methodOf signature last.scope.temps code).body[0 + code.length]? =
              some (.ret none) := by
            simp [bodyEq]
          exact step_ret atEnd _
      | false =>
          rw [hasNoResult, if_neg Bool.false_ne_true] at bodyEq
          simp [Method.step, bodyEq]

/-- A lowered body ends exactly as its source does. -/
theorem LowersMethod.bodyEnds_iff {method : Method} {after : LoweringState}
    (found : table.method? decl.name = some signature)
    (lowers : LowersMethod table decl state method after)
    (heeded : Heeded ((Context.mk table signature).bodyOverlooked decl.body))
    (outcome : Outcome Scalar) (result : Memory Scalar) :
    BodyEnds ⟨table, signature⟩ world decl.body env memory (outcome, result) ↔
      ∃ final, Stops (method.step world false) ⟨0, ⟨env, memory⟩⟩ ⟨outcome, ⟨final, result⟩⟩ := by
  cases lowers with
  | @intro other _ last code otherFound lowers =>
      rw [found] at otherFound
      cases otherFound
      constructor
      · rintro ⟨completion, exec, endingEq⟩
        rcases stops_of_exec lowers heeded exec with ⟨final, stops⟩
        rw [endingEq] at stops
        exact ⟨final, stops⟩
      · rintro ⟨final, n, stops⟩
        have unique : (definedLabels (methodOf signature last.scope.temps code).body).Nodup := by
          rw [methodOf, definedLabels_completeBody]
          exact lowers.labelled.distinct
        rcases exec_of_stopsIn unique rfl n lowers rfl heeded (fun _ _ => rfl)
          (placedAt_completeBody signature code) stops with ⟨completion, exec⟩
        rcases stops_of_exec lowers heeded exec with ⟨other, otherStops⟩
        have same := Stops.unique otherStops ⟨n, stops⟩
        refine ⟨completion, exec, ?_⟩
        rw [Ending.mk.injEq, State.mk.injEq] at same
        exact Prod.ext same.1 same.2.2

end Method

/-- Lowering preserves meaning: the body of every declared method in which no type but `int`
is overlooked and the body of the method that it is lowered to end in the same ways, from all
variables, memories and in all worlds. -/
theorem bodyEnds_iff_stops_of_lowerProgram {program : Program} {state after : LoweringState}
    {unit : ClassUnit} (lowered : lowerProgram table program state = .ok unit after)
    {index : Nat} {decl : MethodDecl} (declared : program.decl.methods[index]? = some decl)
    (heeded : ∀ signature ∈ table.method? decl.name,
      Heeded ((Context.mk table signature).bodyOverlooked decl.body)) :
    ∃ signature method, table.method? decl.name = some signature ∧
      unit.methods[index + 1]? = some method ∧
      method.params = signature.params ∧ method.locals = signature.locals ∧
      ∀ (world : World Scalar) (env : String → Val Scalar) (memory result : Memory Scalar)
        (outcome : Outcome Scalar),
        BodyEnds ⟨table, signature⟩ world decl.body env memory (outcome, result) ↔
          ∃ final, Stops (method.step world false) ⟨0, ⟨env, memory⟩⟩
            ⟨outcome, ⟨final, result⟩⟩ := by
  rcases lowersMethod_of_lowerProgram lowered declared with ⟨start, method, last, position, lowers⟩
  have lowersCopy := lowers
  cases lowersCopy with
  | @intro signature _ _ _ found _ =>
      exact ⟨signature, _, found, position, rfl, rfl, fun world env memory result outcome =>
        lowers.bodyEnds_iff found (heeded signature found) outcome result⟩

/-- A method that counts up to its argument, with a call in its loop. -/
def countingMethod : MethodDecl where
  name := "count"
  returnTy := Ty.int
  params := [⟨"n", Ty.int⟩]
  locals := [⟨"i", Ty.int⟩]
  body := [
    .whileLoop (.binary (.compare .less) (.var "i") (.var "n"))
      (.assign (.var "i") (.binary (.arith .add) (.selfCall "next" [.var "i"]) (.int 1))),
    .ret (some (.var "i"))]
  isStatic := false
  isPublic := true

/-- A class with a method that counts. -/
def countingProgram : Program := ⟨[], ⟨"Counter", none, [], [countingMethod]⟩⟩

theorem bodyEnds_iff_stops_countingProgram :
    ∃ unit after, lowerProgram (.ofProgram countingProgram) countingProgram {} = .ok unit after ∧
      countingProgram.decl.methods[0]? = some countingMethod ∧
      (∀ signature ∈ (SymbolTable.ofProgram countingProgram).method? countingMethod.name,
        Heeded ((Context.mk (.ofProgram countingProgram) signature).bodyOverlooked
          countingMethod.body)) ∧
      ∃ signature method,
        (SymbolTable.ofProgram countingProgram).method? countingMethod.name = some signature ∧
        unit.methods[0 + 1]? = some method ∧
        method.params = signature.params ∧ method.locals = signature.locals ∧
        ∀ (world : World Scalar) (env : String → Val Scalar) (memory result : Memory Scalar)
          (outcome : Outcome Scalar),
          BodyEnds ⟨.ofProgram countingProgram, signature⟩ world countingMethod.body env memory
              (outcome, result) ↔
            ∃ final, Stops (method.step world false) ⟨0, ⟨env, memory⟩⟩
              ⟨outcome, ⟨final, result⟩⟩ := by
  have lowers : ∃ unit after,
      lowerProgram (.ofProgram countingProgram) countingProgram {} = .ok unit after := ⟨_, _, rfl⟩
  have declared : countingProgram.decl.methods[0]? = some countingMethod := rfl
  have heeded : ∀ signature ∈ (SymbolTable.ofProgram countingProgram).method? countingMethod.name,
      Heeded ((Context.mk (.ofProgram countingProgram) signature).bodyOverlooked
        countingMethod.body) := by decide +kernel
  rcases lowers with ⟨unit, after, lowered⟩
  exact ⟨unit, after, lowered, declared, heeded,
    bodyEnds_iff_stops_of_lowerProgram lowered declared heeded⟩

/-- A method that collects truth values and calls itself with a literal of them. -/
def collectingMethod : MethodDecl where
  name := "keep"
  returnTy := Ty.void
  params := [⟨"flags", Ty.varargOf "boolean"⟩]
  locals := []
  body := [.expr (.call .self "keep" [.arrayInit [.bool true, .bool false]])]
  isStatic := false
  isPublic := true

/-- A class with a method that collects truth values. -/
def collectingProgram : Program := ⟨[], ⟨"Flags", none, [], [collectingMethod]⟩⟩

/-- The source passes an array of truth values. The code makes an array of integers, which
does not take them. -/
theorem not_bodyEnds_iff_stops_collectingProgram :
    ∃ unit after, lowerProgram (.ofProgram collectingProgram) collectingProgram {} =
        .ok unit after ∧
      ∃ method, unit.methods[0 + 1]? = some method ∧
      ∃ (world : World Scalar) (env : String → Val Scalar) (memory result : Memory Scalar)
        (outcome : Outcome Scalar),
        BodyEnds ⟨.ofProgram collectingProgram, .ofDecl collectingMethod⟩ world
            collectingMethod.body env memory (outcome, result) ∧
          ¬∃ final, Stops (method.step world false) ⟨0, ⟨env, memory⟩⟩
            ⟨outcome, ⟨final, result⟩⟩ := by
  let world : World Scalar := ⟨.address 0, id, fun _ heap => ⟨heap, true, 0, false, .null⟩⟩
  let env : String → Val Scalar := fun _ => .ref .null
  let context : Context := ⟨.ofProgram collectingProgram, .ofDecl collectingMethod⟩
  let memory : Memory Scalar := ⟨[], []⟩
  let result : Memory Scalar := ⟨[.bools [true, false]],
    [⟨.virtual (Ty.named "Flags"), "keep", [Ty.arrayOf "boolean"], Ty.void, some (.ref world.self),
      [.ref (.address 0)]⟩]⟩
  have exec : Exec context world
      (.expr (.call .self "keep" [.arrayInit [.bool true, .bool false]])) env memory
      (.normal env result) := Exec.expr _ env memory
  refine ⟨_, _, rfl, _, rfl, world, env, memory, result, .returned none,
    ⟨_, .blockTurns exec (.blockEnds _ _), rfl⟩, ?_⟩
  rintro ⟨final, stops⟩
  have aborted := stops.unique (.of_steps (.single rfl) (.of_stop rfl))
  cases congrArg Ending.outcome aborted

end ClassCompiler.ThreeAddress
