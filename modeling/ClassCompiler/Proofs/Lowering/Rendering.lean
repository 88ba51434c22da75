import ClassCompiler.Proofs.Lowering.Temporaries
import ClassCompiler.Proofs.Semantics.Occurrences
import Mathlib.Algebra.GroupWithZero.Nat

/-!
# The code of occurrences

Lowered code consists of blocks, one for each operation that occurs in the source, in
the order of evaluation, with labels and jumps between them. A block is fixed by the
operation up to the choice of operands, and an operand has the static type of the
expression that it stands for. So what holds of every block under a condition on its
occurrence holds of all lowered code under that condition on the source.
-/

namespace ClassCompiler.ThreeAddress

open LoweringState
open Semantics (Context Dest Target Occurrence collected? collectedArray passedTys isCall
  writesInto)

/-! ## Operands -/

/-- The operands that expressions leave: constants, temporaries, declared variables and
the current object, if there is one. -/
def IsOperand (context : Context) (hasSelf : Prop) : Value → Prop
  | .const _ | .temp _ _ => True
  | .self ty => ty = context.table.classTy ∧ hasSelf
  | .var name ty => context.resolve? name = some (.declared ty)
  | .classRef _ | .element _ _ _ => False

/-- An operand of a type. -/
structure Operand (context : Context) (hasSelf : Prop) (ty : Ty) (value : Value) : Prop where
  isOperand : IsOperand context hasSelf value
  ty_eq : value.ty = ty

/-- Operands of types, in order. -/
structure Operands (context : Context) (hasSelf : Prop) (tys : List Ty) (values : List Value) :
    Prop where
  isOperand : ∀ value ∈ values, IsOperand context hasSelf value
  map_ty_eq : values.map Value.ty = tys

/-- Where the result of an operation goes, as an operand. -/
def IsDest (context : Context) (ty : Ty) : Dest → Option Value → Prop
  | .temporary, dest => ∃ name, dest = some (.temp name ty)
  | .into declared, dest =>
      ∃ name, dest = some (.var name declared) ∧ context.resolve? name = some (.declared declared)
  | .dropped, dest => dest = none

/-- Who receives a call, as the target of an invocation. -/
def IsReceiver (context : Context) (hasSelf : Prop) : Target → InvokeMode → Value → Prop
  | .onClass className, mode, value => mode = .static ∧ value = .classRef className
  | .onObject ty, mode, value => mode = .virtual ∧ Operand context hasSelf ty value

/-! ## Blocks -/

/-- The code of an occurrence. -/
inductive Block (context : Context) (hasSelf : Prop) : Occurrence → Code → Prop where
  | self : Block context hasSelf .self []
  | declared (name : String) (ty : Ty) :
      Block context hasSelf (.reference name (some (.declared ty))) []
  | field {name : String} {ty : Ty} (dest : String)
      (resolves : context.resolve? name = some (.field ty)) :
      Block context hasSelf (.reference name (some (.field ty)))
        [.getField (.temp dest ty) (selfValue context.table) name ty]
  | operator {op : BinaryOp} {leftTy rightTy : Ty} {dest : Dest} {left right value : Value}
      (hasLeft : Operand context hasSelf leftTy left)
      (hasRight : Operand context hasSelf rightTy right)
      (isDest : IsDest context op.resultTy dest (some value)) (tyEq : value.ty = op.resultTy) :
      Block context hasSelf (.operator op leftTy rightTy dest) [.binary value op left right]
  | negation {ty : Ty} {operand : Value} (dest : String)
      (hasOperand : Operand context hasSelf ty operand) :
      Block context hasSelf (.negation ty) [.not (.temp dest Ty.boolean) operand]
  | element {arrayTy positionTy : Ty} {array position : Value} (dest : String)
      (hasArray : Operand context hasSelf arrayTy array)
      (hasPosition : Operand context hasSelf positionTy position) :
      Block context hasSelf (.element arrayTy positionTy)
        [.assign (.temp dest arrayTy.element) (.element array position arrayTy.element)]
  | length {arrayTy : Ty} {array : Value} (dest : String)
      (hasArray : Operand context hasSelf arrayTy array) :
      Block context hasSelf (.length arrayTy)
        [.call (some (.temp dest Ty.int)) (.arrayLength array)]
  | newArray {elem sizeTy : Ty} {size : Value} (dest : String)
      (hasSize : Operand context hasSelf sizeTy size) :
      Block context hasSelf (.newArray elem sizeTy)
        [.call (some (.temp dest (Ty.arrayOf elem.name))) (.newArray elem size)]
  | array {elem : Ty} {tys : List Ty} {values : List Value} (dest : String)
      (hasValues : Operands context hasSelf tys values) :
      Block context hasSelf (.array elem tys)
        (.call (some (.temp dest (Ty.arrayOf elem.name)))
            (.newArray elem (.int (Int32.ofNat values.length))) ::
          elementStores (.temp dest (Ty.arrayOf elem.name)) elem values)
  | newObject (className dest : String) :
      Block context hasSelf (.newObject className)
        [.call (some (.temp dest (Ty.named className))) (.newObject className),
          .call none (.construct (.temp dest (Ty.named className)))]
  | call {own : Option MethodSignature} {target : Target} {name : String} {tys : List Ty}
      {result : Ty} {dest : Dest} {mode : InvokeMode} {object : Value} {values : List Value}
      {value : Option Value} (isReceiver : IsReceiver context hasSelf target mode object)
      (hasValues : Operands context hasSelf tys values)
      (isDest : IsDest context result dest value)
      (calleeEq : context.targetCallee? name target = own)
      (resultEq : ∀ callee ∈ own, result = callee.returnTy) :
      Block context hasSelf (.call own target name tys result dest)
        [.call value (.invoke mode object name values result)]
  | assign {declared ty : Ty} {name : String} {value : Value}
      (resolves : context.resolve? name = some (.declared declared))
      (hasValue : Operand context hasSelf ty value) :
      Block context hasSelf (.assign declared ty) [.assign (.var name declared) value]
  | assignField {name : String} {declared ty : Ty} {value : Value}
      (resolves : context.resolve? name = some (.field declared))
      (hasValue : Operand context hasSelf ty value) :
      Block context hasSelf (.assignField name declared ty)
        [.putField (selfValue context.table) name value]
  | assignElement {arrayTy positionTy ty : Ty} {array position value : Value}
      (hasArray : Operand context hasSelf arrayTy array)
      (hasPosition : Operand context hasSelf positionTy position)
      (hasValue : Operand context hasSelf ty value) :
      Block context hasSelf (.assignElement arrayTy positionTy ty)
        [.assign (.element array position arrayTy.element) value]
  | condition {ty : Ty} {cond : Value} (label : String)
      (hasCond : Operand context hasSelf ty cond) :
      Block context hasSelf (.condition ty) [.branch cond label]
  | returnsNothing : Block context hasSelf (.returns none) [.ret none]
  | returns {ty : Ty} {value : Value} (hasValue : Operand context hasSelf ty value) :
      Block context hasSelf (.returns (some ty)) [.ret (some value)]

/-- Labels and unconditional jumps, which stand for no occurrence. -/
def Instr.IsControl : Instr → Prop
  | .label _ | .goto _ => True
  | _ => False

/-- Code that consists of the blocks of occurrences, with labels and jumps between
them. -/
inductive Renders (context : Context) (hasSelf : Prop) : List Occurrence → Code → Prop where
  | nil : Renders context hasSelf [] []
  | block {occurrence : Occurrence} {occurrences : List Occurrence} {code rest : Code}
      (first : Block context hasSelf occurrence code)
      (others : Renders context hasSelf occurrences rest) :
      Renders context hasSelf (occurrence :: occurrences) (code ++ rest)
  | control {occurrences : List Occurrence} {instr : Instr} {rest : Code}
      (isControl : instr.IsControl) (others : Renders context hasSelf occurrences rest) :
      Renders context hasSelf occurrences (instr :: rest)

variable {table : SymbolTable} {context : Context} {hasSelf : Prop}

namespace Renders

theorem append {firstOccurrences secondOccurrences : List Occurrence} {first second : Code}
    (rendersFirst : Renders context hasSelf firstOccurrences first)
    (rendersSecond : Renders context hasSelf secondOccurrences second) :
    Renders context hasSelf (firstOccurrences ++ secondOccurrences) (first ++ second) := by
  induction rendersFirst with
  | nil => exact rendersSecond
  | block isBlock _ ih =>
      rw [List.cons_append, List.append_assoc]
      exact .block isBlock ih
  | control isControl _ ih => exact .control isControl ih

theorem single {occurrence : Occurrence} {code : Code}
    (isBlock : Block context hasSelf occurrence code) :
    Renders context hasSelf [occurrence] code := by
  have renders : Renders context hasSelf [occurrence] (code ++ []) := .block isBlock .nil
  rwa [List.append_nil] at renders

theorem concat {occurrences : List Occurrence} {occurrence : Occurrence} {code rest : Code}
    (renders : Renders context hasSelf occurrences code)
    (isBlock : Block context hasSelf occurrence rest) :
    Renders context hasSelf (occurrences ++ [occurrence]) (code ++ rest) :=
  renders.append (.single isBlock)

theorem followed {occurrences : List Occurrence} {code rest : Code}
    (renders : Renders context hasSelf occurrences code)
    (isControl : ∀ instr ∈ rest, instr.IsControl) :
    Renders context hasSelf occurrences (code ++ rest) := by
  rw [← List.append_nil occurrences]
  apply renders.append
  induction rest with
  | nil => exact .nil
  | cons instr rest ih =>
      rw [List.forall_mem_cons] at isControl
      exact .control isControl.1 (ih isControl.2)

/-- An instruction stands in the block of an occurrence or between blocks. -/
theorem exists_block_of_mem {occurrences : List Occurrence} {code : Code}
    (renders : Renders context hasSelf occurrences code) {instr : Instr} (member : instr ∈ code) :
    instr.IsControl ∨ ∃ occurrence ∈ occurrences, ∃ block ⊆ code,
      Block context hasSelf occurrence block ∧ instr ∈ block := by
  induction renders with
  | nil => cases member
  | @block occurrence _ block _ isBlock _ ih =>
      rcases List.mem_append.mp member with inBlock | inRest
      · exact .inr ⟨occurrence, List.mem_cons_self, block, List.subset_append_left _ _, isBlock,
          inBlock⟩
      · rcases ih inRest with isControl | ⟨other, otherMember, found, inside, rest⟩
        · exact .inl isControl
        · exact .inr ⟨other, List.mem_cons_of_mem _ otherMember, found,
            List.subset_append_of_subset_right _ inside, rest⟩
  | control isControl _ ih =>
      rcases List.mem_cons.mp member with rfl | inRest
      · exact .inl isControl
      · rcases ih inRest with isControl | ⟨other, otherMember, found, inside, rest⟩
        · exact .inl isControl
        · exact .inr ⟨other, otherMember, found, List.subset_cons_of_subset _ inside, rest⟩

end Renders

/-! ## Expressions -/

/-- There is a current object if the method has one, or if the source names it. -/
def AllowsSelf (context : Context) (hasSelf : Prop) (occurrences : List Occurrence) : Prop :=
  context.signature.isStatic = false ∨ .self ∈ occurrences → hasSelf

theorem AllowsSelf.left {first second : List Occurrence}
    (allows : AllowsSelf context hasSelf (first ++ second)) : AllowsSelf context hasSelf first :=
  fun named => allows (named.imp_right (List.mem_append_left _))

theorem AllowsSelf.right {first second : List Occurrence}
    (allows : AllowsSelf context hasSelf (first ++ second)) : AllowsSelf context hasSelf second :=
  fun named => allows (named.imp_right (List.mem_append_right _))

/-- An expression leaves an operand of its static type. -/
theorem LowersExpr.isOperand {expr : Expr} {expected : Ty} {state after : LoweringState}
    {lowered : Lowered} (contextEq : state.context table = context) :
    LowersExpr table expr expected state lowered after →
      AllowsSelf context hasSelf (context.occurrences expr expected .temporary) →
      IsOperand context hasSelf lowered.value
  | .int _ _ _, _ | .bool _ _ _, _ | .string _ _ _, _ => trivial
  | .self _ _, allows => by
      rw [Context.occurrences] at allows
      exact ⟨contextEq ▸ rfl, allows (.inr (List.mem_singleton_self _))⟩
  | .paren lowers, allows => by
      rw [Context.occurrences] at allows
      exact lowers.isOperand contextEq allows
  | .declared resolves, _ => by
      rw [← contextEq]
      exact resolves
  | .field _, _ | .binary _ _, _ | .not _, _ | .index _ _, _ | .length _, _ | .newArray _, _
  | .arrayInit _ _, _ | .newObject _ _ _, _ | .call _ _, _ => trivial

theorem LowersExpr.operand {expr : Expr} {expected : Ty} {state after : LoweringState}
    {lowered : Lowered} (lowers : LowersExpr table expr expected state lowered after)
    (contextEq : state.context table = context)
    (allows : AllowsSelf context hasSelf (context.occurrences expr expected .temporary)) :
    Operand context hasSelf (context.typeOf expr expected) lowered.value where
  isOperand := lowers.isOperand contextEq allows
  ty_eq := by rw [lowers.ty_eq, contextEq]

theorem LowersExpr.context_eq {expr : Expr} {expected : Ty} {state after : LoweringState}
    {lowered : Lowered} (lowers : LowersExpr table expr expected state lowered after)
    (contextEq : state.context table = context) : after.context table = context :=
  lowers.extends.context_eq.trans contextEq

theorem LowersExprs.operands {expectedAt : Nat → Ty} {exprs : List Expr}
    {state after : LoweringState} {code : Code} {values : List Value}
    (lowers : LowersExprs table expectedAt exprs state code values after)
    (contextEq : state.context table = context)
    (allows : AllowsSelf context hasSelf (context.occurrencesAll expectedAt exprs)) :
    Operands context hasSelf (context.typesOf expectedAt exprs) values where
  isOperand := by
    induction exprs generalizing expectedAt state code values with
    | nil =>
        cases lowers
        exact List.forall_mem_nil _
    | cons expr rest ih =>
        rw [Context.occurrencesAll] at allows
        cases lowers with
        | cons lowersFirst lowersRest =>
            rw [List.forall_mem_cons]
            exact ⟨lowersFirst.isOperand contextEq allows.left,
              ih lowersRest (lowersFirst.context_eq contextEq) allows.right⟩
  map_ty_eq := by rw [lowers.map_ty_eq, contextEq]

/-- The code of collected arguments is the block of their array. -/
theorem PacksArguments.renders {own : Option MethodSignature} {values packed : List Value}
    {tys : List Ty} {state after : LoweringState} {code : Code}
    (packs : PacksArguments table own values state code packed after)
    (hasValues : Operands context hasSelf tys values) :
    Renders context hasSelf (collectedArray own tys) code := by
  rw [collectedArray, ← hasValues.map_ty_eq]
  cases packs with
  | kept collects =>
      rw [collects]
      exact .nil
  | collected collects _ =>
      rw [collects]
      apply Renders.single
      apply Block.array
      exact ⟨fun value member => hasValues.isOperand value (List.mem_of_mem_drop member),
        List.map_drop⟩

theorem PacksArguments.operands {own : Option MethodSignature} {values packed : List Value}
    {tys : List Ty} {state after : LoweringState} {code : Code}
    (packs : PacksArguments table own values state code packed after)
    (hasValues : Operands context hasSelf tys values) :
    Operands context hasSelf (passedTys own tys) packed := by
  rw [passedTys, ← hasValues.map_ty_eq]
  cases packs with
  | kept collects =>
      rw [collects]
      exact ⟨hasValues.isOperand, rfl⟩
  | collected collects _ =>
      rw [collects]
      constructor
      · intro value member
        rcases List.mem_append.mp member with kept | packed
        · exact hasValues.isOperand value (List.mem_of_mem_take kept)
        · rw [List.mem_singleton.mp packed]
          trivial
      · rw [List.map_append, List.map_take]
        rfl

theorem isDest_nextTemp (state : LoweringState) (ty : Ty) :
    IsDest context ty .temporary (some (state.nextTemp table ty)) :=
  ⟨_, rfl⟩

theorem operand_nextTemp (state : LoweringState) (ty : Ty) :
    Operand context hasSelf ty (state.nextTemp table ty) :=
  ⟨trivial, rfl⟩

/-- A call to a method of the class has the declared result. -/
theorem returnTy_resultTy {own : Option MethodSignature} (expected : Ty) :
    ∀ callee ∈ own, Semantics.Context.resultTy own expected = callee.returnTy := by
  rintro callee ⟨rfl⟩
  rfl

mutual

/-- The code of an expression consists of the blocks of its occurrences. -/
theorem LowersExpr.renders {expr : Expr} {expected : Ty} {state after : LoweringState}
    {lowered : Lowered} (contextEq : state.context table = context) :
    LowersExpr table expr expected state lowered after →
      AllowsSelf context hasSelf (context.occurrences expr expected .temporary) →
      Renders context hasSelf (context.occurrences expr expected .temporary) lowered.code
  | .int _ _ _, _ | .bool _ _ _, _ | .string _ _ _, _ => .nil
  | .self _ _, _ => .single .self
  | .paren lowers, allows => by
      rw [Context.occurrences] at allows ⊢
      exact lowers.renders contextEq allows
  | .declared resolves, _ => by
      rw [contextEq] at resolves
      rw [Context.occurrences, resolves]
      exact .single (.declared _ _)
  | .field resolves, _ => by
      rw [contextEq] at resolves
      rw [Context.occurrences, resolves]
      apply Renders.single
      subst contextEq
      exact .field _ resolves
  | .binary lowersLeft lowersRight, allows => by
      have reached := lowersLeft.context_eq contextEq
      rw [Context.occurrences] at allows ⊢
      apply ((lowersLeft.renders contextEq allows.left.left).append
        (lowersRight.renders reached allows.left.right)).concat
      exact .operator (lowersLeft.operand contextEq allows.left.left)
        (lowersRight.operand reached allows.left.right) (isDest_nextTemp _ _) rfl
  | .not lowers, allows => by
      rw [Context.occurrences] at allows ⊢
      exact (lowers.renders contextEq allows.left).concat
        (.negation _ (lowers.operand contextEq allows.left))
  | .index lowersArray lowersPosition, allows => by
      have reached := lowersArray.context_eq contextEq
      rw [Context.occurrences] at allows ⊢
      have hasArray := lowersArray.operand contextEq allows.left.left
      apply ((lowersArray.renders contextEq allows.left.left).append
        (lowersPosition.renders reached allows.left.right)).concat
      rw [hasArray.ty_eq]
      exact .element _ hasArray (lowersPosition.operand reached allows.left.right)
  | .length lowersArray, allows => by
      rw [Context.occurrences] at allows ⊢
      exact (lowersArray.renders contextEq allows.left).concat
        (.length _ (lowersArray.operand contextEq allows.left))
  | .newArray lowersSize, allows => by
      rw [Context.occurrences] at allows ⊢
      exact (lowersSize.renders contextEq allows.left).concat
        (.newArray _ (lowersSize.operand contextEq allows.left))
  | .arrayInit lowersElements _, allows => by
      rw [Context.occurrences] at allows ⊢
      exact (lowersElements.renders contextEq allows.left).concat
        (.array _ (lowersElements.operands contextEq allows.left))
  | .newObject _ _ _, _ => .single (.newObject _ _)
  | .call lowersCall _, allows => lowersCall.renders contextEq (isDest_nextTemp _ _) allows

theorem LowersExprs.renders {expectedAt : Nat → Ty} {exprs : List Expr}
    {state after : LoweringState} {code : Code} {values : List Value}
    (contextEq : state.context table = context) :
    LowersExprs table expectedAt exprs state code values after →
      AllowsSelf context hasSelf (context.occurrencesAll expectedAt exprs) →
      Renders context hasSelf (context.occurrencesAll expectedAt exprs) code
  | .nil _ _, _ => .nil
  | .cons lowersFirst lowersRest, allows => by
      rw [Context.occurrencesAll] at allows ⊢
      exact (lowersFirst.renders contextEq allows.left).append
        (lowersRest.renders (lowersFirst.context_eq contextEq) allows.right)

/-- A call with the code before it consists of the blocks of its occurrences, wherever
the result goes. -/
theorem LowersCall.renders {expr : Expr} {expected : Ty} {state after : LoweringState}
    {code : Code} {site : Call} {dest : Dest} {value : Option Value}
    (contextEq : state.context table = context) :
    LowersCall table expr expected state code site after →
      IsDest context site.returnTy dest value →
      AllowsSelf context hasSelf (context.occurrences expr expected dest) →
      Renders context hasSelf (context.occurrences expr expected dest)
        (code ++ [.call value site])
  | .onClass isStatic lowersArgs packs, isDest, allows => by
      rw [Context.occurrences] at allows ⊢
      have tableEq : context.table = table := contextEq ▸ rfl
      rw [tableEq] at allows ⊢
      have hasArgs := lowersArgs.operands contextEq allows.left.left
      have argsRender := lowersArgs.renders contextEq allows.left.left
      subst contextEq
      apply (argsRender.append (packs.renders hasArgs)).concat
      apply Block.call _ (packs.operands hasArgs) isDest (Context.targetCallee?_selfTarget _ _)
        (returnTy_resultTy _)
      rw [Context.selfTarget, if_pos (by simpa using isStatic)]
      exact ⟨rfl, rfl⟩
  | .onSelf isInstance calleeInstance lowersArgs packs, isDest, allows => by
      rw [Context.occurrences] at allows ⊢
      have tableEq : context.table = table := contextEq ▸ rfl
      rw [tableEq] at allows ⊢
      have hasArgs := lowersArgs.operands contextEq allows.left.left
      have argsRender := lowersArgs.renders contextEq allows.left.left
      subst contextEq
      apply (argsRender.append (packs.renders hasArgs)).concat
      apply Block.call _ (packs.operands hasArgs) isDest (Context.targetCallee?_selfTarget _ _)
        (returnTy_resultTy _)
      rw [Context.selfTarget, if_neg (by simp [isInstance, calleeInstance])]
      exact ⟨rfl, ⟨rfl, allows (.inl isInstance)⟩, rfl⟩
  | .onNamed names lowersArgs packs, isDest, allows => by
      have reached := contextEq ▸ names
      simp only [Context.occurrences, reached] at allows ⊢
      rw [← contextEq] at allows
      have hasArgs := lowersArgs.operands rfl allows.left.left
      have argsRender := lowersArgs.renders contextEq (contextEq ▸ allows.left.left)
      subst contextEq
      apply (argsRender.append (packs.renders hasArgs)).concat
      exact .call ⟨rfl, rfl⟩ (packs.operands hasArgs) isDest rfl (returnTy_resultTy _)
  | .onObject namesNone lowersReceiver ownEq lowersArgs packs targetEq, isDest, allows => by
      have reached := lowersReceiver.context_eq contextEq
      have tableEq : context.table = table := contextEq ▸ rfl
      rw [contextEq] at namesNone
      simp only [Context.occurrences, namesNone, tableEq] at allows ⊢
      have hasObject := lowersReceiver.operand contextEq allows.left.left.left
      rw [hasObject.ty_eq, contextEq] at ownEq
      subst ownEq
      have hasArgs := lowersArgs.operands reached allows.left.left.right
      apply (((lowersReceiver.renders contextEq allows.left.left.left).append
        (lowersArgs.renders reached allows.left.left.right)).append (packs.renders hasArgs)).concat
      apply Block.call _ (packs.operands hasArgs) isDest
        (Context.targetCallee?_objectTarget _ _ _) (returnTy_resultTy _)
      rw [Context.objectTarget, tableEq]
      split at targetEq
      · next isStatic =>
          cases targetEq
          rw [if_pos isStatic]
          exact ⟨rfl, rfl⟩
      · next isInstance =>
          cases targetEq
          rw [if_neg isInstance]
          exact ⟨rfl, hasObject⟩

end

/-! ## Statements -/

theorem LowersCall.isCall {expr : Expr} {expected : Ty} {state after : LoweringState} {code : Code}
    {site : Call} (lowers : LowersCall table expr.unparen expected state code site after) :
    isCall expr = true := by
  unfold Semantics.isCall
  generalize expr.unparen = inner at lowers
  cases lowers <;> rfl

theorem LowersCall.writesInto {expr : Expr} {expected declared : Ty} {state after : LoweringState}
    {code : Code} {site : Call}
    (lowers : LowersCall table expr.unparen expected state code site after) :
    writesInto expr declared = true := by
  unfold Semantics.writesInto
  rw [lowers.isCall]
  generalize expr.unparen = inner at lowers
  cases lowers <;> rfl

/-- The code of a statement consists of the blocks of its occurrences. -/
theorem LowersStmt.renders {stmt : Stmt} {state after : LoweringState} {code : Code}
    (lowers : LowersStmt table stmt state code after) (contextEq : state.context table = context)
    (allows : AllowsSelf context hasSelf (context.stmtOccurrences stmt)) :
    Renders context hasSelf (context.stmtOccurrences stmt) code := by
  subst contextEq
  induction lowers with
  | @assignOperator target value left right name op _ _ _ _ _ targetEq resolves valueEq lowersLeft
      lowersRight =>
      have reached := lowersLeft.context_eq rfl
      have written : Semantics.writesInto value op.resultTy = true := by
        simp [Semantics.writesInto, valueEq]
      simp only [Context.stmtOccurrences, Context.assignOccurrences, targetEq, resolves,
        Context.variableOccurrences, written, if_true] at allows ⊢
      rw [← Context.occurrences_unparen, valueEq, Context.occurrences] at allows ⊢
      apply ((lowersLeft.renders rfl allows.left.left).append
        (lowersRight.renders reached allows.left.right)).concat
      exact .operator (lowersLeft.operand rfl allows.left.left)
        (lowersRight.operand reached allows.left.right) ⟨name, rfl, resolves⟩ rfl
  | assignCall targetEq resolves lowersCall =>
      simp only [Context.stmtOccurrences, Context.assignOccurrences, targetEq, resolves,
        Context.variableOccurrences, lowersCall.writesInto, if_true] at allows ⊢
      rw [← Context.occurrences_unparen] at allows ⊢
      exact lowersCall.renders rfl ⟨_, rfl, resolves⟩ allows
  | assignValue targetEq resolves apart lowers =>
      simp only [Context.stmtOccurrences, Context.assignOccurrences, targetEq, resolves,
        Context.variableOccurrences, apart, Bool.false_eq_true, if_false] at allows ⊢
      exact (lowers.renders rfl allows.left).concat
        (.assign resolves (lowers.operand rfl allows.left))
  | assignField targetEq resolves lowers =>
      simp only [Context.stmtOccurrences, Context.assignOccurrences, targetEq, resolves]
        at allows ⊢
      exact (lowers.renders rfl allows.left).concat
        (.assignField resolves (lowers.operand rfl allows.left))
  | assignElement targetEq lowers lowersArray lowersPosition =>
      have firstReached := lowers.context_eq rfl
      have secondReached := lowersArray.context_eq firstReached
      simp only [Context.stmtOccurrences, Context.assignOccurrences, targetEq] at allows ⊢
      have hasArray := lowersArray.operand firstReached allows.left.left.right
      apply (((lowers.renders rfl allows.left.left.left).append
        (lowersArray.renders firstReached allows.left.left.right)).append
        (lowersPosition.renders secondReached allows.left.right)).concat
      rw [hasArray.ty_eq]
      exact .assignElement hasArray (lowersPosition.operand secondReached allows.left.right)
        (lowers.operand rfl allows.left.left.left)
  | exprCall lowersCall =>
      rw [Context.stmtOccurrences, if_pos lowersCall.isCall, ← Context.occurrences_unparen]
        at allows ⊢
      exact lowersCall.renders rfl rfl allows
  | @exprValue expr _ _ _ noSelfCall noCall lowers =>
      have notCall : Semantics.isCall expr = false := by
        unfold Semantics.isCall
        split
        · next isCall => exact absurd isCall (noSelfCall _ _)
        · next isCall => exact absurd isCall (noCall _ _ _)
        · rfl
      rw [Context.stmtOccurrences, notCall] at allows ⊢
      exact lowers.renders rfl allows
  | @returnNothing value _ nothing =>
      rw [Context.stmtOccurrences]
      cases value with
      | none => exact .single .returnsNothing
      | some value =>
          have isMain := nothing.resolve_left (Option.some_ne_none value)
          rw [Context.returnOccurrences, signature_context, if_pos isMain]
          exact .single .returnsNothing
  | returnValue notMain lowers =>
      rw [Context.stmtOccurrences, Context.returnOccurrences, signature_context, notMain]
        at allows ⊢
      exact (lowers.renders rfl allows.left).concat (.returns (lowers.operand rfl allows.left))
  | ifElse lowersCond lowersElse lowersThen elseRenders thenRenders =>
      have reached := lowersElse.extends.context_eq.trans (lowersCond.context_eq rfl)
      rw [Context.stmtOccurrences] at allows ⊢
      rw [context_withLabels, lowersCond.context_eq rfl] at elseRenders
      rw [reached] at thenRenders
      apply Renders.followed _ (by simp [Instr.IsControl])
      apply Renders.append _ (thenRenders allows.right)
      apply Renders.followed _ (by simp [Instr.IsControl])
      apply Renders.append _ (elseRenders allows.left.right)
      exact (lowersCond.renders rfl allows.left.left.left).concat
        (.condition _ (lowersCond.operand rfl allows.left.left.left))
  | whileLoop lowersCond lowersBody bodyRenders =>
      rw [Context.stmtOccurrences] at allows ⊢
      rw [context_withTemp, lowersCond.context_eq rfl, context_withLabels] at bodyRenders
      apply Renders.followed _ (by simp [Instr.IsControl])
      apply Renders.append _ (bodyRenders allows.right)
      rw [List.append_cons]
      apply Renders.concat _ (.condition _ (operand_nextTemp _ _))
      apply Renders.concat _ (.negation _ (lowersCond.operand rfl allows.left.left))
      exact .control trivial (lowersCond.renders rfl allows.left.left)
  | blockNil _ => exact .nil
  | blockCons lowersFirst _ firstRenders restRenders =>
      rw [lowersFirst.extends.context_eq, Context.stmtOccurrences] at restRenders
      rw [Context.stmtOccurrences, Context.bodyOccurrences] at allows ⊢
      exact (firstRenders allows.left).append (restRenders allows.right)

/-- The body of a lowered method consists of the blocks of what occurs in its source. -/
theorem LowersMethod.exists_renders {decl : MethodDecl} {state after : LoweringState}
    {method : Method} {hasSelf : MethodSignature → Prop}
    (lowers : LowersMethod table decl state method after)
    (allows : ∀ signature ∈ table.method? decl.name, AllowsSelf ⟨table, signature⟩
      (hasSelf signature) ((Context.mk table signature).bodyOccurrences decl.body)) :
    ∃ signature code, table.method? decl.name = some signature ∧
      method = methodOf signature (definedTemps code) code ∧ Covered [] code ∧
      Renders ⟨table, signature⟩ (hasSelf signature)
        ((Context.mk table signature).bodyOccurrences decl.body) code := by
  cases lowers with
  | @intro signature _ last code found lowersBody =>
      have tempsEq : last.scope.temps = definedTemps code := lowersBody.takesTemps.scope_eq
      refine ⟨signature, code, found, congrArg (methodOf signature · code) tempsEq,
        lowersBody.covered, ?_⟩
      rw [← Context.stmtOccurrences]
      apply lowersBody.renders rfl
      rw [Context.stmtOccurrences]
      exact allows signature found

/-! ## Temporaries -/

/-- A block defines as many temporaries as its occurrence takes. -/
theorem Block.length_definedTemps {occurrence : Occurrence} {code : Code}
    (isBlock : Block context hasSelf occurrence code) :
    (definedTemps code).length = occurrence.tempCount := by
  cases isBlock with
  | @operator _ _ _ dest _ _ _ _ _ isDest _ =>
      cases dest with
      | temporary =>
          obtain ⟨name, destEq⟩ := isDest
          cases destEq
          rfl
      | into declared =>
          obtain ⟨name, destEq, _⟩ := isDest
          cases destEq
          rfl
      | dropped => cases isDest
  | @call _ _ _ _ _ dest _ _ _ _ _ _ isDest =>
      cases dest with
      | temporary =>
          obtain ⟨name, rfl⟩ := isDest
          rfl
      | into declared =>
          obtain ⟨name, rfl, _⟩ := isDest
          rfl
      | dropped =>
          cases isDest
          rfl
  | array =>
      rw [definedTemps_cons, definedTemps_elementStores]
      rfl
  | _ => rfl

/-- Code defines as many temporaries as its occurrences take. -/
theorem Renders.length_definedTemps {occurrences : List Occurrence} {code : Code}
    (renders : Renders context hasSelf occurrences code) :
    (definedTemps code).length = (occurrences.map Occurrence.tempCount).sum := by
  induction renders with
  | nil => rfl
  | block isBlock _ ih =>
      rw [definedTemps_append, List.length_append, isBlock.length_definedTemps,
        ih, List.map_cons, List.sum_cons]
  | @control _ instr _ isControl _ ih =>
      have defines : instr.definedTemp? = none := by
        cases instr with
        | label name => rfl
        | goto target => rfl
        | _ => exact isControl.elim
      rw [definedTemps_cons, defines]
      exact ih

end ClassCompiler.ThreeAddress
