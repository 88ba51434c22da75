import ClassCompiler.Proofs.Lowering.Correctness
import ClassCompiler.Proofs.Semantics.Coverage

/-!
# Temporaries of lowered code

A temporary is taken when the instruction that defines it is made, so the list of a
method's temporaries is the list of its definitions in code order. The operands of an
expression use temporaries that the code of this expression defines. That code is
straight, so every use finds its definition.
-/

namespace ClassCompiler.ThreeAddress

open LoweringState Semantics

variable {table : SymbolTable}

/-! ## Temporaries between two states -/

/-- The temporaries that were taken between two states. Their names are new and differ
from each other and from those of variables. -/
structure TakesTemps (table : SymbolTable) (state after : LoweringState) (temps : List Symbol) :
    Prop where
  grows : state.Extends after
  scope_eq : after.scope.temps = state.scope.temps ++ temps
  distinct : (temps.map Symbol.name).Nodup
  numbered : ∀ name ∈ temps.map Symbol.name, ∃ number, name = tempName number ∧
    state.names.temps ≤ number ∧ number < after.names.temps ∧
      name ∉ state.scope.takenNames table

theorem TakesTemps.refl (state : LoweringState) : TakesTemps table state state [] where
  grows := .refl state
  scope_eq := (List.append_nil _).symm
  distinct := List.nodup_nil
  numbered := nofun

theorem takesTemps_withTemp (state : LoweringState) (ty : Ty) :
    TakesTemps table state (state.withTemp table ty) [⟨tempName (state.tempNumber table), ty⟩] where
  grows := extends_withTemp table state ty
  scope_eq := rfl
  distinct := List.nodup_singleton _
  numbered := by
    intro name member
    rw [List.map_singleton, List.mem_singleton] at member
    subst member
    exact ⟨_, rfl, state.le_tempNumber table, Nat.lt_succ_self _,
      NameSupply.tempName_freeNumber_not_mem _ _⟩

theorem takesTemps_withLabels (state : LoweringState) (first second : LabelKind) :
    TakesTemps table state (state.withLabels first second) [] where
  grows := extends_withLabels state first second
  scope_eq := (List.append_nil _).symm
  distinct := List.nodup_nil
  numbered := nofun

theorem TakesTemps.trans {state middle after : LoweringState} {temps others : List Symbol}
    (first : TakesTemps table state middle temps) (second : TakesTemps table middle after others) :
    TakesTemps table state after (temps ++ others) where
  grows := first.grows.trans second.grows
  scope_eq := by rw [second.scope_eq, first.scope_eq, List.append_assoc]
  distinct := by
    rw [List.map_append]
    apply List.Nodup.append first.distinct second.distinct
    intro name inFirst inSecond
    obtain ⟨number, rfl, _, upper, _⟩ := first.numbered name inFirst
    obtain ⟨other, same, lower, _, _⟩ := second.numbered _ inSecond
    rw [tempName_inj] at same
    omega
  numbered := by
    intro name member
    rw [List.map_append, List.mem_append] at member
    rcases member with inFirst | inSecond
    · obtain ⟨number, nameEq, lower, upper, free⟩ := first.numbered name inFirst
      exact ⟨number, nameEq, lower, Nat.lt_of_lt_of_le upper second.grows.temps, free⟩
    · obtain ⟨number, nameEq, lower, upper, free⟩ := second.numbered name inSecond
      rw [first.grows.takenNames_eq] at free
      exact ⟨number, nameEq, first.grows.temps.trans lower, upper, free⟩

/-- One state is reached from another by taking temporaries and labels in its scope. -/
def Draws (table : SymbolTable) (state after : LoweringState) : Prop :=
  ∃ temps, TakesTemps table state after temps

theorem Draws.refl (state : LoweringState) : Draws table state state :=
  ⟨[], .refl state⟩

theorem Draws.trans {state middle after : LoweringState} (first : Draws table state middle)
    (second : Draws table middle after) : Draws table state after := by
  obtain ⟨temps, takesFirst⟩ := first
  obtain ⟨others, takesSecond⟩ := second
  exact ⟨temps ++ others, takesFirst.trans takesSecond⟩

theorem Draws.context_eq {state after : LoweringState} (draws : Draws table state after) :
    after.context table = state.context table := by
  obtain ⟨temps, takes⟩ := draws
  exact takes.grows.context_eq

/-- The temporaries that were taken are those behind the ones that were there. -/
theorem Draws.takesTemps_drop {state after : LoweringState} (draws : Draws table state after) :
    TakesTemps table state after (after.scope.temps.drop state.scope.temps.length) := by
  obtain ⟨temps, takes⟩ := draws
  rw [takes.scope_eq, List.drop_left]
  exact takes

/-! ## Definitions in code order -/

theorem definedTemps_elementStores (array : Value) (elem : Ty) (values : List Value) :
    definedTemps (elementStores array elem values) = [] := by
  rw [definedTemps, List.filterMap_eq_nil_iff]
  intro instr member
  obtain ⟨_, _, rfl⟩ := List.mem_map.mp member
  rfl

theorem definedTemps_packCode (elem : Ty) (values : List Value) (state : LoweringState) :
    definedTemps (packCode table elem values state) =
      [⟨tempName (state.tempNumber table), Ty.arrayOf elem.name⟩] :=
  congrArg _ (definedTemps_elementStores _ _ _)

/-- Code and then one instruction that defines the next temporary take the temporaries
of the code and that one. -/
theorem TakesTemps.define {state after : LoweringState} {code : Code}
    (takes : TakesTemps table state after (definedTemps code)) {instr : Instr} {ty : Ty}
    (defines : instr.definedTemp? = some ⟨tempName (after.tempNumber table), ty⟩) :
    TakesTemps table state (after.withTemp table ty) (definedTemps (code ++ [instr])) := by
  have instrDefines : definedTemps [instr] = [⟨tempName (after.tempNumber table), ty⟩] := by
    simp [definedTemps, defines]
  rw [definedTemps_append, instrDefines]
  exact takes.trans (takesTemps_withTemp after ty)

theorem TakesTemps.append {state middle after : LoweringState} {first second : Code}
    (takesFirst : TakesTemps table state middle (definedTemps first))
    (takesSecond : TakesTemps table middle after (definedTemps second)) :
    TakesTemps table state after (definedTemps (first ++ second)) := by
  rw [definedTemps_append]
  exact takesFirst.trans takesSecond

/-- An instruction that defines no temporary changes nothing. -/
theorem TakesTemps.concat {state after : LoweringState} {code : Code}
    (takes : TakesTemps table state after (definedTemps code)) {instr : Instr}
    (defines : instr.definedTemp? = none) :
    TakesTemps table state after (definedTemps (code ++ [instr])) := by
  have instrDefines : definedTemps [instr] = [] := by simp [definedTemps, defines]
  rw [definedTemps_append, instrDefines, List.append_nil]
  exact takes

theorem takesTemps_packCode (elem : Ty) (values : List Value) (state : LoweringState) :
    TakesTemps table state (state.withTemp table (Ty.arrayOf elem.name))
      (definedTemps (packCode table elem values state)) := by
  rw [definedTemps_packCode]
  exact takesTemps_withTemp _ _

theorem PacksArguments.takesTemps {own : Option MethodSignature} {values packed : List Value}
    {state after : LoweringState} {code : Code}
    (packs : PacksArguments table own values state code packed after) :
    TakesTemps table state after (definedTemps code) := by
  cases packs with
  | kept _ => exact .refl state
  | collected _ _ => exact takesTemps_packCode _ _ _

mutual

theorem LowersExpr.takesTemps {expr : Expr} {expected : Ty} {state after : LoweringState}
    {lowered : Lowered} :
    LowersExpr table expr expected state lowered after →
      TakesTemps table state after (definedTemps lowered.code)
  | .int _ _ _ | .bool _ _ _ | .string _ _ _ | .self _ _ | .declared _ => .refl _
  | .paren lowers => lowers.takesTemps
  | .field _ | .newObject _ _ _ => takesTemps_withTemp _ _
  | .binary lowersFirst lowersSecond | .index lowersFirst lowersSecond =>
      (lowersFirst.takesTemps.append lowersSecond.takesTemps).define rfl
  | .not lowers | .length lowers | .newArray lowers | .call lowers _ =>
      lowers.takesTemps.define rfl
  | .arrayInit lowersElements _ =>
      lowersElements.takesTemps.append (takesTemps_packCode _ _ _)

theorem LowersExprs.takesTemps {expectedAt : Nat → Ty} {exprs : List Expr}
    {state after : LoweringState} {code : Code} {values : List Value} :
    LowersExprs table expectedAt exprs state code values after →
      TakesTemps table state after (definedTemps code)
  | .nil _ _ => .refl _
  | .cons lowersFirst lowersRest => lowersFirst.takesTemps.append lowersRest.takesTemps

theorem LowersCall.takesTemps {expr : Expr} {expected : Ty} {state after : LoweringState}
    {code : Code} {site : Call} :
    LowersCall table expr expected state code site after →
      TakesTemps table state after (definedTemps code)
  | .onClass _ lowersArgs packs | .onSelf _ _ lowersArgs packs | .onNamed _ lowersArgs packs =>
      lowersArgs.takesTemps.append packs.takesTemps
  | .onObject _ lowersReceiver _ lowersArgs packs _ =>
      (lowersReceiver.takesTemps.append lowersArgs.takesTemps).append packs.takesTemps

end

/-- Steps keep all variables but the temporaries that they define. -/
theorem TakesTemps.kept_of_run {state after : LoweringState} {code : Code}
    (takes : TakesTemps table state after (definedTemps code))
    (steps : ∀ instr ∈ code, instr.IsStep) {world : World Scalar} {env : String → Val Scalar}
    {memory : Memory Scalar} {last : State Scalar}
    (run : runCode world false code ⟨env, memory⟩ = .ok () last) :
    Kept table state after env last.env := by
  intro name old
  refine spares_runCode (fun instr member => ?_) _ _ _ run
  refine spares_effect (fun ty destEq => old ?_) ((steps instr member).2 name)
  have defines : instr.definedTemp? = some ⟨name, ty⟩ := by
    simp [Instr.definedTemp?, destEq, Value.temp?]
  have among : name ∈ (definedTemps code).map Symbol.name :=
    List.mem_map.mpr ⟨⟨name, ty⟩, List.mem_filterMap.mpr ⟨instr, member, defines⟩, rfl⟩
  obtain ⟨number, nameEq, lower, upper, free⟩ := takes.numbered name among
  exact ⟨free, number, lower, upper, nameEq⟩

/-- A statement takes the temporaries that its code defines, in code order. -/
theorem LowersStmt.takesTemps {stmt : Stmt} {state after : LoweringState} {code : Code}
    (lowers : LowersStmt table stmt state code after) :
    TakesTemps table state after (definedTemps code) := by
  induction lowers with
  | assignOperator _ _ _ lowersLeft lowersRight =>
      exact (lowersLeft.takesTemps.append lowersRight.takesTemps).concat rfl
  | assignCall _ _ lowers | assignValue _ _ _ lowers | assignField _ _ lowers | exprCall lowers
  | returnValue _ lowers => exact lowers.takesTemps.concat rfl
  | assignElement _ lowers lowersArray lowersPosition =>
      exact ((lowers.takesTemps.append lowersArray.takesTemps).append
        lowersPosition.takesTemps).concat rfl
  | exprValue _ _ lowers => exact lowers.takesTemps
  | returnNothing _ => exact .refl _
  | ifElse lowersCond _ _ elseTakes thenTakes =>
      have branches := (takesTemps_withLabels _ _ _).trans (elseTakes.trans thenTakes)
      simpa [definedTemps_cons, Instr.definedTemp?, Instr.dest?] using
        lowersCond.takesTemps.trans branches
  | whileLoop lowersCond _ bodyTakes =>
      have condition := (takesTemps_withLabels _ _ _).trans lowersCond.takesTemps
      simpa [definedTemps_cons, Instr.definedTemp?, Instr.dest?, nextTemp, Value.temp?] using
        condition.trans ((takesTemps_withTemp _ _).trans bodyTakes)
  | blockNil _ => exact .refl _
  | blockCons _ _ firstTakes restTakes => exact firstTakes.append restTakes

/-! ## Uses -/

/-- Code defines every temporary before it uses it, and defines the temporaries that
stand in some values. -/
structure Supplies (code : Code) (values : List Value) : Prop where
  straight : ∀ instr ∈ code, instr.IsStraight
  covered : Covered [] code
  defined : ∀ value ∈ values, value.temps ⊆ definedTemps code

namespace Supplies

variable {code first second : Code} {values others : List Value}

theorem nil (noTemps : ∀ value ∈ values, value.temps = []) : Supplies [] values where
  straight := nofun
  covered := trivial
  defined value member := by simp [noTemps value member]

theorem empty : Supplies [] [] := .nil nofun

theorem append (suppliesFirst : Supplies first values) (suppliesSecond : Supplies second others) :
    Supplies (first ++ second) (values ++ others) where
  straight := List.forall_mem_append.mpr ⟨suppliesFirst.straight, suppliesSecond.straight⟩
  covered := suppliesFirst.covered.append suppliesSecond.covered
  defined value member := by
    rw [definedTemps_append]
    rcases List.mem_append.mp member with inFirst | inSecond
    · exact List.subset_append_of_subset_left _ (suppliesFirst.defined value inFirst)
    · exact List.subset_append_of_subset_right _ (suppliesSecond.defined value inSecond)

/-- The temporaries of values that were supplied are known behind the code. -/
theorem covered_concat (supplies : Supplies code values) {instr : Instr}
    (used : instr.usedTemps ⊆ values.flatMap Value.temps) : Covered [] (code ++ [instr]) := by
  rw [covered_append, foldl_knownAfter_of_isStraight supplies.straight]
  refine ⟨supplies.covered, ?_, trivial⟩
  intro temp member
  obtain ⟨value, valueMember, stands⟩ := List.mem_flatMap.mp (used member)
  exact supplies.defined value valueMember stands

/-- An instruction uses values that were supplied and supplies its destination. -/
theorem define (supplies : Supplies code values) {instr : Instr} {name : String} {ty : Ty}
    (straight : instr.IsStraight) (used : instr.usedTemps ⊆ values.flatMap Value.temps)
    (defines : instr.definedTemp? = some ⟨name, ty⟩) :
    Supplies (code ++ [instr]) [.temp name ty] where
  straight := List.forall_mem_append.mpr ⟨supplies.straight, by simpa using straight⟩
  covered := supplies.covered_concat used
  defined value member := by
    rw [List.mem_singleton] at member
    subst member
    simp [definedTemps_cons, defines, Value.temps]

/-- What was supplied stays so behind an instruction that uses it. -/
theorem use (supplies : Supplies code values) {instr : Instr} (straight : instr.IsStraight)
    (used : instr.usedTemps ⊆ values.flatMap Value.temps) : Supplies (code ++ [instr]) values where
  straight := List.forall_mem_append.mpr ⟨supplies.straight, by simpa using straight⟩
  covered := supplies.covered_concat used
  defined value member := by
    rw [definedTemps_append]
    exact List.subset_append_of_subset_left _ (supplies.defined value member)

theorem weaken (supplies : Supplies code values) (subset : others ⊆ values) :
    Supplies code others :=
  ⟨supplies.straight, supplies.covered, fun value member => supplies.defined value (subset member)⟩

/-- An operand without temporaries needs no supply. -/
theorem cons (supplies : Supplies code values) {value : Value} (noTemps : value.temps = []) :
    Supplies code (value :: values) where
  straight := supplies.straight
  covered := supplies.covered
  defined other member := by
    rcases List.mem_cons.mp member with rfl | among
    · simp [noTemps]
    · exact supplies.defined other among

/-- Packed values were supplied, and the array is supplied then. -/
theorem pack (supplies : Supplies code values) {packed : List Value} (among : packed ⊆ values)
    (elem : Ty) (state : LoweringState) :
    Supplies (code ++ packCode table elem packed state)
      (values ++ [state.nextTemp table (Ty.arrayOf elem.name)]) where
  straight := List.forall_mem_append.mpr ⟨supplies.straight,
    fun instr member => (isStep_of_mem_packCode instr member).1⟩
  covered := by
    rw [covered_append, foldl_knownAfter_of_isStraight supplies.straight]
    refine ⟨supplies.covered, List.nil_subset _, covered_of_isStraight ?_ ?_⟩
    · intro instr member
      obtain ⟨_, _, rfl⟩ := List.mem_map.mp member
      trivial
    · intro instr member
      obtain ⟨⟨value, position⟩, stored, rfl⟩ := List.mem_map.mp member
      have known := supplies.defined value (among (List.fst_mem_of_mem_zipIdx stored))
      simp only [Instr.usedTemps, Instr.sources, List.flatMap_cons, List.flatMap_nil,
        List.append_nil, List.append_subset]
      refine ⟨List.subset_append_right _ _, List.nil_subset _, ?_⟩
      exact List.subset_append_of_subset_left _ known
  defined value member := by
    rw [definedTemps_append, definedTemps_packCode]
    rcases List.mem_append.mp member with before | isArray
    · exact List.subset_append_of_subset_left _ (supplies.defined value before)
    · rw [List.mem_singleton] at isArray
      subst isArray
      exact List.subset_append_right _ _

end Supplies

theorem PacksArguments.supplies {own : Option MethodSignature} {objects values packed : List Value}
    {state after : LoweringState} {code packing : Code}
    (packs : PacksArguments table own values state packing packed after)
    (supplied : Supplies code (objects ++ values)) :
    Supplies (code ++ packing) (objects ++ packed) := by
  cases packs with
  | kept _ => rwa [List.append_nil]
  | @collected fixed elem _ _ =>
      have among : values.drop fixed ⊆ objects ++ values :=
        List.subset_append_of_subset_right _ (List.drop_subset _ _)
      apply (supplied.pack among elem state).weaken
      intro value member
      simp only [List.mem_append] at member ⊢
      have taken := List.take_subset fixed values
      tauto

mutual

/-- The code of an expression supplies its operand. -/
theorem LowersExpr.supplies {expr : Expr} {expected : Ty} {state after : LoweringState}
    {lowered : Lowered} :
    LowersExpr table expr expected state lowered after → Supplies lowered.code [lowered.value]
  | .int _ _ _ => .nil (by simp [Value.int, Value.temps])
  | .bool _ _ _ => .nil (by simp [Value.bool, Value.temps])
  | .string _ _ _ => .nil (by simp [Value.string, Value.temps])
  | .self _ _ => .nil (by simp [selfValue, Value.temps])
  | .paren lowers => lowers.supplies
  | .declared _ => .nil (by simp [Value.temps])
  | .field _ => Supplies.empty.define trivial (List.nil_subset _) rfl
  | .binary lowersLeft lowersRight =>
      (lowersLeft.supplies.append lowersRight.supplies).define trivial (List.Subset.refl _) rfl
  | .index lowersArray lowersPosition =>
      (lowersArray.supplies.append lowersPosition.supplies).define trivial
        (by simp [nextTemp, Instr.usedTemps, Instr.sources, Value.temps]) rfl
  | .not lowers | .length lowers | .newArray lowers | .call lowers _ =>
      lowers.supplies.define trivial (List.Subset.refl _) rfl
  | .arrayInit lowersElements _ =>
      (lowersElements.supplies.pack (List.Subset.refl _) _ _).weaken (List.subset_append_right _ _)
  | .newObject className _ state => by
      have created : Supplies [.call (some (state.nextTemp table (Ty.named className)))
          (.newObject className)] [state.nextTemp table (Ty.named className)] :=
        Supplies.empty.define trivial (List.nil_subset _) rfl
      exact created.use trivial (List.Subset.refl _)

/-- The code of expressions supplies their operands. -/
theorem LowersExprs.supplies {expectedAt : Nat → Ty} {exprs : List Expr}
    {state after : LoweringState} {code : Code} {values : List Value} :
    LowersExprs table expectedAt exprs state code values after → Supplies code values
  | .nil _ _ => .nil nofun
  | .cons lowersFirst lowersRest => lowersFirst.supplies.append lowersRest.supplies

/-- The code before a call supplies its target and its arguments. -/
theorem LowersCall.supplies {expr : Expr} {expected : Ty} {state after : LoweringState}
    {code : Code} {site : Call} :
    LowersCall table expr expected state code site after →
      Supplies code (site.target.toList ++ site.args)
  | .onClass _ lowersArgs packs | .onSelf _ _ lowersArgs packs | .onNamed _ lowersArgs packs =>
      packs.supplies (lowersArgs.supplies.cons rfl)
  | .onObject _ lowersReceiver _ lowersArgs packs targetEq => by
      have supplied := packs.supplies (lowersReceiver.supplies.append lowersArgs.supplies)
      split at targetEq
      · cases targetEq
        exact (supplied.weaken (List.subset_append_right _ _)).cons rfl
      · cases targetEq
        exact supplied

end

/-- The code of a statement uses no temporary that it has not defined. -/
theorem LowersStmt.covered {stmt : Stmt} {state after : LoweringState} {code : Code}
    (lowers : LowersStmt table stmt state code after) : Covered [] code := by
  induction lowers with
  | assignOperator _ _ _ lowersLeft lowersRight =>
      exact (lowersLeft.supplies.append lowersRight.supplies).covered_concat (List.Subset.refl _)
  | assignCall _ _ lowers | assignValue _ _ _ lowers | exprCall lowers | returnValue _ lowers =>
      exact lowers.supplies.covered_concat (List.Subset.refl _)
  | assignField _ _ lowers =>
      exact lowers.supplies.covered_concat (by simp [Instr.usedTemps, Instr.sources, selfValue,
        Value.temps])
  | assignElement _ lowers lowersArray lowersPosition =>
      apply ((lowers.supplies.append lowersArray.supplies).append
        lowersPosition.supplies).covered_concat
      intro temp member
      simp only [Instr.usedTemps, Instr.sources, List.flatMap_cons, List.flatMap_nil,
        List.append_nil, List.flatMap_append, List.mem_append] at member ⊢
      tauto
  | exprValue _ _ lowers => exact lowers.supplies.covered
  | returnNothing _ => exact ⟨List.nil_subset _, trivial⟩
  | @ifElse _ _ _ _ first _ _ lowered _ _ lowersCond _ _ elseCovered thenCovered =>
      have condition : Covered []
          (lowered.code ++ [.branch lowered.value (first.nextLabel .ifThen)]) :=
        lowersCond.supplies.covered_concat (List.Subset.refl _)
      have labels : Covered [] [.goto (first.nextLabel .ifEnd), .label (first.nextLabel .ifThen)] :=
        ⟨List.nil_subset _, List.nil_subset _, trivial⟩
      exact (((condition.append elseCovered).append labels).append thenCovered).append
        ⟨List.nil_subset _, trivial⟩
  | @whileLoop _ _ state first _ lowered _ lowersCond _ bodyCovered =>
      have negated : Supplies
          (lowered.code ++ [.not (first.nextTemp table Ty.boolean) lowered.value])
          [first.nextTemp table Ty.boolean] :=
        lowersCond.supplies.define trivial (List.Subset.refl _) rfl
      have condition : Covered []
          (lowered.code ++ [.not (first.nextTemp table Ty.boolean) lowered.value] ++
            [.branch (first.nextTemp table Ty.boolean) (state.nextLabel .whileEnd)]) :=
        negated.covered_concat (List.Subset.refl _)
      have start : Covered [] [.label (state.nextLabel .whileCond)] := ⟨List.nil_subset _, trivial⟩
      have labels : Covered []
          [.goto (state.nextLabel .whileCond), .label (state.nextLabel .whileEnd)] :=
        ⟨List.nil_subset _, List.nil_subset _, trivial⟩
      simpa only [List.append_assoc] using
        ((start.append condition).append bodyCovered).append labels
  | blockNil _ => trivial
  | blockCons _ _ firstCovered restCovered => exact firstCovered.append restCovered

/-! ## Methods -/

theorem covered_completeBody (signature : MethodSignature) {code : Code}
    (covered : Covered [] code) : Covered [] (completeBody signature code) := by
  rw [completeBody_eq]
  split
  · exact covered.append ⟨List.nil_subset _, trivial⟩
  · exact covered

theorem definedTemps_completeBody (signature : MethodSignature) (code : Code) :
    definedTemps (completeBody signature code) = definedTemps code := by
  rw [completeBody_eq]
  split
  · exact definedTemps_append _ _ |>.trans (List.append_nil _)
  · rfl

/-- The temporaries of a method are those that its body defines, each of them once and
in body order, and on every path through the body a temporary is defined before it is
used. -/
theorem temps_defined_once_before_use_of_lowerMethod {decl : MethodDecl}
    {state after : LoweringState} {method : Method}
    (lowered : lowerMethod table decl state = .ok method after) :
    definedTemps method.body = method.temps ∧ (method.temps.map Symbol.name).Nodup ∧
      ∀ passed place instr, Path method.body passed place → method.body[place]? = some instr →
        ∀ temp ∈ instr.usedTemps, DefinedAmong method.body passed temp := by
  have lowersMethod := lowersMethod_of_eq_ok lowered
  cases lowersMethod with
  | @intro signature _ last code found lowers =>
      have takes := lowers.takesTemps
      have tempsEq : last.scope.temps = definedTemps code := takes.scope_eq
      refine ⟨?_, ?_, ?_⟩
      · exact (definedTemps_completeBody signature code).trans tempsEq.symm
      · exact tempsEq ▸ takes.distinct
      · intro passed place instr path atPlace temp used
        exact (covered_completeBody signature lowers.covered).definedAmong path atPlace used

/-- The temporaries of the loop of the counting method: the comparison, its negation,
and the result of the call. -/
theorem temps_defined_once_before_use_countingMethod :
    ∃ method after,
      lowerMethod (.ofProgram countingProgram) countingMethod {} = .ok method after ∧
      method.temps.length = 3 ∧ definedTemps method.body = method.temps ∧
      (method.temps.map Symbol.name).Nodup ∧
      ∀ passed place instr, Path method.body passed place → method.body[place]? = some instr →
        ∀ temp ∈ instr.usedTemps, DefinedAmong method.body passed temp := by
  have lowers : ∃ method after,
      lowerMethod (.ofProgram countingProgram) countingMethod {} = .ok method after ∧
        method.temps.length = 3 := ⟨_, _, rfl, rfl⟩
  obtain ⟨method, after, lowered, three⟩ := lowers
  exact ⟨method, after, lowered, three, temps_defined_once_before_use_of_lowerMethod lowered⟩

end ClassCompiler.ThreeAddress
