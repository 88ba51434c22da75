import ClassCompiler.Proofs.Categories.Operations
import ClassCompiler.Proofs.Categories.Slots

/-!
# Well-typed programs have category-safe code

What the instructions of a lowered method name are declared variables, temporaries and
the current object of an instance method. All of them have slots of their categories, and
the operands of a well-typed program are of the categories that its instructions take. So
its code is category-safe, unless the class has the name of a built-in type: then the
current object is passed for an integer.
-/

namespace ClassCompiler.ThreeAddress

open Semantics (AllOf Context Dest Occurrence valueTypeNames)
open StackCode (HasCategories IsEmittable KeptIn Loadable StoredIn getElem?_slotCategories
  returnCategory returnedCategory slotCategories slotNames valueCategory)

variable {context : Context} {hasSelf : Prop} {slots : List StackCode.Category}
  {names : List String}

/-! ## Slots -/

/-- What instructions name: operands, classes, and elements of operands. -/
def IsNamed (context : Context) (hasSelf : Prop) : Value → Prop
  | .classRef _ => True
  | .element array position _ =>
      IsOperand context hasSelf array ∧ IsOperand context hasSelf position
  | value => IsOperand context hasSelf value

theorem IsOperand.isNamed {value : Value} (isOperand : IsOperand context hasSelf value) :
    IsNamed context hasSelf value := by
  cases value with
  | classRef name => trivial
  | element array position ty => exact isOperand.elim
  | _ => exact isOperand

theorem IsDest.isNamed {ty : Ty} {dest : Dest} {value : Option Value}
    (isDest : IsDest context ty dest value) : ∀ found ∈ value, IsNamed context hasSelf found := by
  rintro found ⟨rfl⟩
  cases dest with
  | temporary =>
      obtain ⟨name, valueEq⟩ := isDest
      cases valueEq
      trivial
  | into declared =>
      obtain ⟨name, valueEq, resolves⟩ := isDest
      cases valueEq
      exact resolves
  | dropped => cases isDest

/-- The instructions of a block read operands, and write to temporaries, declared
variables and elements. -/
theorem Block.isNamed {occurrence : Occurrence} {code : Code}
    (isBlock : Block context hasSelf occurrence code)
    (isInstance : context.signature.isStatic = false → hasSelf) :
    ∀ instr ∈ code, (∀ value ∈ instr.sources, IsNamed context hasSelf value) ∧
      ∀ value ∈ instr.dest?, IsNamed context hasSelf value := by
  have inTemp {name : String} {ty : Ty} :
      ∀ value ∈ some (Value.temp name ty), IsNamed context hasSelf value := by
    rintro _ ⟨rfl⟩
    trivial
  have hasField {name : String} {ty : Ty} (resolves : context.resolve? name = some (.field ty)) :
      IsNamed context hasSelf (selfValue context.table) :=
    ⟨rfl, isInstance (Context.exists_field_of_resolve resolves).1⟩
  cases isBlock with
  | self | declared => exact List.forall_mem_nil _
  | field dest resolves =>
      rw [List.forall_mem_singleton]
      exact ⟨List.forall_mem_singleton.mpr (hasField resolves), inTemp⟩
  | operator hasLeft hasRight isDest _ =>
      rw [List.forall_mem_singleton]
      refine ⟨List.forall_mem_cons.mpr ⟨hasLeft.isOperand.isNamed, ?_⟩, isDest.isNamed⟩
      exact List.forall_mem_singleton.mpr hasRight.isOperand.isNamed
  | negation dest hasOperand =>
      rw [List.forall_mem_singleton]
      exact ⟨List.forall_mem_singleton.mpr hasOperand.isOperand.isNamed, inTemp⟩
  | element dest hasArray hasPosition =>
      rw [List.forall_mem_singleton]
      exact ⟨List.forall_mem_singleton.mpr ⟨hasArray.isOperand, hasPosition.isOperand⟩, inTemp⟩
  | length dest hasArray =>
      rw [List.forall_mem_singleton]
      exact ⟨List.forall_mem_singleton.mpr hasArray.isOperand.isNamed, inTemp⟩
  | newArray dest hasSize =>
      rw [List.forall_mem_singleton]
      exact ⟨List.forall_mem_singleton.mpr hasSize.isOperand.isNamed, inTemp⟩
  | @array elem tys values dest hasValues =>
      rw [List.forall_mem_cons]
      refine ⟨⟨List.forall_mem_singleton.mpr trivial, inTemp⟩, ?_⟩
      intro instr member
      obtain ⟨⟨value, position⟩, valueMember, rfl⟩ := List.mem_map.mp member
      have isOperand := hasValues.isOperand value (List.fst_mem_of_mem_zipIdx valueMember)
      constructor
      · refine List.forall_mem_cons.mpr ⟨trivial, List.forall_mem_cons.mpr ⟨trivial, ?_⟩⟩
        exact List.forall_mem_singleton.mpr isOperand.isNamed
      · rintro _ ⟨rfl⟩
        exact ⟨trivial, trivial⟩
  | newObject className dest =>
      rw [List.forall_mem_cons, List.forall_mem_singleton]
      exact ⟨⟨List.forall_mem_singleton.mpr trivial, inTemp⟩,
        List.forall_mem_singleton.mpr trivial, nofun⟩
  | @call own target _ _ _ _ mode object values value isReceiver hasValues isDest =>
      have objectNamed : IsNamed context hasSelf object := by
        cases target with
        | onClass className =>
            obtain ⟨_, rfl⟩ := isReceiver
            trivial
        | onObject ty => exact isReceiver.2.isOperand.isNamed
      rw [List.forall_mem_singleton]
      refine ⟨List.forall_mem_cons.mpr ⟨objectNamed, ?_⟩, isDest.isNamed⟩
      exact fun argument member => (hasValues.isOperand argument member).isNamed
  | assign resolves hasValue =>
      rw [List.forall_mem_singleton]
      refine ⟨List.forall_mem_singleton.mpr hasValue.isOperand.isNamed, ?_⟩
      rintro _ ⟨rfl⟩
      exact resolves
  | assignField resolves hasValue =>
      rw [List.forall_mem_singleton]
      refine ⟨List.forall_mem_cons.mpr ⟨hasField resolves, ?_⟩, nofun⟩
      exact List.forall_mem_singleton.mpr hasValue.isOperand.isNamed
  | assignElement hasArray hasPosition hasValue =>
      rw [List.forall_mem_singleton]
      refine ⟨List.forall_mem_cons.mpr ⟨hasArray.isOperand.isNamed, List.forall_mem_cons.mpr
        ⟨hasPosition.isOperand.isNamed, List.forall_mem_singleton.mpr
          hasValue.isOperand.isNamed⟩⟩, ?_⟩
      rintro _ ⟨rfl⟩
      exact ⟨hasArray.isOperand, hasPosition.isOperand⟩
  | condition label hasCond =>
      rw [List.forall_mem_singleton]
      exact ⟨List.forall_mem_singleton.mpr hasCond.isOperand.isNamed, nofun⟩
  | returnsNothing =>
      rw [List.forall_mem_singleton]
      exact ⟨List.forall_mem_nil _, nofun⟩
  | returns hasValue =>
      rw [List.forall_mem_singleton]
      exact ⟨List.forall_mem_singleton.mpr hasValue.isOperand.isNamed, nofun⟩

/-- Temporaries that have slots of their categories. -/
def HasTempCategories (slots : List StackCode.Category) (names : List String)
    (temps : List Symbol) : Prop :=
  ∀ temp ∈ temps, slots[names.idxOf temp.name]? = some (valueCategory temp.ty)

/-- The declared variables and the current object have slots of their categories. -/
structure HasSlotCategories (context : Context) (hasSelf : Prop)
    (slots : List StackCode.Category) (names : List String) : Prop where
  self : hasSelf → slots[0]? = some .ref
  declared : ∀ {name ty}, context.resolve? name = some (.declared ty) →
    slots[names.idxOf name]? = some (valueCategory ty)

theorem IsOperand.keptIn {value : Value} (isOperand : IsOperand context hasSelf value)
    (categories : HasSlotCategories context hasSelf slots names)
    (tempCategories : HasTempCategories slots names value.temps) : KeptIn slots names value := by
  cases value with
  | temp name ty => exact tempCategories ⟨name, ty⟩ (List.mem_singleton_self _)
  | var name ty => exact categories.declared isOperand
  | const value => trivial
  | self ty => exact categories.self isOperand.2
  | classRef name => trivial
  | element array position ty => exact isOperand.elim

theorem IsNamed.keptIn {value : Value} (isNamed : IsNamed context hasSelf value)
    (categories : HasSlotCategories context hasSelf slots names)
    (tempCategories : HasTempCategories slots names value.temps) : KeptIn slots names value := by
  cases value with
  | classRef name => trivial
  | element array position ty =>
      obtain ⟨arrayCategories, positionCategories⟩ := List.forall_mem_append.mp tempCategories
      exact ⟨isNamed.1.keptIn categories arrayCategories,
        isNamed.2.keptIn categories positionCategories⟩
  | temp name ty | var name ty | self ty => exact IsOperand.keptIn isNamed categories tempCategories
  | const value => trivial

theorem IsNamed.storedIn {value : Value} (isNamed : IsNamed context hasSelf value)
    (categories : HasSlotCategories context hasSelf slots names)
    (tempCategories : HasTempCategories slots names value.temp?.toList) :
    StoredIn slots names value := by
  cases value with
  | temp name ty => exact tempCategories ⟨name, ty⟩ (List.mem_singleton_self _)
  | var name ty => exact categories.declared isNamed
  | _ => trivial

/-! ## Results -/

/-- A return stands in the block of a return only. -/
theorem Block.eq_returns {occurrence : Occurrence} {code : Code}
    (isBlock : Block context hasSelf occurrence code) {value : Option Value}
    (member : .ret value ∈ code) :
    occurrence = .returns (value.map Value.ty) ∧
      ∀ found ∈ value, Operand context hasSelf found.ty found := by
  cases isBlock with
  | self => cases member
  | declared => cases member
  | array =>
      rcases List.mem_cons.mp member with same | later
      · cases same
      · obtain ⟨_, _, same⟩ := List.mem_map.mp later
        cases same
  | newObject =>
      rcases List.mem_cons.mp member with same | later
      · cases same
      · cases List.mem_singleton.mp later
  | returnsNothing =>
      cases List.mem_singleton.mp member
      exact ⟨rfl, nofun⟩
  | returns hasValue =>
      cases List.mem_singleton.mp member
      obtain ⟨isOperand, rfl⟩ := hasValue
      refine ⟨rfl, ?_⟩
      rintro _ ⟨rfl⟩
      exact ⟨isOperand, rfl⟩
  | _ => cases List.mem_singleton.mp member

/-- An operand that can be pushed is a value, unless the class is called `void`. -/
theorem Operand.isVoid_eq_false {ty : Ty} {value : Value}
    (hasValue : Operand context hasSelf ty value)
    (named : context.table.className ∉ valueTypeNames) (loadable : Loadable names value) :
    value.ty.isVoid = false := by
  cases value with
  | temp name ty | var name ty => exact loadable.2
  | const value => cases value <;> rfl
  | self ty =>
      obtain ⟨⟨rfl, _⟩, _⟩ := hasValue
      apply Semantics.isVoid_of_name_ne
      intro isVoid
      change context.table.className = "void" at isVoid
      rw [isVoid] at named
      exact named (by decide)
  | classRef name => exact loadable.elim
  | element array position ty => exact hasValue.isOperand.elim

/-! ## Methods -/

/-- The instructions in the block of a well-typed operation have the right operands. -/
theorem Block.hasCategories {occurrence : Occurrence} {code : Code} {method : Method}
    (isBlock : Block context hasSelf occurrence code)
    (named : context.table.className ∉ valueTypeNames)
    (typed : occurrence.KeepsCategories context.signature)
    (isInstance : context.signature.isStatic = false → hasSelf)
    (mainEq : method.isMain = context.signature.isMain)
    (returnTyEq : method.returnTy = context.signature.returnTy)
    (categories : HasSlotCategories context hasSelf (slotCategories method) (slotNames method))
    (emittable : ∀ instr ∈ code, StackCode.Emittable method.isMain (slotNames method) instr)
    {instr : Instr} (member : instr ∈ code)
    (usedCategories : HasTempCategories (slotCategories method) (slotNames method)
      instr.usedTemps)
    (definedCategories : HasTempCategories (slotCategories method) (slotNames method)
      instr.definedTemp?.toList) : HasCategories method instr := by
  obtain ⟨sourcesNamed, destNamed⟩ := isBlock.isNamed isInstance instr member
  constructor
  · exact isBlock.agrees named typed emittable instr member
  · intro value source
    exact (sourcesNamed value source).keptIn categories fun temp used =>
      usedCategories temp (Instr.temps_subset source used)
  · intro value isDest
    apply (destNamed value isDest).storedIn categories
    rwa [Instr.definedTemp?, isDest] at definedCategories
  · rintro value rfl
    obtain ⟨rfl, hasValue⟩ := isBlock.eq_returns member
    rw [returnCategory, mainEq, returnTyEq]
    rcases typed with isMain | returnsValue
    · cases value with
      | none | some value => rw [isMain]; rfl
    · cases value with
      | none =>
          change context.signature.returnTy.isVoid = true at returnsValue
          rw [returnsValue, Bool.or_true]
          rfl
      | some value =>
          obtain ⟨notVoid, sameCategory⟩ := returnsValue
          cases isMain : context.signature.isMain with
          | true => rfl
          | false =>
              have notMain : ¬method.isMain = true := by
                rw [mainEq, isMain]
                exact Bool.false_ne_true
              have loadable := (emittable _ member).1.resolve_left notMain
              rw [returnedCategory, notVoid, (hasValue value rfl).isVoid_eq_false named loadable]
              exact congrArg some sameCategory

theorem Instr.IsControl.hasCategories {instr : Instr} (isControl : instr.IsControl)
    (method : Method) : HasCategories method instr := by
  cases instr with
  | label name | goto target => exact ⟨trivial, List.forall_mem_nil _, nofun, nofun⟩
  | _ => exact isControl.elim

/-- The operands of a well-typed method are of the categories that its instructions
take. -/
theorem LowersMethod.hasCategories {table : SymbolTable} {decl : MethodDecl}
    {state after : LoweringState} {method : Method}
    (lowers : LowersMethod table decl state method after)
    (named : table.className ∉ valueTypeNames)
    (typed : ∀ signature ∈ table.method? decl.name, AllOf (Occurrence.KeepsCategories signature)
      ((Context.mk table signature).bodyOccurrences decl.body))
    (isEmittable : IsEmittable method) : ∀ instr ∈ method.body, HasCategories method instr := by
  have allows (signature : MethodSignature) (found : signature ∈ table.method? decl.name) :
      AllowsSelf ⟨table, signature⟩ (signature.isStatic = false)
        ((Context.mk table signature).bodyOccurrences decl.body) := by
    rintro (isInstance | occurs)
    · exact isInstance
    · exact typed signature found .self occurs
  obtain ⟨signature, code, found, rfl, covered, renders⟩ := lowers.exists_renders allows
  have slotOf {symbol : Symbol}
      (member : symbol ∈ (methodOf signature (definedTemps code) code).allVariables) :=
    getElem?_slotCategories isEmittable.distinct member
  have categories : HasSlotCategories ⟨table, signature⟩ (signature.isStatic = false)
      (slotCategories (methodOf signature (definedTemps code) code))
      (slotNames (methodOf signature (definedTemps code) code)) := by
    constructor
    · intro isInstance
      simp [slotCategories, methodOf, isInstance]
    · intro name ty resolves
      obtain ⟨symbol, member, rfl, rfl⟩ := Context.exists_symbol_of_resolve resolves
      exact slotOf (List.mem_append_left _ member)
  intro instr member
  rcases mem_of_mem_completeBody member with inCode | ⟨rfl, hasNoResult⟩
  · rcases renders.exists_block_of_mem inCode with
      isControl | ⟨occurrence, occurs, block, inside, isBlock, inBlock⟩
    · exact isControl.hasCategories _
    · apply isBlock.hasCategories named (typed signature found occurrence occurs) id rfl rfl
        categories _ inBlock
      · intro temp used
        exact slotOf (List.mem_append_right _ (covered.usedTemps_subset inCode used))
      · intro temp defined
        have defines := List.mem_filterMap.mpr ⟨instr, inCode, Option.mem_toList.mp defined⟩
        exact slotOf (List.mem_append_right _ defines)
      · intro other otherMember
        exact isEmittable.emittable other (mem_completeBody_of_mem (inside otherMember))
  · exact StackCode.hasCategories_return hasNoResult

theorem hasCategories_constructorOf (table : SymbolTable) :
    ∀ instr ∈ (constructorOf table).body, HasCategories (constructorOf table) instr := by
  refine List.forall_mem_cons.mpr ⟨?_, List.forall_mem_singleton.mpr ?_⟩
  · refine ⟨⟨⟨fun _ => ⟨trivial, rfl⟩, List.forall_mem_nil _⟩, nofun⟩, ?_, nofun, nofun⟩
    exact List.forall_mem_singleton.mpr rfl
  · exact StackCode.hasCategories_return (Bool.or_true _)

end ClassCompiler.ThreeAddress

namespace ClassCompiler

open Semantics (HeedsReferences IsWellTyped valueTypeNames)
open StackCode (IsCategorySafe PlainClass PlainOptions methodHeader readBlocks readListing)

/-- In the listing of a well-typed program with plain names, the blocks are those of its
methods in order, and their code is category-safe, if the class is not named like a built-in
type and no types of references are overlooked. -/
theorem category_safe_of_compile {options : Options} {table : SymbolTable} {program : Program}
    {compiled : Compiled} (run : compile options table program = .ok compiled)
    (plainOptions : PlainOptions options) (plain : PlainClass compiled.unit)
    (named : table.className ∉ valueTypeNames) (typed : IsWellTyped table program)
    (heeds : HeedsReferences table program) :
    ∃ blocks, readListing compiled.assembly = some blocks ∧
      List.Forall₂ (fun method block =>
          block.header = (methodHeader (.ofClass compiled.unit) method).text ∧
          IsCategorySafe method block.lines)
        compiled.unit.methods blocks := by
  obtain ⟨lowered, file, isWritten⟩ := compile_eq_ok_iff.mp run
  have read := isWritten.readListing_assembly plainOptions plain
  obtain ⟨last, generated⟩ := isWritten.generated
  obtain ⟨methods, _, lowers, unitEq⟩ := ThreeAddress.exists_lowersMethods_of_lowerFresh lowered
  obtain ⟨_, codes, generates, rfl⟩ := StackCode.generateClass_eq_ok_iff.mp generated
  refine ⟨_, read, List.forall₂_map_right_iff.mpr (generates.forall₂ ?_)⟩
  intro method member isEmittable counts
  rw [unitEq] at member
  refine ⟨rfl, StackCode.isCategorySafe_generatedMethod ?_ isEmittable
    (StackCode.jumpsInside_of_mem_classOf lowers member)
    (StackCode.not_isComparisonLabel_of_mem_classOf lowers member) counts⟩
  rcases List.mem_cons.mp member with rfl | later
  · exact ThreeAddress.hasCategories_constructorOf table
  · obtain ⟨decl, declMember, _, _, lowersMethod⟩ := lowers.exists_decl later
    refine lowersMethod.hasCategories named (fun signature found => ?_) isEmittable
    exact Semantics.Context.keepsCategories_bodyOccurrences named decl.body
      (typed decl declMember signature found) (heeds decl declMember signature found)

/-- Arithmetic, comparisons, elements of arrays, fields and calls with trailing
arguments. -/
theorem category_safe_ledgerProgram :
    PlainOptions {} ∧ "Ledger" ∉ valueTypeNames ∧
      IsWellTyped (.ofProgram ledgerProgram) ledgerProgram ∧
      HeedsReferences (.ofProgram ledgerProgram) ledgerProgram ∧
      ∃ compiled, compile {} (.ofProgram ledgerProgram) ledgerProgram = .ok compiled ∧
        PlainClass compiled.unit ∧
        ∃ blocks, readListing compiled.assembly = some blocks ∧
          List.Forall₂ (fun method block =>
              block.header = (methodHeader (.ofClass compiled.unit) method).text ∧
              IsCategorySafe method block.lines)
            compiled.unit.methods blocks := by
  have plainOptions : PlainOptions {} := ⟨by decide, by decide⟩
  have named : "Ledger" ∉ valueTypeNames := by decide
  have typed : IsWellTyped (.ofProgram ledgerProgram) ledgerProgram := by decide +kernel
  have heeds : HeedsReferences (.ofProgram ledgerProgram) ledgerProgram := by decide +kernel
  obtain ⟨compiled, run⟩ := exists_compile_ledgerProgram {}
  have plain : PlainClass compiled.unit := plainClass_of_compile run (by decide +kernel)
  exact ⟨plainOptions, named, typed, heeds, compiled, run, plain,
    category_safe_of_compile run plainOptions plain named typed heeds⟩

/-- A class that is called `int` and passes its object to another class. -/
def intProgram : Program where
  imports := ["Printer"]
  decl := {
    name := "int"
    superClass := none
    fields := []
    methods := [{
      name := "show"
      returnTy := Ty.void
      params := []
      locals := []
      body := [.expr (.call (.var "Printer") "print" [.self])]
      isStatic := false
      isPublic := true }] }

/-- The object of a class that is called `int` is passed as a reference, while the
descriptor of the call says that an integer is passed. -/
theorem not_category_safe_intProgram :
    IsWellTyped (.ofProgram intProgram) intProgram ∧
      HeedsReferences (.ofProgram intProgram) intProgram ∧
      ∃ compiled, compile {} (.ofProgram intProgram) intProgram = .ok compiled ∧
        PlainClass compiled.unit ∧
        ∃ blocks, readListing compiled.assembly = some blocks ∧
          ∃ block ∈ blocks, ∀ method, ¬IsCategorySafe method block.lines := by
  let lines : StackCode.Lines := [.instr (.load .ref 0), .instr (.invoke .static "Printer" "print"
    ⟨[.int], .void⟩), .instr (.ret none)]
  obtain ⟨compiled, run, isRead⟩ := exists_compile_of_lines (.ofProgram intProgram) intProgram
    (fun texts => (readBlocks texts).map (fun blocks => blocks.any (·.lines = lines)) = some true)
    (by decide +kernel)
  obtain ⟨blocks, blocksEq, found⟩ := Option.map_eq_some_iff.mp isRead
  obtain ⟨block, member, linesEq⟩ := List.any_eq_true.mp found
  refine ⟨by decide +kernel, by decide +kernel, compiled, run,
    plainClass_of_compile run (by decide +kernel), blocks, blocksEq, block, member, ?_⟩
  intro method safe
  rw [of_decide_eq_true linesEq] at safe
  have atStart : StackCode.Reaches lines (StackCode.Instr.stackAfter id) [] 0 [] := .entry
  have fits := safe.operands 1 [.ref] _ (atStart.next rfl rfl) rfl
  have same : StackCode.Category.ref = .int := fits.1
  cases same

end ClassCompiler
