import ClassCompiler.Proofs.Acceptance.Lowering
import ClassCompiler.Proofs.Acceptance.Operands
import ClassCompiler.Proofs.Lowering.Freshness
import ClassCompiler.Proofs.Lowering.Rendering

/-!
# Well-formed programs are compiled

The variables and temporaries of a well-formed method have slots, and each block of its
code takes values and gives values that can be kept. So there is code for every
instruction, and compilation does not fail.
-/

namespace ClassCompiler.ThreeAddress

open Semantics (AllOf Context Dest HasDistinctVariables HasProperTypes IsWellFormed
  IsWellFormedMethod Occurrence describable_of_name_ne hasMembers_of_name isParameter_of_name_ne
  isProper_of_bodyOccurrences isVoid_of_name_ne mem_methods_of_method?)
open StackCode (Callable Describable Emittable HasMembers IsEmittable Loadable Receivable Storable
  slotNames)

variable {context : Context} {hasSelf : Prop} {isMain : Bool} {names : List String}

/-! ## Operands -/

/-- The temporaries that an instruction uses and defines have slots. -/
structure HasTempSlots (names : List String) (instr : Instr) : Prop where
  used : ∀ temp ∈ instr.usedTemps, temp.name ∈ names
  defined : ∀ temp ∈ instr.definedTemp?, temp.name ∈ names

/-- The slots of a method whose declarations have types of values. -/
structure HasSlots (context : Context) (names : List String) : Prop where
  types : HasProperTypes context.table
  known : context.signature ∈ context.table.methods
  slot : ∀ {name ty}, context.resolve? name = some (.declared ty) → name ∈ names

/-- An operand that is a value can be pushed. -/
theorem Operand.loadable {ty : Ty} {value : Value} {instr : Instr}
    (hasValue : Operand context hasSelf ty value) (nameNe : ty.name ≠ "void")
    (slots : HasSlots context names) (tempSlots : HasTempSlots names instr)
    (uses : value.temps ⊆ instr.usedTemps) : Loadable names value := by
  obtain ⟨isOperand, rfl⟩ := hasValue
  cases value with
  | temp name ty =>
      exact ⟨tempSlots.used ⟨name, ty⟩ (uses (List.mem_singleton_self _)),
        isVoid_of_name_ne nameNe⟩
  | var name ty => exact ⟨slots.slot isOperand, isVoid_of_name_ne nameNe⟩
  | const value => trivial
  | self ty => trivial
  | classRef name | element array position ty => exact isOperand.elim

theorem Operand.loadable_source {occurrence : Occurrence} {ty : Ty} {value : Value} {instr : Instr}
    (hasValue : Operand context hasSelf ty value) (proper : occurrence.IsProper)
    (isOperand : ty ∈ occurrence.operandTys) (slots : HasSlots context names)
    (tempSlots : HasTempSlots names instr) (source : value ∈ instr.sources) :
    Loadable names value :=
  hasValue.loadable (proper.operands ty isOperand) slots tempSlots (Instr.temps_subset source)

/-- A variable can be popped into. -/
theorem HasSlots.storable_var (slots : HasSlots context names) {name : String} {ty : Ty}
    (resolves : context.resolve? name = some (.declared ty)) : Storable names (.var name ty) :=
  ⟨slots.slot resolves,
    isVoid_of_name_ne (slots.types.name_ne_of_resolve slots.known (.inl resolves))⟩

theorem HasTempSlots.storable_temp {instr : Instr} (tempSlots : HasTempSlots names instr)
    {name : String} {ty : Ty} (destEq : instr.dest? = some (.temp name ty))
    (notVoid : ty.isVoid = false) : Storable names (.temp name ty) := by
  refine ⟨tempSlots.defined ⟨name, ty⟩ ?_, notVoid⟩
  rw [Instr.definedTemp?, destEq]
  rfl

/-- The result of an operation can be popped where it goes. -/
theorem IsDest.storable {ty : Ty} {dest : Dest} {value : Value} {instr : Instr}
    (isDest : IsDest context ty dest (some value)) (notVoid : ty.isVoid = false)
    (slots : HasSlots context names) (tempSlots : HasTempSlots names instr)
    (destEq : instr.dest? = some value) : Storable names value := by
  cases dest with
  | temporary =>
      obtain ⟨name, valueEq⟩ := isDest
      cases valueEq
      exact tempSlots.storable_temp destEq notVoid
  | into declared =>
      obtain ⟨name, valueEq, resolves⟩ := isDest
      cases valueEq
      exact slots.storable_var resolves
  | dropped => cases isDest

theorem HasSlots.hasMembers_classTy (slots : HasSlots context names) :
    HasMembers context.table.classTy :=
  hasMembers_of_name rfl slots.types.className

/-! ## Blocks -/

/-- An invocation whose receiver is an object or a class and whose arguments are values
has code. -/
theorem callable_of_call {own : Option MethodSignature} {target : Semantics.Target}
    {name : String} {tys : List Ty} {result : Ty} {dest : Dest} {mode : InvokeMode}
    {object : Value} {values : List Value} {value : Option Value}
    (isReceiver : IsReceiver context hasSelf target mode object)
    (hasValues : Operands context hasSelf tys values)
    (formed : (Occurrence.call own target name tys result dest).IsWellFormed)
    (proper : (Occurrence.call own target name tys result dest).IsProper)
    (slots : HasSlots context names)
    (tempSlots : HasTempSlots names (.call value (.invoke mode object name values result))) :
    Callable names (.invoke mode object name values result) := by
  have valueNe (argument : Value) (member : argument ∈ values) : argument.ty.name ≠ "void" := by
    have tyMember : argument.ty ∈ tys := hasValues.map_ty_eq ▸ List.mem_map_of_mem member
    apply proper.operands
    cases target with
    | onClass className => exact tyMember
    | onObject ty => exact List.mem_cons_of_mem _ tyMember
  have loads (argument : Value) (member : argument ∈ values) : Loadable names argument :=
    Operand.loadable ⟨hasValues.isOperand argument member, rfl⟩ (valueNe argument member) slots
      tempSlots (Instr.temps_subset (List.mem_append_right _ member))
  have parameters (argument : Value) (member : argument ∈ values) :=
    isParameter_of_name_ne (valueNe argument member)
  have describable := proper.result result rfl
  cases target with
  | onClass className =>
      obtain ⟨rfl, rfl⟩ := isReceiver
      exact ⟨⟨className, rfl⟩, loads, parameters, describable⟩
  | onObject ty =>
      obtain ⟨rfl, hasObject⟩ := isReceiver
      have objectNe : ty.name ≠ "void" := proper.operands ty List.mem_cons_self
      refine ⟨?_, ?_, parameters, describable⟩
      · change HasMembers object.ty
        rw [hasObject.ty_eq]
        exact hasMembers_of_name formed.1.1 formed.1.2
      · exact List.forall_mem_cons.mpr
          ⟨hasObject.loadable objectNe slots tempSlots (Instr.temps_subset List.mem_cons_self),
            loads⟩

/-- An operation on operands that can be pushed has code, also if it is an increment. -/
theorem hasCode_binary {dest left right : Value} {op : BinaryOp} (loadsLeft : Loadable names left)
    (loadsRight : Loadable names right) (stores : Storable names dest) :
    StackCode.HasCode isMain names (.binary dest op left right) := by
  cases found : StackCode.increment? dest op left right with
  | none =>
      simp only [StackCode.HasCode, found]
      exact ⟨loadsLeft, loadsRight, stores⟩
  | some increment =>
      obtain ⟨name, delta⟩ := increment
      simp only [StackCode.HasCode, found]
      have nameEq := (StackCode.increment?_eq_some found).1
      cases dest with
      | temp destName ty | var destName ty =>
          cases nameEq
          exact stores.1
      | _ => exact stores.elim

theorem receivable_of_isDest {own : Option MethodSignature} {target : Semantics.Target}
    {name : String} {tys : List Ty} {result : Ty} {dest : Dest} {mode : InvokeMode}
    {object : Value} {values : List Value} {value : Option Value}
    (isDest : IsDest context result dest value)
    (formed : (Occurrence.call own target name tys result dest).IsWellFormed)
    (slots : HasSlots context names)
    (tempSlots : HasTempSlots names (.call value (.invoke mode object name values result))) :
    Receivable names value (.invoke mode object name values result) := by
  cases value with
  | none => trivial
  | some value =>
      have used : dest ≠ .dropped := by
        rintro rfl
        cases isDest
      have notVoid := formed.2 used
      exact ⟨by simp [StackCode.leavesValue, Call.invoke, Call.returnsValue, notVoid],
        isDest.storable notVoid slots tempSlots rfl⟩

/-- There is code that makes an array. -/
theorem emittable_newArray {elem : Ty} {size : Value} {dest : String} (nameNe : elem.name ≠ "void")
    (loads : Loadable names size)
    (tempSlots : HasTempSlots names
      (.call (some (.temp dest (Ty.arrayOf elem.name))) (.newArray elem size))) :
    Emittable isMain names
      (.call (some (.temp dest (Ty.arrayOf elem.name))) (.newArray elem size)) := by
  have elementNotVoid : (Ty.arrayOf elem.name).element.isVoid = false := isVoid_of_name_ne nameNe
  exact ⟨⟨⟨loads, elementNotVoid⟩, rfl, tempSlots.storable_temp rfl (isVoid_of_name_ne nameNe)⟩,
    rfl⟩

/-- There is code for every instruction in the block of an operation that can be carried
out. -/
theorem Block.emittable {occurrence : Occurrence} {code : Code}
    (isBlock : Block context hasSelf occurrence code) (formed : occurrence.IsWellFormed)
    (proper : occurrence.IsProper) (slots : HasSlots context names) :
    ∀ instr ∈ code, HasTempSlots names instr → Emittable isMain names instr := by
  cases isBlock with
  | self | declared => exact List.forall_mem_nil _
  | @field name ty dest resolves =>
      rw [List.forall_mem_singleton]
      intro tempSlots
      have nameNe := slots.types.name_ne_of_resolve slots.known (.inr resolves)
      exact ⟨⟨trivial, slots.hasMembers_classTy, describable_of_name_ne nameNe,
        tempSlots.storable_temp rfl (isVoid_of_name_ne nameNe)⟩, rfl⟩
  | @operator op _ _ _ _ _ _ hasLeft hasRight isDest _ =>
      rw [List.forall_mem_singleton]
      intro tempSlots
      have notVoid : op.resultTy.isVoid = false := by cases op <;> rfl
      refine ⟨hasCode_binary ?_ ?_ (isDest.storable notVoid slots tempSlots rfl), rfl⟩
      · exact hasLeft.loadable_source proper List.mem_cons_self slots tempSlots List.mem_cons_self
      · exact hasRight.loadable_source proper (List.mem_cons_of_mem _ List.mem_cons_self) slots
          tempSlots (List.mem_cons_of_mem _ List.mem_cons_self)
  | negation dest hasOperand =>
      rw [List.forall_mem_singleton]
      intro tempSlots
      exact ⟨⟨hasOperand.loadable_source proper List.mem_cons_self slots tempSlots
        List.mem_cons_self, tempSlots.storable_temp rfl rfl⟩, rfl⟩
  | @element arrayTy positionTy _ _ dest hasArray hasPosition =>
      rw [List.forall_mem_singleton]
      intro tempSlots
      have arrayNe := proper.operands arrayTy List.mem_cons_self
      have positionNe := proper.operands positionTy (List.mem_cons_of_mem _ List.mem_cons_self)
      refine ⟨⟨⟨hasArray.loadable arrayNe slots tempSlots ?_,
        hasPosition.loadable positionNe slots tempSlots ?_⟩,
        tempSlots.storable_temp rfl (isVoid_of_name_ne arrayNe)⟩, rfl⟩
      · simp [Instr.usedTemps, Instr.sources, Value.temps]
      · simp [Instr.usedTemps, Instr.sources, Value.temps]
  | length dest hasArray =>
      rw [List.forall_mem_singleton]
      intro tempSlots
      exact ⟨⟨hasArray.loadable_source proper List.mem_cons_self slots tempSlots
        List.mem_cons_self, rfl, tempSlots.storable_temp rfl rfl⟩, rfl⟩
  | newArray dest hasSize =>
      rw [List.forall_mem_singleton]
      intro tempSlots
      exact emittable_newArray formed (hasSize.loadable_source proper List.mem_cons_self slots
        tempSlots List.mem_cons_self) tempSlots
  | @array elem tys values dest hasValues =>
      have elemNe : elem.name ≠ "void" := proper.result (Ty.arrayOf elem.name) rfl rfl
      rw [List.forall_mem_cons]
      refine ⟨emittable_newArray elemNe trivial, ?_⟩
      intro instr member tempSlots
      obtain ⟨⟨value, position⟩, valueMember, rfl⟩ := List.mem_map.mp member
      have isValue : value ∈ values := List.fst_mem_of_mem_zipIdx valueMember
      have hasArray :
          Operand context hasSelf (Ty.arrayOf elem.name) (.temp dest (Ty.arrayOf elem.name)) :=
        ⟨trivial, rfl⟩
      have hasValue : Operand context hasSelf value.ty value :=
        ⟨hasValues.isOperand value isValue, rfl⟩
      have isOperand : value.ty ∈ tys := hasValues.map_ty_eq ▸ List.mem_map_of_mem isValue
      exact ⟨⟨hasArray.loadable elemNe slots tempSlots (Instr.temps_subset List.mem_cons_self),
        trivial, hasValue.loadable_source proper isOperand slots tempSlots
          (by simp [Instr.sources])⟩, rfl⟩
  | newObject className dest =>
      have nameNe : className ≠ "void" := by
        rintro rfl
        exact formed (by decide)
      have hasObject :
          Operand context hasSelf (Ty.named className) (.temp dest (Ty.named className)) :=
        ⟨trivial, rfl⟩
      rw [List.forall_mem_cons, List.forall_mem_singleton]
      constructor
      · intro tempSlots
        exact ⟨⟨trivial, rfl, tempSlots.storable_temp rfl (isVoid_of_name_ne nameNe)⟩, rfl⟩
      · intro tempSlots
        refine ⟨⟨⟨hasMembers_of_name rfl formed, ?_, List.forall_mem_nil _, nofun⟩, trivial⟩, rfl⟩
        exact List.forall_mem_singleton.mpr (hasObject.loadable nameNe slots tempSlots
          (Instr.temps_subset List.mem_cons_self))
  | @call own target name tys result dest mode object values value isReceiver hasValues isDest =>
      rw [List.forall_mem_singleton]
      intro tempSlots
      refine ⟨⟨callable_of_call isReceiver hasValues formed proper slots tempSlots,
        receivable_of_isDest isDest formed slots tempSlots⟩, ?_⟩
      cases value with
      | none => simp [StackCode.leftOver, StackCode.leavesValue, Call.invoke]
      | some value => rfl
  | assign resolves hasValue =>
      rw [List.forall_mem_singleton]
      intro tempSlots
      exact ⟨⟨hasValue.loadable_source proper List.mem_cons_self slots tempSlots
        List.mem_cons_self, slots.storable_var resolves⟩, rfl⟩
  | @assignField _ _ ty _ resolves hasValue =>
      rw [List.forall_mem_singleton]
      intro tempSlots
      refine ⟨⟨trivial, ?_, slots.hasMembers_classTy, ?_⟩, rfl⟩
      · exact hasValue.loadable_source proper List.mem_cons_self slots tempSlots
          (List.mem_cons_of_mem _ List.mem_cons_self)
      · rw [hasValue.ty_eq]
        exact describable_of_name_ne (proper.operands ty List.mem_cons_self)
  | assignElement hasArray hasPosition hasValue =>
      rw [List.forall_mem_singleton]
      intro tempSlots
      refine ⟨⟨?_, ?_, ?_⟩, rfl⟩
      · exact hasArray.loadable_source proper List.mem_cons_self slots tempSlots List.mem_cons_self
      · exact hasPosition.loadable_source proper (List.mem_cons_of_mem _ List.mem_cons_self) slots
          tempSlots (List.mem_cons_of_mem _ List.mem_cons_self)
      · exact hasValue.loadable_source proper (by simp [Occurrence.operandTys]) slots tempSlots
          (by simp [Instr.sources])
  | condition label hasCond =>
      rw [List.forall_mem_singleton]
      intro tempSlots
      exact ⟨hasCond.loadable_source proper List.mem_cons_self slots tempSlots
        List.mem_cons_self, rfl⟩
  | returnsNothing =>
      rw [List.forall_mem_singleton]
      exact fun _ => ⟨trivial, rfl⟩
  | returns hasValue =>
      rw [List.forall_mem_singleton]
      intro tempSlots
      exact ⟨.inr (hasValue.loadable_source proper List.mem_cons_self slots tempSlots
        List.mem_cons_self), rfl⟩

/-! ## Methods -/

theorem length_slotNames_le {signature : MethodSignature} {temps : List Symbol} {code : Code}
    {count : Nat}
    (named : HasDistinctVariables signature count) (countEq : temps.length = count) :
    (slotNames (methodOf signature temps code)).length ≤ StackCode.maxLocals := by
  have fits := named.fits
  rw [slotNames_methodOf, List.length_append, List.length_append, List.length_map, List.length_map,
    countEq, ← Nat.add_assoc]
  cases isStatic : signature.isStatic with
  | true | false => simpa [isStatic] using fits

theorem Instr.IsControl.emittable {instr : Instr} (isControl : instr.IsControl) :
    Emittable isMain names instr := by
  cases instr with
  | label name | goto target => exact ⟨trivial, rfl⟩
  | _ => exact isControl.elim

/-- A well-formed method has slots and code. -/
theorem LowersMethod.isEmittable {table : SymbolTable} {decl : MethodDecl}
    {state after : LoweringState} {method : Method}
    (lowers : LowersMethod table decl state method after) (types : HasProperTypes table)
    (formed : IsWellFormedMethod table decl) : IsEmittable method := by
  obtain ⟨signature, found, named, formedBody⟩ := formed
  cases lowers with
  | @intro other _ last code otherFound lowersBody =>
      obtain rfl : signature = other := Option.some.inj (found.symm.trans otherFound)
      have takes := lowersBody.takesTemps
      have tempsEq : last.scope.temps = definedTemps code := takes.scope_eq
      have renders : Renders ⟨table, signature⟩ True _ code :=
        lowersBody.renders rfl fun _ => trivial
      rw [Context.stmtOccurrences] at renders
      rw [tempsEq]
      have countEq := renders.length_definedTemps
      refine ⟨nodup_slotNames named.distinct named.notSelf takes,
        length_slotNames_le named countEq, ?_⟩
      have known : signature ∈ table.methods := mem_methods_of_method? signature found
      have proper : AllOf Occurrence.IsProper
          ((Context.mk table signature).bodyOccurrences decl.body) :=
        isProper_of_bodyOccurrences types known decl.body formedBody
      have tempSlot (temp : Symbol) (defined : temp ∈ definedTemps code) :
          temp.name ∈ slotNames (methodOf signature (definedTemps code) code) := by
        rw [slotNames_methodOf]
        exact List.mem_append_right _ (List.mem_append_right _ (List.mem_map_of_mem defined))
      have slots : HasSlots ⟨table, signature⟩
          (slotNames (methodOf signature (definedTemps code) code)) := by
        refine ⟨types, known, ?_⟩
        intro name ty resolves
        obtain ⟨symbol, member, rfl, _⟩ := Context.exists_symbol_of_resolve resolves
        rw [slotNames_methodOf]
        exact List.mem_append_right _ (List.mem_append_left _ (List.mem_map_of_mem member))
      intro instr member
      rcases mem_of_mem_completeBody member with inCode | ⟨rfl, _⟩
      · rcases renders.exists_block_of_mem inCode with
          isControl | ⟨occurrence, occurs, block, _, isBlock, inBlock⟩
        · exact isControl.emittable
        · apply isBlock.emittable (formedBody occurrence occurs) (proper occurrence occurs) slots
            instr inBlock
          constructor
          · intro temp used
            have defined := lowersBody.covered.usedTemps_subset inCode used
            exact tempSlot temp defined
          · intro temp defines
            exact tempSlot temp (List.mem_filterMap.mpr ⟨instr, inCode, defines⟩)
      · exact ⟨trivial, rfl⟩

theorem LowersMethod.hasHeader {table : SymbolTable} {decl : MethodDecl}
    {state after : LoweringState} {method : Method}
    (lowers : LowersMethod table decl state method after) (types : HasProperTypes table) :
    StackCode.HasHeader method := by
  cases lowers with
  | @intro signature _ _ _ found _ =>
      have known : signature ∈ table.methods := mem_methods_of_method? signature found
      intro _ _
      constructor
      · intro param member
        exact isParameter_of_name_ne
          (types.symbols signature known param (List.mem_append_left _ member))
      · exact types.results signature known

/-! ## Programs -/

end ClassCompiler.ThreeAddress

namespace ClassCompiler

open Semantics (IsWellFormed)

end ClassCompiler
