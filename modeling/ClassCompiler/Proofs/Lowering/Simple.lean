import ClassCompiler.Proofs.Lowering.Programs
import ClassCompiler.Proofs.Lowering.Rendering
import ClassCompiler.Proofs.Semantics.SimpleCode

/-!
# Lowered code is simple

The operands of a block are those that expressions leave, so they are simple as soon as
their temporaries belong to the method. The temporaries of a method are those that its
body defines, and lowered code uses no others.
-/

namespace ClassCompiler.ThreeAddress

open Semantics (Context Dest Target Occurrence)

variable {table : SymbolTable} {context : Context} {method : Method}

/-! ## Operands -/

/-- A method has the declared variables of a context. -/
def HasDeclared (context : Context) (method : Method) : Prop :=
  ∀ name ty, context.resolve? name = some (.declared ty) → method.declared? name = some ⟨name, ty⟩

theorem hasDeclared_methodOf (table : SymbolTable) (signature : MethodSignature)
    (temps : List Symbol) (code : Code) :
    HasDeclared ⟨table, signature⟩ (methodOf signature temps code) := by
  intro name ty resolves
  unfold Context.resolve? at resolves
  dsimp only at resolves
  split at resolves
  · next symbol found =>
      cases resolves
      have nameEq : symbol.name = name := by simpa using List.find?_some found
      subst nameEq
      exact found
  · split at resolves
    · cases resolves
    · split at resolves <;> cases resolves

theorem IsOperand.isSimple {value : Value} (isOperand : IsOperand context True value)
    (declared : HasDeclared context method) (inMethod : value.temps ⊆ method.temps) :
    value.IsSimple context.table.classTy method := by
  cases value with
  | temp name ty => exact inMethod (List.mem_singleton_self _)
  | var name ty => exact declared name ty isOperand
  | const constant => trivial
  | self ty => exact isOperand.1
  | classRef name | element array position ty => exact isOperand.elim

theorem IsDest.isPlace {ty : Ty} {dest : Dest} {value : Value}
    (isDest : IsDest context ty dest (some value)) (declared : HasDeclared context method)
    (inMethod : ∀ temp ∈ value.temp?, temp ∈ method.temps) : value.IsPlace method := by
  cases dest with
  | temporary =>
      obtain ⟨name, valueEq⟩ := isDest
      cases valueEq
      exact inMethod _ rfl
  | into ty =>
      obtain ⟨name, valueEq, resolves⟩ := isDest
      cases valueEq
      exact declared name ty resolves
  | dropped => cases isDest

/-! ## Blocks -/

/-- An instruction takes its temporaries from a method. -/
structure TempsFrom (method : Method) (instr : Instr) : Prop where
  uses : instr.usedTemps ⊆ method.temps
  defines : ∀ temp ∈ instr.definedTemp?, temp ∈ method.temps

theorem TempsFrom.isSimple {instr : Instr} (tempsFrom : TempsFrom method instr)
    (declared : HasDeclared context method) {value : Value}
    (isOperand : IsOperand context True value) (source : value ∈ instr.sources) :
    value.IsSimple context.table.classTy method :=
  isOperand.isSimple declared (List.Subset.trans (Instr.temps_subset source) tempsFrom.uses)

/-- The instructions of a block are simple. -/
theorem Block.isSimple {occurrence : Occurrence} {code : Code}
    (isBlock : Block context True occurrence code) (declared : HasDeclared context method)
    {instr : Instr} (member : instr ∈ code) (tempsFrom : TempsFrom method instr) :
    instr.IsSimple context.table.classTy method := by
  have simple {value : Value} (isOperand : IsOperand context True value)
      (source : value ∈ instr.sources) := tempsFrom.isSimple declared isOperand source
  have simpleTemp {name : String} {ty : Ty} (source : .temp name ty ∈ instr.sources) :
      (Value.temp name ty).IsSimple context.table.classTy method := simple trivial source
  cases isBlock with
  | self => cases member
  | declared => cases member
  | field dest resolves =>
      cases List.mem_singleton.mp member
      exact .getField _ _ (tempsFrom.defines _ rfl) rfl
  | operator hasLeft hasRight isDest _ =>
      cases List.mem_singleton.mp member
      exact .binary _ (isDest.isPlace declared tempsFrom.defines)
        (simple hasLeft.isOperand List.mem_cons_self)
        (simple hasRight.isOperand (List.mem_cons_of_mem _ List.mem_cons_self))
  | negation dest hasOperand =>
      cases List.mem_singleton.mp member
      exact .not (tempsFrom.defines _ rfl) (simple hasOperand.isOperand List.mem_cons_self)
  | element dest hasArray hasPosition =>
      cases List.mem_singleton.mp member
      have elementTemps : Value.temps (.element _ _ _) ⊆ method.temps :=
        List.Subset.trans (Instr.temps_subset List.mem_cons_self) tempsFrom.uses
      obtain ⟨arrayTemps, positionTemps⟩ := List.append_subset.mp elementTemps
      exact .readElement (tempsFrom.defines _ rfl)
        (hasArray.isOperand.isSimple declared arrayTemps)
        (hasPosition.isOperand.isSimple declared positionTemps)
  | length dest hasArray =>
      cases List.mem_singleton.mp member
      exact .call (tempsFrom.defines _ rfl)
        (.arrayLength (simple hasArray.isOperand List.mem_cons_self))
  | newArray dest hasSize =>
      cases List.mem_singleton.mp member
      exact .call (tempsFrom.defines _ rfl)
        (.newArray _ (simple hasSize.isOperand List.mem_cons_self))
  | array dest hasValues =>
      rcases List.mem_cons.mp member with rfl | later
      · exact .call (tempsFrom.defines _ rfl) (.newArray _ trivial)
      · obtain ⟨⟨value, position⟩, valueMember, rfl⟩ := List.mem_map.mp later
        have isOperand := hasValues.isOperand value (List.fst_mem_of_mem_zipIdx valueMember)
        exact .writeElement (simpleTemp List.mem_cons_self) trivial
          (simple isOperand (by simp [Instr.sources]))
  | newObject className dest =>
      rcases List.mem_cons.mp member with rfl | later
      · exact .call (tempsFrom.defines _ rfl) (.newObject _)
      · cases List.mem_singleton.mp later
        exact .droppedCall rfl (.onReceiver _ _ (by decide)
          (simpleTemp List.mem_cons_self) (List.forall_mem_nil _))
  | @call own target name _ result dest mode object values value isReceiver hasValues isDest =>
      cases List.mem_singleton.mp member
      have hasArgs : ∀ arg ∈ values, arg.IsSimple context.table.classTy method :=
        fun arg argMember => simple (hasValues.isOperand arg argMember)
          (List.mem_cons_of_mem _ argMember)
      have isSite : (Call.invoke mode object name values result).IsSimple
          context.table.classTy method := by
        cases target with
        | onClass className =>
            obtain ⟨rfl, rfl⟩ := isReceiver
            exact .static _ _ _ hasArgs
        | onObject ty =>
            obtain ⟨rfl, hasObject⟩ := isReceiver
            exact .onReceiver _ _ (by decide) (simple hasObject.isOperand List.mem_cons_self)
              hasArgs
      cases value with
      | none => exact .droppedCall rfl isSite
      | some value => exact .call (isDest.isPlace declared tempsFrom.defines) isSite
  | assign resolves hasValue =>
      cases List.mem_singleton.mp member
      exact .assign (declared _ _ resolves) (simple hasValue.isOperand List.mem_cons_self)
  | assignField resolves hasValue =>
      cases List.mem_singleton.mp member
      exact .putField _ rfl
        (simple hasValue.isOperand (List.mem_cons_of_mem _ List.mem_cons_self))
  | assignElement hasArray hasPosition hasValue =>
      cases List.mem_singleton.mp member
      exact .writeElement (simple hasArray.isOperand (by simp [Instr.sources]))
        (simple hasPosition.isOperand (by simp [Instr.sources]))
        (simple hasValue.isOperand (by simp [Instr.sources]))
  | condition label hasCond =>
      cases List.mem_singleton.mp member
      exact .branch _ (simple hasCond.isOperand List.mem_cons_self)
  | returnsNothing =>
      cases List.mem_singleton.mp member
      exact .returnNothing
  | returns hasValue =>
      cases List.mem_singleton.mp member
      exact .returnValue (simple hasValue.isOperand List.mem_cons_self)

theorem Instr.IsControl.isSimple {classTy : Ty} {instr : Instr} (isControl : instr.IsControl) :
    instr.IsSimple classTy method := by
  cases instr with
  | label name => exact .label name
  | goto target => exact .goto target
  | _ => exact isControl.elim

/-! ## Methods -/

/-- The body of a lowered method is simple. -/
theorem LowersMethod.isSimple {decl : MethodDecl} {state after : LoweringState}
    (lowers : LowersMethod table decl state method after) : method.IsSimple table.classTy := by
  obtain ⟨signature, code, _, rfl, covered, renders⟩ :=
    @LowersMethod.exists_renders _ _ _ _ _ (fun _ => True) lowers fun _ _ _ => trivial
  intro instr member
  rcases mem_of_mem_completeBody member with inCode | ⟨rfl, _⟩
  · rcases renders.exists_block_of_mem inCode with isControl | ⟨_, _, _, _, isBlock, inBlock⟩
    · exact isControl.isSimple
    · apply isBlock.isSimple (hasDeclared_methodOf table signature _ code) inBlock
      constructor
      · exact covered.usedTemps_subset inCode
      · intro temp defined
        exact List.mem_filterMap.mpr ⟨instr, inCode, defined⟩
  · exact .returnNothing

theorem isSimple_constructorOf (table : SymbolTable) :
    (constructorOf table).IsSimple table.classTy := by
  have isSuperCall : (Instr.call none (.construct (selfValue table))).IsSimple table.classTy
      (constructorOf table) :=
    .droppedCall rfl (.onReceiver _ _ (by decide) rfl (List.forall_mem_nil _))
  exact List.forall_mem_cons.mpr ⟨isSuperCall, List.forall_mem_singleton.mpr .returnNothing⟩

/-- Every method of a lowered class is simple. -/
theorem isSimple_of_lowerProgram {program : Program} {state after : LoweringState}
    {unit : ClassUnit} (run : lowerProgram table program state = .ok unit after) :
    ∀ method ∈ unit.methods, method.IsSimple table.classTy := by
  obtain ⟨methods, lowers, rfl⟩ := lowerProgram_eq_ok_iff.mp run
  intro method member
  rcases List.mem_cons.mp member with rfl | lowered
  · exact isSimple_constructorOf table
  · obtain ⟨_, _, _, _, lowersMethod⟩ := (lowersMethods_of_eq_ok lowers).exists_decl lowered
    exact lowersMethod.isSimple

end ClassCompiler.ThreeAddress
