import ClassCompiler.Proofs.Lowering.ResultTypes
import ClassCompiler.Proofs.Members

/-!
# Imports

The symbol table searches the imports for the first with a simple name, and the paths of a
class are entered one after the other unless the name is known already. Both find the same
path for every name but that of the class itself and that of the string class, which have
paths of their own. So a static call on an imported class is linked to the import by which
the name stands for a class.
-/

namespace ClassCompiler

/-! ## The first import of a name -/

/-- An import is the first with a simple name. -/
def IsFirstImport (imports : List String) (name qualified : String) : Prop :=
  ∃ before behind, imports = before ++ qualified :: behind ∧
    (∀ earlier ∈ before, Import.simpleName earlier ≠ name) ∧
    Import.simpleName qualified = name

theorem isFirstImport_iff_find? {imports : List String} {name qualified : String} :
    IsFirstImport imports name qualified ↔
      (imports.find? fun qualified => Import.simpleName qualified == name) = some qualified := by
  rw [List.find?_eq_some_iff_append, IsFirstImport]
  constructor
  · rintro ⟨before, behind, importsEq, notBefore, nameEq⟩
    refine ⟨beq_iff_eq.mpr nameEq, before, behind, importsEq, fun earlier member => ?_⟩
    simpa using notBefore earlier member
  · rintro ⟨nameEq, before, behind, importsEq, notBefore⟩
    refine ⟨before, behind, importsEq, fun earlier member => ?_, beq_iff_eq.mp nameEq⟩
    simpa using notBefore earlier member

namespace SymbolTable

theorem importPath?_of_isFirstImport {table : SymbolTable} {name qualified : String}
    (isFirst : IsFirstImport table.imports name qualified) :
    table.importPath? name = some (Import.path qualified) := by
  rw [importPath?, isFirstImport_iff_find?.mp isFirst]
  rfl

theorem isImported_iff {table : SymbolTable} {name : String} :
    table.isImported name = true ↔
      ∃ qualified, IsFirstImport table.imports name qualified := by
  simp only [isImported, importPath?, isFirstImport_iff_find?, Option.isSome_map,
    Option.isSome_iff_exists]

end SymbolTable

namespace StackCode

open ThreeAddress (ClassUnit Value)

/-! ## Paths of imports -/

/-- The paths of a class are those of its symbol table. -/
theorem classPath_eq_importPath? {table : SymbolTable} {unit : ClassUnit}
    (importsEq : unit.imports = table.imports) {name : String} (notOwn : name ≠ unit.name)
    (notString : name ≠ "String") :
    (ClassPaths.ofClass unit).classPath name = (table.importPath? name).getD name := by
  have notClass : name ≠ (ClassPaths.ofClass unit).className := notOwn
  rw [ClassPaths.classPath, if_neg notClass, if_neg notString, lookup_imports, importsEq]
  rfl

/-! ## Static calls in code -/

/-- The owner that a line calls statically. -/
def staticOwner? : Line Instr → Option String
  | .instr (.invoke .static owner _ _) => some owner
  | _ => none

/-- The class on which an instruction makes a static call. -/
def staticTarget? : ThreeAddress.Instr → Option String
  | .call _ call =>
      match call.invocation, call.target with
      | .invoke .static, some (.classRef name) => some name
      | _, _ => none
  | _ => none

section

variable {linkage : Linkage} {isMain : Bool} {names : List String} {counts : ComparisonCounts}

/-- Lines without static invocations make no static call. -/
theorem filterMap_staticOwner?_eq_nil {lines : Lines}
    (absent : ∀ owner name descriptor, .instr (.invoke .static owner name descriptor) ∉ lines) :
    lines.filterMap staticOwner? = [] := by
  rw [List.filterMap_eq_nil_iff]
  intro line inLines
  cases line with
  | label name => rfl
  | instr instr =>
      cases instr with
      | invoke mode owner name descriptor =>
          cases mode with
          | static => exact absurd inLines (absent owner name descriptor)
          | virtual | special => rfl
      | _ => rfl

/-- Operands are pushed without calls. -/
theorem filterMap_staticOwner?_loadsCode (values : List Value) :
    (loadsCode names values).filterMap staticOwner? = [] := by
  apply filterMap_staticOwner?_eq_nil
  intro owner name descriptor member
  obtain ⟨value, _, inLoad⟩ := List.mem_flatMap.mp member
  obtain ⟨_, ⟨⟩, isPlain | ⟨_, _, ⟨⟩⟩⟩ := isPlain_or_load_of_mem_loadCode inLoad
  exact isPlain

/-- The result of a call is stored or dropped without calls. -/
theorem filterMap_staticOwner?_resultCode (dest : Option Value) (call : ThreeAddress.Call) :
    (resultCode names dest call).filterMap staticOwner? = [] := by
  cases dest with
  | some dest => cases dest <;> rfl
  | none =>
      unfold resultCode
      cases call.returnsValue <;> rfl

theorem filterMap_staticOwner?_static (dest : Option Value) (name method : String)
    (args : List Value) (returnTy : Ty) :
    (instrCode linkage isMain names counts
      (.call dest (.invoke .static (.classRef name) method args returnTy))).filterMap
        staticOwner? = [linkage.paths.classPath name] := by
  simp only [instrCode, callCode, ThreeAddress.Call.invoke, operandsOf, if_true,
    List.filterMap_append, filterMap_staticOwner?_loadsCode, filterMap_staticOwner?_resultCode]
  rfl

/-- The code of an instruction makes its static call, with the path of the class as owner. -/
theorem filterMap_staticOwner?_instrCode {instr : ThreeAddress.Instr}
    (emittable : Emittable isMain names instr) :
    (instrCode linkage isMain names counts instr).filterMap staticOwner? =
      ((staticTarget? instr).map linkage.paths.classPath).toList := by
  have ofMember (notStatic : ∀ owner name descriptor,
      .method .static owner name descriptor ∉ memberOf? linkage instr) :
      (instrCode linkage isMain names counts instr).filterMap staticOwner? = [] :=
    filterMap_staticOwner?_eq_nil fun owner name descriptor member =>
      notStatic owner name descriptor ((Part.of_instrCode member).memberOf?_eq_some rfl)
  cases instr with
  | call dest call =>
      obtain ⟨invocation, target, method, args, returnTy⟩ := call
      cases invocation with
      | invoke mode =>
          cases target with
          | none => exact emittable.1.1.elim
          | some target =>
              cases method with
              | none => exact emittable.1.1.elim
              | some method =>
                  cases mode with
                  | static =>
                      obtain ⟨name, rfl⟩ := emittable.1.1.1
                      exact filterMap_staticOwner?_static dest name method args returnTy
                  | virtual | special => exact ofMember (by rintro _ _ _ ⟨⟩)
      | _ => exact ofMember (by rintro _ _ _ ⟨⟩)
  | _ => exact ofMember (by rintro _ _ _ ⟨⟩)

/-- The static calls in the code of a body are those of the body, in order. -/
theorem filterMap_staticOwner?_bodyCode {body : ThreeAddress.Code}
    (emittable : ∀ instr ∈ body, Emittable isMain names instr) :
    (bodyCode linkage isMain names counts body).filterMap staticOwner? =
      (body.filterMap staticTarget?).map linkage.paths.classPath := by
  induction body generalizing counts with
  | nil => rfl
  | cons instr rest ih =>
      rw [List.forall_mem_cons] at emittable
      rw [bodyCode, List.filterMap_append, filterMap_staticOwner?_instrCode emittable.1,
        ih emittable.2, List.filterMap_cons]
      cases staticTarget? instr <;> rfl

end

end StackCode

namespace ThreeAddress

open Semantics (Context Occurrence)
open StackCode (staticTarget?)

/-! ## Static calls in lowered code -/

/-- The static calls in a block are made on classes. -/
theorem Block.isClassName {context : Context} {hasSelf : Prop} {occurrence : Occurrence}
    {code : Code} (isBlock : Block context hasSelf occurrence code)
    (formed : occurrence.IsFormed context.table) :
    ∀ instr ∈ code, ∀ name ∈ staticTarget? instr, context.table.isClassName name = true := by
  cases isBlock with
  | self | declared => exact List.forall_mem_nil _
  | @call _ target _ _ _ _ _ _ _ _ isReceiver =>
      rw [List.forall_mem_singleton]
      cases target with
      | onClass className =>
          obtain ⟨rfl, rfl⟩ := isReceiver
          rintro _ ⟨rfl⟩
          exact formed
      | onObject ty =>
          obtain ⟨rfl, _⟩ := isReceiver
          exact nofun
  | array =>
      rw [List.forall_mem_cons]
      refine ⟨nofun, ?_⟩
      intro instr member
      obtain ⟨_, _, rfl⟩ := List.mem_map.mp member
      exact nofun
  | newObject =>
      rw [List.forall_mem_cons, List.forall_mem_singleton]
      exact ⟨nofun, nofun⟩
  | _ =>
      rw [List.forall_mem_singleton]
      exact nofun

/-- The static calls of a lowered method are made on classes. -/
theorem LowersMethod.isClassName {table : SymbolTable} {decl : MethodDecl}
    {state after : LoweringState} {method : Method}
    (lowers : LowersMethod table decl state method after) :
    ∀ instr ∈ method.body, ∀ name ∈ staticTarget? instr, table.isClassName name = true := by
  have allows (signature : MethodSignature) (_ : signature ∈ table.method? decl.name) :
      AllowsSelf ⟨table, signature⟩ True
        ((Context.mk table signature).bodyOccurrences decl.body) := fun _ => trivial
  obtain ⟨signature, code, _, rfl, _, renders⟩ := lowers.exists_renders allows
  intro instr member
  rcases mem_of_mem_completeBody member with inCode | ⟨rfl, _⟩
  · rcases renders.exists_block_of_mem inCode with
      isControl | ⟨occurrence, occurs, block, _, isBlock, inBlock⟩
    · cases instr with
      | label name => exact nofun
      | goto target => exact nofun
      | _ => exact isControl.elim
    · exact isBlock.isClassName
        (Context.formed_bodyOccurrences ⟨table, signature⟩ decl.body occurrence occurs) instr
        inBlock
  · exact nofun

/-- The static calls of a lowered class are made on classes. -/
theorem isClassName_of_lowerProgram {table : SymbolTable} {program : Program}
    {state after : LoweringState} {unit : ClassUnit}
    (run : lowerProgram table program state = .ok unit after) :
    ∀ method ∈ unit.methods, ∀ name ∈ method.body.filterMap staticTarget?,
      table.isClassName name = true := by
  obtain ⟨methods, lowered, rfl⟩ := lowerProgram_eq_ok_iff.mp run
  intro method member name named
  obtain ⟨instr, inBody, target⟩ := List.mem_filterMap.mp named
  rcases List.mem_cons.mp member with rfl | later
  · rcases List.mem_pair.mp inBody with rfl | rfl
    · cases target
    · cases target
  · obtain ⟨_, _, _, _, lowers⟩ := (lowersMethods_of_eq_ok lowered).exists_decl later
    exact lowers.isClassName instr inBody name target

end ThreeAddress

open ThreeAddress (ClassUnit LoweringState lowerProgram)
open StackCode (ClassPaths ClassFile ComparisonCounts generateClass staticOwner? staticTarget?)

/-- The owner of a static call on a class: the name stands for a class, and the owner is the
path of its first import, or the name itself if it is not imported. The class itself and the
string class have paths of their own. -/
structure IsStaticOwner (table : SymbolTable) (name owner : String) : Prop where
  isClassName : table.isClassName name = true
  owner_eq : name ≠ table.className → name ≠ "String" →
    owner = (table.importPath? name).getD name
  eq_path : name ≠ table.className → name ≠ "String" →
    ∀ qualified, IsFirstImport table.imports name qualified → owner = Import.path qualified

theorem classPath_eq_path {table : SymbolTable} {unit : ClassUnit}
    (importsEq : unit.imports = table.imports) {name qualified : String}
    (isFirst : IsFirstImport table.imports name qualified) (notOwn : name ≠ unit.name)
    (notString : name ≠ "String") :
    (ClassPaths.ofClass unit).classPath name = Import.path qualified := by
  rw [StackCode.classPath_eq_importPath? importsEq notOwn notString,
    SymbolTable.importPath?_of_isFirstImport isFirst, Option.getD_some]

theorem isStaticOwner_classPath {table : SymbolTable} {unit : ClassUnit}
    (nameEq : unit.name = table.className) (importsEq : unit.imports = table.imports)
    {name : String} (isClassName : table.isClassName name = true) :
    IsStaticOwner table name ((ClassPaths.ofClass unit).classPath name) := by
  refine ⟨isClassName, ?_, ?_⟩
  · intro notOwn
    rw [← nameEq] at notOwn
    exact StackCode.classPath_eq_importPath? importsEq notOwn
  · intro notOwn notString qualified isFirst
    rw [← nameEq] at notOwn
    exact classPath_eq_path importsEq isFirst notOwn notString

/-- The paths of a class and its symbol table find the same import for a name, the first. So
the static calls of a compiled class are those of its three-address code, in order, and each
is linked to the import by which its name stands for a class. -/
theorem imports_resolve_alike (table : SymbolTable) :
    (∀ unit : ClassUnit, unit.imports = table.imports →
      ∀ name, name ≠ unit.name → name ≠ "String" →
        (ClassPaths.ofClass unit).classPath name = (table.importPath? name).getD name) ∧
    (∀ name qualified, IsFirstImport table.imports name qualified →
      table.importPath? name = some (Import.path qualified) ∧
      ∀ unit : ClassUnit, unit.imports = table.imports → name ≠ unit.name → name ≠ "String" →
        (ClassPaths.ofClass unit).classPath name = Import.path qualified) ∧
    (∀ name, table.isImported name = true ↔
      ∃ qualified, IsFirstImport table.imports name qualified) ∧
    ∀ (program : Program) (state after : LoweringState) (unit : ClassUnit) (rootClass : String)
      (counts last : ComparisonCounts) (file : ClassFile),
      lowerProgram table program state = .ok unit after →
      generateClass rootClass unit counts = .ok file last →
      List.Forall₂ (fun method code =>
        List.Forall₂ (IsStaticOwner table) (method.body.filterMap staticTarget?)
          (code.lines.filterMap staticOwner?)) unit.methods file.methods := by
  refine ⟨fun unit importsEq name => StackCode.classPath_eq_importPath? importsEq,
    fun name qualified isFirst => ⟨SymbolTable.importPath?_of_isFirstImport isFirst,
      fun unit importsEq => classPath_eq_path importsEq isFirst⟩,
    fun name => SymbolTable.isImported_iff, ?_⟩
  intro program state after unit rootClass counts last file lowered generated
  have isClassName := ThreeAddress.isClassName_of_lowerProgram lowered
  obtain ⟨methods, _, rfl⟩ := ThreeAddress.lowerProgram_eq_ok_iff.mp lowered
  obtain ⟨_, codes, generates, rfl⟩ := StackCode.generateClass_eq_ok_iff.mp generated
  refine generates.forall₂ fun method member isEmittable start => ?_
  change List.Forall₂ _ _ ((StackCode.bodyCode _ _ _ start method.body).filterMap staticOwner?)
  rw [StackCode.filterMap_staticOwner?_bodyCode isEmittable.emittable,
    List.forall₂_map_right_iff, List.forall₂_same]
  exact fun name named => isStaticOwner_classPath rfl rfl (isClassName method member name named)

/-- A class with two imports of one simple name, and one with an empty part. -/
def consoleProgram : Program where
  imports := ["io.Console", "net.Console", "util..Log"]
  decl := {
    name := "Main"
    superClass := none
    fields := []
    methods := [{
      name := "run"
      returnTy := Ty.int
      params := []
      locals := []
      body := [.expr (.call (.var "Console") "print" [.int 1]),
        .ret (some (.call (.var "Log") "level" []))]
      isStatic := false
      isPublic := true }] }

/-- Static calls on imported classes, one of which is imported twice. -/
theorem imports_resolve_alike_consoleProgram :
    IsFirstImport consoleProgram.imports "Console" "io.Console" ∧
    ∃ unit after file last,
      lowerProgram (.ofProgram consoleProgram) consoleProgram {} = .ok unit after ∧
      generateClass ({} : Options).rootClass unit {} = .ok file last ∧
      unit.methods.map (fun method => method.body.filterMap staticTarget?) =
        [[], ["Console", "Log"]] ∧
      (ClassPaths.ofClass unit).classPath "Console" = "io/Console" ∧
      List.Forall₂ (fun method code =>
        List.Forall₂ (IsStaticOwner (.ofProgram consoleProgram))
          (method.body.filterMap staticTarget?) (code.lines.filterMap staticOwner?))
        unit.methods file.methods := by
  have isFirst : IsFirstImport consoleProgram.imports "Console" "io.Console" :=
    ⟨[], ["net.Console", "util..Log"], rfl, List.forall_mem_nil _, by decide⟩
  obtain ⟨_, imports, _, links⟩ := imports_resolve_alike (.ofProgram consoleProgram)
  have compilable : IsCompilable (.ofProgram consoleProgram) consoleProgram := by decide +kernel
  have targets : (ThreeAddress.lowerFresh (.ofProgram consoleProgram) consoleProgram).toOption.map
      (fun unit => unit.methods.map fun method => method.body.filterMap staticTarget?) =
        some [[], ["Console", "Log"]] := by decide +kernel
  obtain ⟨compiled, run⟩ := exists_compile_iff.mpr compilable
  obtain ⟨fresh, file, ⟨last, generated⟩, _⟩ := compile_eq_ok_iff.mp run
  rw [fresh] at targets
  obtain ⟨after, lowered⟩ := ThreeAddress.lowerFresh_eq_ok_iff.mp fresh
  refine ⟨isFirst, compiled.unit, after, file, last, lowered, generated,
    Option.some.inj targets, ?_,
    links _ _ _ _ _ _ _ _ lowered generated⟩
  obtain ⟨methods, _, unitEq⟩ := ThreeAddress.lowerProgram_eq_ok_iff.mp lowered
  have notOwn : "Console" ≠ consoleProgram.decl.name := by decide
  rw [unitEq]
  exact (imports _ _ isFirst).2 _ rfl notOwn (by decide)

end ClassCompiler
