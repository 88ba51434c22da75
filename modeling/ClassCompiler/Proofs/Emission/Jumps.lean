import ClassCompiler.Proofs.Assembly.Listing
import ClassCompiler.Proofs.Emission.Classes
import ClassCompiler.Proofs.Emission.Labels
import ClassCompiler.Proofs.Emission.Parts
import ClassCompiler.Proofs.Layout
import ClassCompiler.Proofs.Lowering.Programs
import ClassCompiler.Proofs.Semantics.Flow

/-!
# Labels of a class

No label stands twice in the listing of a compiled class, and every jump goes to a label
of its own block. The labels of statements and those of comparisons are numbered by
counters that run through the whole class, and none of the first is one of the second.
Names with line breaks are left out: they can forge lines of all kinds.
-/

namespace ClassCompiler.StackCode

open ThreeAddress (Method Value definedLabels JumpsInside)

variable {linkage : Linkage} {isMain : Bool} {names : List String} {counts after : ComparisonCounts}

/-! ## Labels of methods in order -/

/-- The labels of emitted lines depend on the body and the counts alone. -/
theorem lineLabels_bodyCode_congr (linkage other : Linkage) (isMain isOtherMain : Bool)
    (names otherNames : List String) (counts : ComparisonCounts) (body : ThreeAddress.Code) :
    lineLabels (bodyCode linkage isMain names counts body) =
      lineLabels (bodyCode other isOtherMain otherNames counts body) := by
  induction body generalizing counts with
  | nil => rfl
  | cons instr rest ih =>
      rw [bodyCode, bodyCode, lineLabels_append, lineLabels_append, lineLabels_instrCode,
        lineLabels_instrCode, ih]

/-- The labels of methods that are generated in order are those of one body, in which
the bodies of the methods follow each other. -/
theorem GeneratesMethods.flatMap_lineLabels {methods : List Method} {codes : List MethodCode}
    (generates : GeneratesMethods linkage methods counts codes after) :
    (codes.flatMap fun code => lineLabels code.lines) =
      lineLabels (bodyCode linkage false [] counts (methods.flatMap Method.body)) := by
  induction generates with
  | nil _ => rfl
  | cons first _ ih =>
      obtain ⟨_, rfl, rfl⟩ := generateMethod_eq_ok_iff_generatedMethod.mp first
      rw [List.flatMap_cons, List.flatMap_cons, bodyCode_append, lineLabels_append,
        ih]
      exact congrArg (· ++ _) (lineLabels_bodyCode_congr ..)

/-- Labels of statements that are defined once stay so among those of comparisons. -/
theorem nodup_lineLabels_bodyCode {body : ThreeAddress.Code}
    (distinct : (definedLabels body).Nodup)
    (foreign : ∀ label ∈ definedLabels body, ¬IsComparisonLabel label) :
    (lineLabels (bodyCode linkage isMain names counts body)).Nodup := by
  rw [List.nodup_iff_count_le_one]
  intro label
  by_cases defined : label ∈ definedLabels body
  · rw [count_lineLabels_bodyCode (foreign label defined)]
    exact List.nodup_iff_count_le_one.mp distinct label
  · exact count_lineLabels_bodyCode_le_one defined

/-! ## Straight code -/

theorem Instr.IsPlain.isStraight {op : Instr} (isPlain : op.IsPlain) : op.IsStraight := by
  cases op with
  | goto target | branch test target | ret category => exact isPlain.elim
  | _ => trivial

theorem straight_loadCode (names : List String) (value : Value) :
    Straight (loadCode names value) := by
  intro line member
  obtain ⟨op, rfl, isPlain | ⟨category, slot, rfl⟩⟩ := isPlain_or_load_of_mem_loadCode member
  · exact ⟨op, rfl, isPlain.isStraight⟩
  · exact ⟨_, rfl, trivial⟩

theorem straight_callCode (linkage : Linkage) (names : List String) (call : ThreeAddress.Call) :
    Straight (callCode linkage names call) := by
  intro line member
  have part : Part linkage false names {} (.call none call) line := .of_callCode member
  cases part with
  | plain isPlain => exact ⟨_, rfl, isPlain.isStraight⟩
  | _ => exact ⟨_, rfl, trivial⟩

/-! ## Jumps of emitted code -/

/-- The jumps of an instruction go where the instruction says, or to a label of its own
lines. -/
theorem target_instrCode {instr : ThreeAddress.Instr} {op : Instr} {target : String}
    (member : .instr op ∈ instrCode linkage isMain names counts instr)
    (jumps : op.target? = some target) :
    instr.target? = some target ∨
      target ∈ lineLabels (instrCode linkage isMain names counts instr) := by
  rw [lineLabels_instrCode]
  cases Part.of_instrCode member with
  | plain isPlain =>
      rw [isPlain.isStraight.target?_eq_none] at jumps
      cases jumps
  | test =>
      cases jumps
      exact .inr List.mem_cons_self
  | skip =>
      cases jumps
      exact .inr (List.mem_cons_of_mem _ List.mem_cons_self)
  | goto | branch => exact .inl jumps
  | _ => cases jumps

/-- A label of the body stands on a line of its code. -/
theorem mem_lineLabels_of_mem_definedLabels {body : ThreeAddress.Code} {label : String}
    (defined : label ∈ definedLabels body) :
    label ∈ lineLabels (bodyCode linkage isMain names counts body) := by
  induction body generalizing counts with
  | nil => cases defined
  | cons instr rest ih =>
      rw [ThreeAddress.definedLabels_cons, List.mem_append] at defined
      rw [bodyCode, lineLabels_append, lineLabels_instrCode, List.mem_append]
      rcases defined with here | later
      · left
        cases instr with
        | label name => exact here
        | _ => cases here
      · exact .inr (ih later)

/-- The jumps of a body go where an instruction says, or to a label of its lines. -/
theorem target_bodyCode {body : ThreeAddress.Code} {op : Instr} {target : String}
    (member : .instr op ∈ bodyCode linkage isMain names counts body)
    (jumps : op.target? = some target) :
    (∃ instr ∈ body, instr.target? = some target) ∨
      target ∈ lineLabels (bodyCode linkage isMain names counts body) := by
  induction body generalizing counts with
  | nil => cases member
  | cons instr rest ih =>
      rw [bodyCode, List.mem_append] at member
      rw [bodyCode, lineLabels_append, List.mem_append]
      rcases member with here | later
      · rcases target_instrCode here jumps with said | labelled
        · exact .inl ⟨instr, List.mem_cons_self, said⟩
        · exact .inr (.inl labelled)
      · rcases ih later with ⟨other, otherMember, said⟩ | labelled
        · exact .inl ⟨other, List.mem_cons_of_mem _ otherMember, said⟩
        · exact .inr (.inr labelled)

/-- If the jumps of a method stay inside its body, those of its code stay inside the
code. -/
theorem target_methodCode {method : Method} (inside : JumpsInside method.body) {op : Instr}
    {target : String} (member : .instr op ∈ methodCode linkage method counts)
    (jumps : op.target? = some target) :
    target ∈ lineLabels (methodCode linkage method counts) := by
  rcases target_bodyCode member jumps with ⟨instr, instrMember, said⟩ | labelled
  · exact mem_lineLabels_of_mem_definedLabels (inside instr instrMember target said)
  · exact labelled

/-! ## Classes -/

theorem jumpsInside_of_mem_classOf {table : SymbolTable} {decls : List MethodDecl}
    {state last : ThreeAddress.LoweringState} {methods : List Method} {method : Method}
    (lowers : ThreeAddress.LowersMethods table decls state methods last)
    (member : method ∈ (ThreeAddress.classOf table methods).methods) : JumpsInside method.body := by
  rcases List.mem_cons.mp member with rfl | lowered
  · exact ThreeAddress.jumpsInside_nil.concat rfl |>.concat rfl
  · obtain ⟨_, _, _, _, lowersMethod⟩ := lowers.exists_decl lowered
    exact lowersMethod.jumpsInside

theorem not_isComparisonLabel_of_mem_classOf {table : SymbolTable} {decls : List MethodDecl}
    {state last : ThreeAddress.LoweringState} {methods : List Method} {method : Method}
    (lowers : ThreeAddress.LowersMethods table decls state methods last)
    (member : method ∈ (ThreeAddress.classOf table methods).methods) :
    ∀ label ∈ definedLabels method.body, ¬IsComparisonLabel label := by
  intro label defined
  rcases List.mem_cons.mp member with rfl | lowered
  · cases defined
  · obtain ⟨_, _, _, _, lowersMethod⟩ := lowers.exists_decl lowered
    obtain ⟨kind, number, rfl, _⟩ := lowersMethod.labelled.1.taken label defined
    exact not_isComparisonLabel_labelName kind number

/-- The labels of blocks, with repetitions. -/
def blockLabels (blocks : List MethodBlock) : List String :=
  blocks.flatMap fun block => lineLabels block.lines

/-- In the listing of a compiled class with plain names no label stands twice, and every jump
goes to a label of its own block. -/
theorem labels_unique_and_closed_of_compile {options : Options} {table : SymbolTable}
    {program : Program} {compiled : Compiled}
    (run : compile options table program = .ok compiled) (plainOptions : PlainOptions options)
    (plain : PlainClass compiled.unit) :
    ∃ blocks, readListing compiled.assembly = some blocks ∧
      (blockLabels blocks).Nodup ∧
      ∀ block ∈ blocks, ∀ instr target, .instr instr ∈ block.lines →
        instr.target? = some target →
          (blockLabels blocks).count target = 1 ∧ target ∈ lineLabels block.lines := by
  obtain ⟨lowered, file, isWritten⟩ := compile_eq_ok_iff.mp run
  have read := isWritten.readListing_assembly plainOptions plain
  obtain ⟨last, generated⟩ := isWritten.generated
  obtain ⟨methods, _, lowers, unitEq⟩ := ThreeAddress.exists_lowersMethods_of_lowerFresh lowered
  obtain ⟨_, codes, generates, rfl⟩ := generateClass_eq_ok_iff.mp generated
  have labelsEq : blockLabels (codes.map MethodCode.block) =
      codes.flatMap fun code => lineLabels code.lines := List.flatMap_map ..
  have distinct : (blockLabels (codes.map MethodCode.block)).Nodup := by
    have labelled := lowers.labelled.1
    rw [← ThreeAddress.definedLabels_classOf table methods, ← unitEq] at labelled
    rw [labelsEq, generates.flatMap_lineLabels]
    apply nodup_lineLabels_bodyCode labelled.distinct
    intro label member
    obtain ⟨kind, number, rfl, _⟩ := labelled.taken label member
    exact not_isComparisonLabel_labelName kind number
  refine ⟨_, read, distinct, List.forall_mem_map.mpr fun code member => ?_⟩
  intro instr target instrMember jumps
  obtain ⟨method, methodMember, start, stop, generatedMethod⟩ := generates.exists_method member
  obtain ⟨_, codeEq, _⟩ := generateMethod_eq_ok_iff_generatedMethod.mp generatedMethod
  rw [unitEq] at methodMember
  have here : target ∈ lineLabels code.lines := by
    rw [codeEq] at instrMember ⊢
    exact target_methodCode (jumpsInside_of_mem_classOf lowers methodMember) instrMember jumps
  have inClass : target ∈ blockLabels (codes.map MethodCode.block) := by
    rw [labelsEq]
    exact List.mem_flatMap.mpr ⟨code, member, here⟩
  exact ⟨List.count_eq_one_of_mem distinct inClass, here⟩

/-- Both methods of the class have a loop with a comparison. -/
theorem labels_unique_and_closed_ledgerProgram :
    PlainOptions {} ∧
      ∃ compiled, compile {} (.ofProgram ledgerProgram) ledgerProgram = .ok compiled ∧
        PlainClass compiled.unit ∧
        ∃ blocks, readListing compiled.assembly = some blocks ∧ (blockLabels blocks).Nodup ∧
          ∀ block ∈ blocks, ∀ instr target, .instr instr ∈ block.lines →
            instr.target? = some target →
              (blockLabels blocks).count target = 1 ∧ target ∈ lineLabels block.lines := by
  have plainOptions : PlainOptions {} := ⟨by decide, by decide⟩
  obtain ⟨compiled, run⟩ := exists_compile_ledgerProgram {}
  have plain : PlainClass compiled.unit := plainClass_of_compile run (by decide +kernel)
  exact ⟨plainOptions, compiled, run, plain,
    labels_unique_and_closed_of_compile run plainOptions plain⟩

/-- A class whose method has a name with line breaks. What follows them is read as the end of
another method, which has a label of its own, and as the header of a further one. -/
def forgedProgram : Program where
  imports := []
  decl := {
    name := "Forge"
    superClass := none
    fields := []
    methods := [
      { name := "one()V\n.limit stack 0\n.limit locals 1\nifThen0:\nreturn\n.end method\n\n" ++
          ".method public two"
        returnTy := Ty.void
        params := [⟨"flag", Ty.boolean⟩]
        locals := []
        body := [.ifElse (.var "flag") (.block []) (.block [])]
        isStatic := false
        isPublic := true }] }

/-- The label of the conditional stands twice in the listing. -/
theorem not_labels_unique_forgedProgram :
    ∃ compiled, compile {} (.ofProgram forgedProgram) forgedProgram = .ok compiled ∧
      ∃ blocks, readListing compiled.assembly = some blocks ∧
        (blockLabels blocks).count "ifThen0" = 2 := by
  obtain ⟨compiled, run, counted⟩ :=
    exists_compile_of_lines (.ofProgram forgedProgram) forgedProgram
      (fun lines =>
        (readBlocks lines).map (fun blocks => (blockLabels blocks).count "ifThen0") = some 2)
      (by decide +kernel)
  exact ⟨compiled, run, Option.map_eq_some_iff.mp counted⟩

end ClassCompiler.StackCode
