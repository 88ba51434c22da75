import ClassCompiler.Compile
import ClassCompiler.Proofs.Emission.Methods

/-!
# Emitting classes

A class is generated exactly if its fields have descriptors and each of its methods
has slots, code and a header. The counts of comparisons go on from one method to the
next. Compilation is lowering followed by generation from a new supply of counts.
-/

namespace ClassCompiler.StackCode

open Effects
open ThreeAddress (Method ClassUnit)

variable {linkage : Linkage} {counts after : ComparisonCounts}

/-! ## Headers -/

/-- A method other than the constructor and the entry point has a header if its types
have descriptors. -/
def HasHeader (method : Method) : Prop :=
  method.isConstructor = false → method.isMain = false →
    (∀ param ∈ method.params, IsParameter param.ty) ∧ Describable method.returnTy

instance (method : Method) : Decidable (HasHeader method) :=
  inferInstanceAs (Decidable (method.isConstructor = false → method.isMain = false →
    (∀ param ∈ method.params, IsParameter param.ty) ∧ Describable method.returnTy))

/-- The header of a method that has one. -/
def methodHeader (paths : ClassPaths) (method : Method) : Header :=
  if method.isConstructor then .constructor
  else if method.isMain then .main
  else .method method.isPublic method.isStatic method.name
    (paths.signatureOf (method.params.map Symbol.ty) method.returnTy)

theorem headerOf_eq_ok_iff {paths : ClassPaths} {method : Method} {header : Header} :
    headerOf paths method = .ok header ↔
      HasHeader method ∧ header = methodHeader paths method := by
  unfold headerOf HasHeader methodHeader
  cases method.isConstructor with
  | true => simp [@eq_comm _ header]
  | false =>
      cases method.isMain with
      | true => simp [@eq_comm _ header]
      | false =>
          simp only [Bool.false_eq_true, if_false, except_bind_eq_ok_iff, methodDescriptor_eq_ok_iff,
            List.forall_mem_map, forall_const]
          constructor
          · rintro ⟨_, ⟨describable, rfl⟩, same⟩
            cases same
            exact ⟨describable, rfl⟩
          · rintro ⟨describable, rfl⟩
            exact ⟨_, ⟨describable, rfl⟩, rfl⟩

/-- The code of a method that can be generated. -/
def generatedMethod (linkage : Linkage) (method : Method) (counts : ComparisonCounts) :
    MethodCode where
  header := methodHeader linkage.paths method
  stackLimit := bodyHeight method.isMain method.body
  localLimit := (slotNames method).length
  lines := methodCode linkage method counts

theorem generateMethod_eq_ok_iff_generatedMethod {method : Method} {code : MethodCode} :
    generateMethod linkage method counts = .ok code after ↔
      (IsEmittable method ∧ HasHeader method) ∧ code = generatedMethod linkage method counts ∧
        after = bodyCounts counts method.body := by
  rw [generateMethod_eq_ok_iff, headerOf_eq_ok_iff]
  constructor
  · rintro ⟨isEmittable, ⟨hasHeader, headerEq⟩, stackEq, localEq, linesEq, afterEq⟩
    obtain ⟨header, stackLimit, localLimit, lines⟩ := code
    cases headerEq
    cases stackEq
    cases localEq
    cases linesEq
    exact ⟨⟨isEmittable, hasHeader⟩, rfl, afterEq⟩
  · rintro ⟨⟨isEmittable, hasHeader⟩, rfl, afterEq⟩
    exact ⟨isEmittable, ⟨hasHeader, rfl⟩, rfl, rfl, rfl, afterEq⟩

/-! ## Methods in order -/

/-- Methods are generated one after the other. -/
inductive GeneratesMethods (linkage : Linkage) :
    List Method → ComparisonCounts → List MethodCode → ComparisonCounts → Prop where
  | nil (counts : ComparisonCounts) : GeneratesMethods linkage [] counts [] counts
  | cons {method : Method} {rest : List Method} {counts middle after : ComparisonCounts}
      {code : MethodCode} {codes : List MethodCode}
      (first : generateMethod linkage method counts = .ok code middle)
      (others : GeneratesMethods linkage rest middle codes after) :
      GeneratesMethods linkage (method :: rest) counts (code :: codes) after

theorem generateMethods_eq_ok_iff {methods : List Method} {codes : List MethodCode} :
    generateMethods linkage methods counts = .ok codes after ↔
      GeneratesMethods linkage methods counts codes after := by
  induction methods generalizing counts codes with
  | nil =>
      constructor
      · intro run
        cases run
        exact .nil _
      · intro generates
        cases generates
        rfl
  | cons method rest ih =>
      simp only [generateMethods, bind_eq_ok_iff]
      constructor
      · rintro ⟨code, middle, first, others, last, generates, same⟩
        cases same
        exact .cons first (ih.mp generates)
      · intro generates
        cases generates with
        | cons first others => exact ⟨_, _, first, _, _, ih.mpr others, rfl⟩

/-- Every method code of a class was generated for a method of the class. -/
theorem GeneratesMethods.exists_method {methods : List Method} {codes : List MethodCode}
    (generates : GeneratesMethods linkage methods counts codes after) {code : MethodCode}
    (member : code ∈ codes) : ∃ method ∈ methods, ∃ start stop,
      generateMethod linkage method start = .ok code stop := by
  induction generates with
  | nil => cases member
  | cons first _ ih =>
      rcases List.mem_cons.mp member with rfl | later
      · exact ⟨_, List.mem_cons_self, _, _, first⟩
      · obtain ⟨method, methodMember, found⟩ := ih later
        exact ⟨method, List.mem_cons_of_mem _ methodMember, found⟩

/-- What holds of the code of each emittable method holds along the methods of a class. -/
theorem GeneratesMethods.forall₂ {methods : List Method} {codes : List MethodCode}
    {relates : Method → MethodCode → Prop}
    (generates : GeneratesMethods linkage methods counts codes after)
    (each : ∀ method ∈ methods, IsEmittable method → ∀ start,
      relates method (generatedMethod linkage method start)) :
    List.Forall₂ relates methods codes := by
  induction generates with
  | nil _ => exact .nil
  | cons first _ ih =>
      obtain ⟨⟨isEmittable, _⟩, rfl, _⟩ := generateMethod_eq_ok_iff_generatedMethod.mp first
      rw [List.forall_mem_cons] at each
      exact .cons (each.1 isEmittable _) (ih each.2)

/-- The code of a method stands at the place of the method. -/
theorem GeneratesMethods.getElem? {methods : List Method} {codes : List MethodCode}
    (generates : GeneratesMethods linkage methods counts codes after) {index : Nat}
    {method : Method} (atIndex : methods[index]? = some method) :
    ∃ start, codes[index]? = some (generatedMethod linkage method start) := by
  induction generates generalizing index with
  | nil => cases atIndex
  | @cons _ _ counts _ _ _ _ first _ ih =>
      cases index with
      | zero =>
          cases atIndex
          obtain ⟨_, rfl, _⟩ := generateMethod_eq_ok_iff_generatedMethod.mp first
          exact ⟨counts, rfl⟩
      | succ index => exact ih atIndex

theorem exists_generatesMethods_iff {methods : List Method} :
    (∃ codes after, GeneratesMethods linkage methods counts codes after) ↔
      ∀ method ∈ methods, IsEmittable method ∧ HasHeader method := by
  induction methods generalizing counts with
  | nil => exact iff_of_true ⟨[], counts, .nil _⟩ (by simp)
  | cons method rest ih =>
      rw [List.forall_mem_cons]
      constructor
      · rintro ⟨_, _, generates⟩
        cases generates with
        | cons first others =>
            exact ⟨(generateMethod_eq_ok_iff_generatedMethod.mp first).1,
              ih.mp ⟨_, _, others⟩⟩
      · rintro ⟨emittable, restEmittable⟩
        obtain ⟨codes, after, others⟩ := ih.mpr restEmittable
        have first : generateMethod linkage method counts =
            .ok (generatedMethod linkage method counts) (bodyCounts counts method.body) :=
          generateMethod_eq_ok_iff_generatedMethod.mpr ⟨emittable, rfl, rfl⟩
        exact ⟨_, _, .cons first others⟩

/-! ## Classes -/

theorem fieldDescriptors_eq_ok_iff {paths : ClassPaths} {fields : List Symbol}
    {found : List (String × Descriptor)} :
    fieldDescriptors paths fields = .ok found ↔
      (∀ field ∈ fields, Describable field.ty) ∧
        found = fields.map fun field => (field.name, paths.descriptorOf field.ty) := by
  unfold fieldDescriptors
  induction fields generalizing found with
  | nil => simp [pure, Except.pure, eq_comm]
  | cons field rest ih =>
      simp only [List.mapM_cons, except_bind_eq_ok_iff, descriptor_eq_ok_iff, ih,
        List.forall_mem_cons, List.map_cons]
      constructor
      · rintro ⟨_, ⟨_, ⟨describable, rfl⟩, sameEntry⟩, _, ⟨others, rfl⟩, same⟩
        cases sameEntry
        cases same
        exact ⟨⟨describable, others⟩, rfl⟩
      · rintro ⟨⟨describable, others⟩, rfl⟩
        exact ⟨_, ⟨_, ⟨describable, rfl⟩, rfl⟩, _, ⟨others, rfl⟩, rfl⟩

/-- Classes whose fields have descriptors and whose methods have slots, code and
headers. -/
def HasClassCode (unit : ClassUnit) : Prop :=
  (∀ field ∈ unit.fields, Describable field.ty) ∧
    ∀ method ∈ unit.methods, IsEmittable method ∧ HasHeader method

instance (method : Method) : Decidable (IsEmittable method) :=
  decidable_of_iff ((slotNames method).Nodup ∧ (slotNames method).length ≤ maxLocals ∧
      ∀ instr ∈ method.body, Emittable method.isMain (slotNames method) instr)
    ⟨fun ⟨distinct, fits, emittable⟩ => ⟨distinct, fits, emittable⟩,
      fun ⟨distinct, fits, emittable⟩ => ⟨distinct, fits, emittable⟩⟩

instance (unit : ClassUnit) : Decidable (HasClassCode unit) :=
  inferInstanceAs (Decidable ((∀ field ∈ unit.fields, Describable field.ty) ∧
    ∀ method ∈ unit.methods, IsEmittable method ∧ HasHeader method))

/-- The class file with given method codes. -/
def classFileOf (linkage : Linkage) (unit : ClassUnit) (codes : List MethodCode) : ClassFile where
  name := unit.name
  superPath := linkage.superPath
  fields := unit.fields.map fun field => (field.name, linkage.paths.descriptorOf field.ty)
  methods := codes

theorem generateClass_eq_ok_iff {rootClass : String} {unit : ClassUnit} {file : ClassFile} :
    generateClass rootClass unit counts = .ok file after ↔
      (∀ field ∈ unit.fields, Describable field.ty) ∧
        ∃ codes, GeneratesMethods (.ofClass rootClass unit) unit.methods counts codes after ∧
          file = classFileOf (.ofClass rootClass unit) unit codes := by
  unfold generateClass
  cases fieldsEq : fieldDescriptors (Linkage.ofClass rootClass unit).paths unit.fields with
  | error error =>
      refine iff_of_false ?_ ?_
      · simp [bind_apply, throw_apply]
      · rintro ⟨describable, _⟩
        rw [fieldDescriptors_eq_ok_iff.mpr ⟨describable, rfl⟩] at fieldsEq
        cases fieldsEq
  | ok fields =>
      obtain ⟨describable, rfl⟩ := fieldDescriptors_eq_ok_iff.mp fieldsEq
      simp only [bind_eq_ok_iff, generateMethods_eq_ok_iff]
      constructor
      · rintro ⟨_, _, sameFields, codes, _, generates, same⟩
        cases sameFields
        cases same
        exact ⟨describable, codes, generates, rfl⟩
      · rintro ⟨_, codes, generates, rfl⟩
        exact ⟨_, _, rfl, codes, _, generates, rfl⟩

theorem assembleFresh_eq_ok_iff {options : Options} {unit : ClassUnit} {text : String} :
    assembleFresh options unit = .ok text ↔
      ∃ file after, generateClass options.rootClass unit {} = .ok file after ∧
        text = file.text options.layout := by
  unfold assembleFresh assemble
  rw [bind_apply]
  cases generateClass options.rootClass unit {} with
  | error error after => simp
  | ok file after => simp [pure_apply, eq_comm]

end ClassCompiler.StackCode

namespace ClassCompiler

open Effects StackCode

/-- The class file whose written form a compilation gives. -/
structure Compiled.IsWritten (compiled : Compiled) (options : Options) (file : ClassFile) :
    Prop where
  generated : ∃ after, generateClass options.rootClass compiled.unit {} = .ok file after
  assembly_eq : compiled.assembly = file.text options.layout

/-- Programs that are lowered to a class for which there is code. Unlike compilation
itself this can be evaluated, since no slot is looked up in a hash table. -/
def IsCompilable (table : SymbolTable) (program : Program) : Prop :=
  ∃ unit, ThreeAddress.lowerFresh table program = .ok unit ∧ HasClassCode unit

instance (table : SymbolTable) (program : Program) : Decidable (IsCompilable table program) :=
  match lowered : ThreeAddress.lowerFresh table program with
  | .ok unit => decidable_of_iff (HasClassCode unit) (by simp [IsCompilable, lowered])
  | .error error => isFalse (by simp [IsCompilable, lowered])

/-- Compilation is lowering followed by generation. -/
theorem compile_eq_ok_iff {options : Options} {table : SymbolTable} {program : Program}
    {compiled : Compiled} :
    compile options table program = .ok compiled ↔
      ThreeAddress.lowerFresh table program = .ok compiled.unit ∧
        ∃ file, compiled.IsWritten options file := by
  unfold compile
  simp only [except_bind_eq_ok_iff, assembleFresh_eq_ok_iff]
  constructor
  · rintro ⟨unit, lowered, _, ⟨file, after, generated, rfl⟩, same⟩
    cases same
    exact ⟨lowered, file, ⟨after, generated⟩, rfl⟩
  · rintro ⟨lowered, file, ⟨after, generated⟩, assemblyEq⟩
    exact ⟨_, lowered, _, ⟨file, after, generated, assemblyEq⟩, rfl⟩

/-- A program is compiled exactly if it is lowered to a class for which there is code. -/
theorem exists_compile_iff {options : Options} {table : SymbolTable} {program : Program} :
    (∃ compiled, compile options table program = .ok compiled) ↔ IsCompilable table program := by
  constructor
  · rintro ⟨compiled, run⟩
    obtain ⟨lowered, file, ⟨after, generated⟩, _⟩ := compile_eq_ok_iff.mp run
    obtain ⟨describable, codes, generates, _⟩ := generateClass_eq_ok_iff.mp generated
    exact ⟨_, lowered, describable, exists_generatesMethods_iff.mp ⟨_, _, generates⟩⟩
  · rintro ⟨unit, lowered, describable, emittable⟩
    obtain ⟨codes, after, generates⟩ := exists_generatesMethods_iff.mpr emittable
    let file := classFileOf (.ofClass options.rootClass unit) unit codes
    have generated : generateClass options.rootClass unit {} = .ok file after :=
      generateClass_eq_ok_iff.mpr ⟨describable, codes, generates, rfl⟩
    exact ⟨⟨unit, file.text options.layout⟩,
      compile_eq_ok_iff.mpr ⟨lowered, file, ⟨after, generated⟩, rfl⟩⟩

/-! ## A class with loops, conditionals and calls -/

/-- A method that adds up its trailing arguments and keeps those above a limit. -/
def addMethod : MethodDecl where
  name := "add"
  returnTy := Ty.int
  params := [⟨"limit", Ty.int⟩, ⟨"items", Ty.varargOf "int"⟩]
  locals := [⟨"i", Ty.int⟩]
  body := [
    .assign (.var "entries") (.newArray Ty.int (.length (.var "items"))),
    .whileLoop (.binary (.compare .less) (.var "i") (.length (.var "items")))
      (.block [
        .ifElse (.binary .and (.not (.var "open"))
            (.binary (.compare .greaterEqual) (.index (.var "items") (.var "i")) (.var "limit")))
          (.assign (.index (.var "entries") (.var "i")) (.var "limit"))
          (.assign (.var "total")
            (.binary (.arith .add) (.var "total") (.index (.var "items") (.var "i")))),
        .assign (.var "i") (.binary (.arith .add) (.var "i") (.int 1))]),
    .ret (some (.var "total"))]
  isStatic := false
  isPublic := true

/-- An entry point that makes a ledger and shows what its method returns. -/
def showMethod : MethodDecl where
  name := "main"
  returnTy := Ty.void
  params := [⟨"args", Ty.arrayOf "String"⟩]
  locals := [⟨"ledger", Ty.named "Ledger"⟩, ⟨"i", Ty.int⟩]
  body := [
    .assign (.var "ledger") (.newObject "Ledger"),
    .whileLoop (.binary (.compare .less) (.var "i") (.int 3))
      (.block [
        .expr (.call (.var "Printer") "show"
          [.call (.var "ledger") "add" [.int 9, .var "i", .int 4]]),
        .assign (.var "i") (.binary (.arith .add) (.var "i") (.int 1))])]
  isStatic := true
  isPublic := true

/-- A class with fields, a parent, and methods that call each other. -/
def ledgerProgram : Program where
  imports := ["io.Printer", "base.Book"]
  decl := {
    name := "Ledger"
    superClass := some "Book"
    fields := [⟨"total", Ty.int⟩, ⟨"open", Ty.boolean⟩, ⟨"entries", Ty.arrayOf "int"⟩]
    methods := [addMethod, showMethod] }

theorem exists_compile_ledgerProgram (options : Options) :
    ∃ compiled, compile options (.ofProgram ledgerProgram) ledgerProgram = .ok compiled :=
  exists_compile_iff.mpr (by decide +kernel)

end ClassCompiler
