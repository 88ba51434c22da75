import ClassCompiler.Proofs.Assembly.Listing
import ClassCompiler.Proofs.Lowering.StringLiterals

/-!
# String constants

A string constant cannot corrupt a listing. It is written as a literal that keeps to its
line, and different constants are written differently. If the names of a class are names,
each string literal of its program has one line in the listing, unless its value is
dropped, when it has none, and no other line pushes a string constant.
-/

namespace ClassCompiler.StackCode

open ThreeAddress (Call Code Value stringsOf)

/-! ## Constants that code pushes -/

section

variable (value : String) (names : List String)

/-- How often lines push a string constant. -/
def literalCount (lines : Lines) : Nat := lines.count (.instr (.pushString value))

@[simp] theorem literalCount_nil : literalCount value [] = 0 := rfl

@[simp] theorem literalCount_instr (op : Instr) (rest : Lines) :
    literalCount value (.instr op :: rest) =
      literalCount value rest + if op = .pushString value then 1 else 0 := by
  simp [literalCount, List.count_cons]

@[simp] theorem literalCount_label (name : String) (rest : Lines) :
    literalCount value (.label name :: rest) = literalCount value rest := by
  simp [literalCount]

@[simp] theorem literalCount_append (lines others : Lines) :
    literalCount value (lines ++ others) = literalCount value lines + literalCount value others :=
  List.count_append

attribute [local simp] Value.strings Call.operands ThreeAddress.Instr.pushed
  ThreeAddress.Instr.sources

@[local simp] theorem literalCount_loadCode (operand : Value) :
    literalCount value (loadCode names operand) = operand.strings.count value := by
  induction operand with
  | const constant => cases constant <;> simp [loadCode, pushBool, List.count_singleton]
  | element array position ty arrayCount positionCount =>
      simp [loadCode, arrayCount, positionCount]
  | _ => simp [loadCode]

@[local simp] theorem literalCount_loadsCode (operands : List Value) :
    literalCount value (loadsCode names operands) = (stringsOf operands).count value := by
  induction operands with
  | nil => rfl
  | cons operand rest ih =>
      rw [loadsCode, List.flatMap_cons, literalCount_append, literalCount_loadCode,
        ThreeAddress.stringsOf_cons, List.count_append, ← ih]
      rfl

@[local simp] theorem literalCount_storeCode (dest : Value) :
    literalCount value (storeCode names dest) = 0 := by
  cases dest <;> simp [storeCode]

variable (linkage : Linkage) (isMain : Bool) (counts : ComparisonCounts)

theorem literalCount_callCode (call : Call) :
    literalCount value (callCode linkage names call) = (stringsOf call.operands).count value := by
  obtain ⟨invocation, target, method, args, returnTy⟩ := call
  cases invocation with
  | new => simp [callCode]
  | newArray => cases args <;> simp [callCode]
  | arrayLength => cases target <;> simp [callCode]
  | invoke mode => cases target <;> cases method <;> simp [callCode]

theorem literalCount_instrCode (instr : ThreeAddress.Instr) :
    literalCount value (instrCode linkage isMain names counts instr) =
      (stringsOf (instr.pushed isMain)).count value := by
  cases instr with
  | assign dest operand => cases dest <;> simp [instrCode]
  | binary dest op left right =>
      have increments {increment : String × Int8}
          (found : increment? dest op left right = some increment) :
          left.strings = [] ∧ right.strings = [] := by
        have noStrings {operand : Value} (isVar : operand.varName? = some increment.1) :
            operand.strings = [] := by
          cases operand with
          | temp name ty | var name ty => rfl
          | _ => cases isVar
        obtain ⟨_, _, ⟨leftVar, _, rfl, _⟩ | ⟨rightVar, _, _, rfl, _⟩⟩ := increment?_eq_some found
        · exact ⟨noStrings leftVar, rfl⟩
        · exact ⟨rfl, noStrings rightVar⟩
      simp only [instrCode]
      split
      · next found => simp [increments found]
      · cases op <;> simp [operatorCode, comparisonCode]
  | call dest call =>
      have noLiteral : literalCount value (resultCode names dest call) = 0 := by
        unfold resultCode
        split
        · simp
        · split <;> simp
      simp [instrCode, literalCount_callCode, noLiteral]
  | ret operand =>
      rcases operand with _ | operand
      · simp [instrCode]
      · cases isMain <;> simp [instrCode]
  | _ => simp [instrCode]

theorem literalCount_bodyCode (body : Code) :
    literalCount value (bodyCode linkage isMain names counts body) =
      (Code.strings isMain body).count value := by
  induction body generalizing counts with
  | nil => rfl
  | cons instr rest ih => simp [bodyCode, literalCount_instrCode, ih]

/-- Methods that are generated in order push the string constants of their bodies. -/
theorem GeneratesMethods.literalCount_eq {linkage : Linkage} {counts after : ComparisonCounts}
    {methods : List ThreeAddress.Method} {codes : List MethodCode}
    (generates : GeneratesMethods linkage methods counts codes after) :
    literalCount value (codes.flatMap MethodCode.lines) =
      (methods.flatMap fun method => Code.strings method.isMain method.body).count value := by
  induction generates with
  | nil => rfl
  | cons first _ ih =>
      obtain ⟨_, rfl, _⟩ := generateMethod_eq_ok_iff_generatedMethod.mp first
      rw [List.flatMap_cons, List.flatMap_cons, literalCount_append, List.count_append, ih]
      exact congrArg (· + _) (literalCount_bodyCode ..)

end

end ClassCompiler.StackCode

namespace ClassCompiler

open StackCode Text
open ThreeAddress (Constant)

/-! ## Listings of programs -/

/-- How many lines of a text are read as the string constant. -/
def linesOfLiteral (text value : String) : Nat :=
  literalCount value ((linesOf text).filterMap readLine)

/-- The listing of a class with plain names has one line for each string constant that its
program uses. -/
theorem linesOfLiteral_of_compile {options : Options} {table : SymbolTable} {program : Program}
    {compiled : Compiled} (run : compile options table program = .ok compiled)
    (plainOptions : PlainOptions options) (plain : PlainClass compiled.unit) (value : String) :
    linesOfLiteral compiled.assembly value = (program.usedStrings table).count value := by
  obtain ⟨lowered, file, ⟨after, generated⟩, assemblyEq⟩ := compile_eq_ok_iff.mp run
  have readable := plain.isReadable plainOptions generated
  obtain ⟨_, codes, generates, rfl⟩ := generateClass_eq_ok_iff.mp generated
  rw [linesOfLiteral, assemblyEq, readable.filterMap_readLine_text plainOptions.indent]
  exact (generates.literalCount_eq value).trans
    (ThreeAddress.count_strings_of_lowerFresh value lowered)

/-- A string constant is written as a literal without line breaks, in listings of stack code
as in those of three-address code, and different constants are written differently. Each
string literal of a program whose value is not dropped has its own line in the listing, and
no other line is that of a string constant, if the names of the class are names. -/
theorem string_constants_keep_to_their_lines :
    (∀ value, ∃ literal, IsLiteral literal value ∧ IsUnbroken literal ∧
      (Instr.pushString value).text = "ldc " ++ literal ∧
      (Constant.string value).text = literal ++ ".string") ∧
    (∀ first second, first ≠ second →
      (Instr.pushString first).text ≠ (Instr.pushString second).text ∧
      (Constant.string first).text ≠ (Constant.string second).text) ∧
    ∀ options table program compiled, compile options table program = .ok compiled →
      PlainOptions options → PlainClass compiled.unit →
      ∀ value, linesOfLiteral compiled.assembly value =
        (program.usedStrings table).count value := by
  refine ⟨fun value => ?_, fun first second differ => ?_,
    fun options table program compiled run => linesOfLiteral_of_compile run⟩
  · exact ⟨quoted value, isLiteral_quoted value, (isLiteral_quoted value).notMem, rfl, rfl⟩
  · have quotedDiffer : quoted first ≠ quoted second := fun same => differ (quoted_injective same)
    exact ⟨fun same => quotedDiffer ((String.append_right_inj _).mp same),
      fun same => quotedDiffer ((String.append_left_inj _).mp same)⟩

/-- A class with a literal that is an argument and with literals of all kinds that are
dropped. -/
def noticeProgram : Program where
  imports := []
  decl := {
    name := "String"
    superClass := none
    fields := []
    methods := [
      { name := "tell"
        returnTy := Ty.void
        params := [⟨"text", Ty.string⟩]
        locals := []
        body := []
        isStatic := true
        isPublic := true },
      { name := "main"
        returnTy := Ty.void
        params := [⟨"args", Ty.arrayOf "String"⟩]
        locals := []
        body := [
          .expr (.string "left"),
          .expr (.call (.string "aside") "tell" [.string "\"kept\\\n"]),
          .ret (some (.string "over"))]
        isStatic := true
        isPublic := true }] }

theorem exists_compile_noticeProgram :
    ∃ compiled, compile {} (.ofProgram noticeProgram) noticeProgram = .ok compiled :=
  exists_compile_iff.mpr (by decide +kernel)

/-- The argument has one line, though it looks like the end of a literal. -/
theorem string_constants_keep_to_their_lines_noticeProgram :
    "\\n" ≠ "\n" ∧ (Instr.pushString "\\n").text ≠ (Instr.pushString "\n").text ∧
      PlainOptions {} ∧
      ∃ compiled, compile {} (.ofProgram noticeProgram) noticeProgram = .ok compiled ∧
        PlainClass compiled.unit ∧ linesOfLiteral compiled.assembly "\"kept\\\n" = 1 := by
  obtain ⟨_, differ, listings⟩ := string_constants_keep_to_their_lines
  have different : "\\n" ≠ "\n" := by decide
  have plainOptions : PlainOptions {} := ⟨by decide, by decide⟩
  obtain ⟨compiled, run⟩ := exists_compile_noticeProgram
  have plain : PlainClass compiled.unit := plainClass_of_compile run (by decide +kernel)
  refine ⟨different, (differ _ _ different).1, plainOptions, compiled, run, plain, ?_⟩
  rw [listings _ _ _ _ run plainOptions plain]
  decide +kernel

/-- Three literals of the program have no line at all. -/
theorem not_all_literals_on_lines_noticeProgram :
    ∃ compiled, compile {} (.ofProgram noticeProgram) noticeProgram = .ok compiled ∧
      ∀ value ∈ ["left", "aside", "over"], noticeProgram.strings.count value = 1 ∧
        linesOfLiteral compiled.assembly value = 0 := by
  obtain ⟨compiled, run⟩ := exists_compile_noticeProgram
  refine ⟨compiled, run, ?_⟩
  have plain : PlainClass compiled.unit := plainClass_of_compile run (by decide +kernel)
  simp only [linesOfLiteral_of_compile run ⟨by decide, by decide⟩ plain]
  decide +kernel

end ClassCompiler
