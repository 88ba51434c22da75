import ClassCompiler.Proofs.Emission.Classes
import ClassCompiler.Proofs.Lowering.Programs

/-!
# How methods end

The code of a statement ends with the code of the last statement in its nested blocks. A
return ends with a return instruction, and a conditional with the label behind its
branches, also where both branches return. A method without result gets a return of its
own, so its code ends in a return in every case. A method with a result that returns on
all paths ends in a return unless its last statement is a conditional; then its code ends
with a label.
-/

namespace ClassCompiler

/-! ## The last statement -/

mutual

/-- The last statement of a statement, with blocks opened. An empty block has none. -/
def Stmt.final? : Stmt → Option Stmt
  | .block body => finalOf? body
  | stmt => some stmt

/-- The last statement of a body, with blocks opened. -/
def finalOf? : List Stmt → Option Stmt
  | [] => none
  | [stmt] => stmt.final?
  | _ :: other :: rest => finalOf? (other :: rest)

end

mutual

/-- Statements that return on all paths: returns, blocks whose last statement returns on
all paths, and conditionals of which both branches do. -/
def Stmt.definitelyReturns : Stmt → Bool
  | .ret _ => true
  | .block body => bodyReturns body
  | .ifElse _ thenBranch elseBranch =>
      thenBranch.definitelyReturns && elseBranch.definitelyReturns
  | .assign _ _ | .expr _ | .whileLoop _ _ => false

/-- Bodies whose last statement returns on all paths. -/
def bodyReturns : List Stmt → Bool
  | [] => false
  | [stmt] => stmt.definitelyReturns
  | _ :: other :: rest => bodyReturns (other :: rest)

end

/-- Whether the last statement of a body, with blocks opened, is a conditional. -/
def endsInConditional (body : List Stmt) : Bool :=
  match finalOf? body with
  | some (.ifElse _ _ _) => true
  | _ => false

mutual

/-- The last statement of a statement that returns on all paths is a return or a
conditional. -/
theorem Stmt.exists_final_of_definitelyReturns : (stmt : Stmt) → stmt.definitelyReturns = true →
    (∃ value, stmt.final? = some (.ret value)) ∨
      ∃ cond thenBranch elseBranch, stmt.final? = some (.ifElse cond thenBranch elseBranch)
  | .ret value, _ => .inl ⟨value, rfl⟩
  | .ifElse cond thenBranch elseBranch, _ =>
      .inr ⟨cond, thenBranch, elseBranch, rfl⟩
  | .block body, returns => by
      rw [Stmt.definitelyReturns] at returns
      rw [Stmt.final?]
      exact exists_finalOf_of_bodyReturns body returns

theorem exists_finalOf_of_bodyReturns : (body : List Stmt) → bodyReturns body = true →
    (∃ value, finalOf? body = some (.ret value)) ∨
      ∃ cond thenBranch elseBranch, finalOf? body = some (.ifElse cond thenBranch elseBranch)
  | [stmt], returns => by
      rw [bodyReturns] at returns
      rw [finalOf?]
      exact stmt.exists_final_of_definitelyReturns returns
  | _ :: other :: rest, returns => by
      rw [bodyReturns] at returns
      rw [finalOf?]
      exact exists_finalOf_of_bodyReturns (other :: rest) returns

end

namespace ThreeAddress

variable {table : SymbolTable}

/-! ## Code of the last statement -/

mutual

/-- The code of a statement ends with the code of its last statement. -/
theorem LowersStmt.exists_final (final : Stmt) : (stmt : Stmt) →
    ∀ {state after : LoweringState} {code : Code}, LowersStmt table stmt state code after →
    stmt.final? = some final →
    ∃ start finalCode, LowersStmt table final start finalCode after ∧ finalCode <:+ code
  | .block body => by
      intro lowers finalEq
      rw [Stmt.final?] at finalEq
      exact exists_final_of_block final body lowers finalEq
  | .assign _ _ | .expr _ | .ret _ | .ifElse _ _ _ | .whileLoop _ _ => by
      -- Only blocks are opened; every other statement is its own last one.
      intro lowers finalEq
      cases finalEq
      exact ⟨_, _, lowers, List.suffix_rfl⟩

theorem exists_final_of_block (final : Stmt) : (body : List Stmt) →
    ∀ {state after : LoweringState} {code : Code},
    LowersStmt table (.block body) state code after → finalOf? body = some final →
    ∃ start finalCode, LowersStmt table final start finalCode after ∧ finalCode <:+ code
  | [] => by
      intro lowers finalEq
      cases finalEq
  | [stmt] => by
      intro lowers finalEq
      rw [finalOf?] at finalEq
      cases lowers with
      | blockCons lowersFirst lowersRest =>
          cases lowersRest
          rw [List.append_nil]
          exact LowersStmt.exists_final final stmt lowersFirst finalEq
  | _ :: other :: rest => by
      intro lowers finalEq
      rw [finalOf?] at finalEq
      cases lowers with
      | blockCons _ lowersRest =>
          obtain ⟨start, finalCode, lowersFinal, isSuffix⟩ :=
            exists_final_of_block final (other :: rest) lowersRest finalEq
          exact ⟨start, finalCode, lowersFinal, isSuffix.trans (List.suffix_append _ _)⟩

end

/-- The last instruction of a suffix is the last one of the whole code. -/
theorem getLast?_of_suffix {code rest : Code} {instr : Instr} (isSuffix : rest <:+ code)
    (lastEq : rest.getLast? = some instr) : code.getLast? = some instr := by
  obtain ⟨before, rfl⟩ := isSuffix
  rw [List.getLast?_append, lastEq]
  rfl

/-- Code whose last statement is a return ends in a return. -/
theorem LowersStmt.getLast?_of_ret {stmt : Stmt} {value : Option Expr}
    {state after : LoweringState} {code : Code} (lowers : LowersStmt table stmt state code after)
    (finalEq : stmt.final? = some (.ret value)) :
    ∃ result, code.getLast? = some (.ret result) := by
  obtain ⟨start, finalCode, lowersFinal, isSuffix⟩ :=
    LowersStmt.exists_final _ stmt lowers finalEq
  cases lowersFinal with
  | returnNothing _ => exact ⟨none, getLast?_of_suffix isSuffix rfl⟩
  | returnValue _ _ => exact ⟨_, getLast?_of_suffix isSuffix List.getLast?_concat⟩

/-- Code whose last statement is a conditional ends with the label behind it. -/
theorem LowersStmt.getLast?_of_ifElse {stmt thenBranch elseBranch : Stmt} {cond : Expr}
    {state after : LoweringState} {code : Code} (lowers : LowersStmt table stmt state code after)
    (finalEq : stmt.final? = some (.ifElse cond thenBranch elseBranch)) :
    ∃ name, code.getLast? = some (.label name) := by
  obtain ⟨start, finalCode, lowersFinal, isSuffix⟩ :=
    LowersStmt.exists_final _ stmt lowers finalEq
  cases lowersFinal with
  | ifElse _ _ _ => exact ⟨_, getLast?_of_suffix isSuffix List.getLast?_concat⟩

/-! ## Bodies of methods -/

/-- The body of a method without result ends in a return. -/
theorem exists_ret_completeBody {signature : MethodSignature}
    (noResult : (signature.isMain || signature.returnTy.isVoid) = true) (code : Code) :
    ∃ result, (completeBody signature code).getLast? = some (.ret result) := by
  rw [completeBody_eq, noResult, Bool.true_and]
  cases ends : endsInReturn code with
  | false => exact ⟨none, List.getLast?_concat⟩
  | true =>
      unfold endsInReturn at ends
      split at ends
      · next instr lastEq =>
          cases instr with
          | ret result => exact ⟨result, lastEq⟩
          | _ => cases ends
      · cases ends

/-- The body of a method with a result is the code of its statements. -/
theorem completeBody_of_hasResult {signature : MethodSignature}
    (hasResult : (signature.isMain || signature.returnTy.isVoid) = false) (code : Code) :
    completeBody signature code = code := by
  rw [completeBody_eq, hasResult]
  rfl

/-- How the body of a lowered method ends. -/
theorem LowersMethod.getLast?_body {decl : MethodDecl} {state after : LoweringState}
    {method : Method} (lowers : LowersMethod table decl state method after) :
    ((method.isMain || method.returnTy.isVoid) = true ∨
        bodyReturns decl.body = true ∧ endsInConditional decl.body = false →
      ∃ result, method.body.getLast? = some (.ret result)) ∧
    ((method.isMain || method.returnTy.isVoid) = false → bodyReturns decl.body = true →
        endsInConditional decl.body = true →
      ∃ name, method.body.getLast? = some (.label name)) := by
  cases lowers with
  | @intro signature _ last code found lowersBody =>
      change ((signature.isMain || signature.returnTy.isVoid) = true ∨ _ →
          ∃ result, (completeBody signature code).getLast? = _) ∧
        ((signature.isMain || signature.returnTy.isVoid) = false → _ → _ →
          ∃ name, (completeBody signature code).getLast? = _)
      constructor
      · rintro (noResult | ⟨returns, straight⟩)
        · exact exists_ret_completeBody noResult code
        · rcases exists_finalOf_of_bodyReturns decl.body returns with
            ⟨value, finalEq⟩ | ⟨cond, thenBranch, elseBranch, finalEq⟩
          · by_cases noResult : (signature.isMain || signature.returnTy.isVoid) = true
            · exact exists_ret_completeBody noResult code
            · rw [completeBody_of_hasResult (by simpa using noResult)]
              exact lowersBody.getLast?_of_ret finalEq
          · rw [endsInConditional, finalEq] at straight
            cases straight
      · intro hasResult returns conditional
        rw [completeBody_of_hasResult hasResult]
        rcases exists_finalOf_of_bodyReturns decl.body returns with
          ⟨value, finalEq⟩ | ⟨cond, thenBranch, elseBranch, finalEq⟩
        · rw [endsInConditional, finalEq] at conditional
          cases conditional
        · exact lowersBody.getLast?_of_ifElse finalEq

end ThreeAddress

namespace StackCode

/-! ## The last line -/

/-- A method ends with a line if it is the last one of its code and stands right before
the end in its written form. -/
structure MethodCode.EndsWith (layout : Layout) (code : MethodCode) (line : Line Instr) :
    Prop where
  getLast?_eq : code.lines.getLast? = some line
  text_eq : ∃ start, code.text layout =
    start ++ line.text layout.indent Instr.text ++ "\n.end method\n"

/-- The last line of a method stands right before the end of its written form. -/
theorem MethodCode.endsWith_of_getLast? {layout : Layout} {code : MethodCode} {line : Line Instr}
    (lastEq : code.lines.getLast? = some line) : code.EndsWith layout line := by
  constructor
  · exact lastEq
  · obtain ⟨front, linesEq⟩ := List.getLast?_eq_some_iff.mp lastEq
    unfold MethodCode.text
    rw [linesEq, List.map_append, String.join_append, List.map_singleton, String.join_cons,
      String.join_nil, String.append_empty,
      show ("\n.end method\n" : String) = "\n" ++ ".end method\n" from rfl]
    simp only [← String.append_assoc]
    exact ⟨_, rfl⟩

variable {linkage : Linkage} {isMain : Bool} {names : List String} {counts : ComparisonCounts}

/-- The last line of a body is the last one of its last instruction. -/
theorem getLast?_bodyCode {body : ThreeAddress.Code} {instr : ThreeAddress.Instr}
    {line : Line Instr} (lastEq : body.getLast? = some instr)
    (lineEq : ∀ counts, (instrCode linkage isMain names counts instr).getLast? = some line) :
    (bodyCode linkage isMain names counts body).getLast? = some line := by
  obtain ⟨front, rfl⟩ := List.getLast?_eq_some_iff.mp lastEq
  rw [bodyCode_append, bodyCode, bodyCode, List.append_nil, List.getLast?_append, lineEq]
  rfl

/-- The code of a return ends with a return. -/
theorem exists_getLast?_instrCode_ret (result : Option ThreeAddress.Value) :
    ∃ category, ∀ counts, (instrCode linkage isMain names counts (.ret result)).getLast? =
      some (.instr (.ret category)) := by
  cases result with
  | none => exact ⟨none, fun _ => rfl⟩
  | some value =>
      cases isMain with
      | true => exact ⟨none, fun _ => rfl⟩
      | false => exact ⟨_, fun _ => List.getLast?_concat⟩

/-- The code of a method whose body ends in a return ends with a return. -/
theorem exists_endsWith_ret {method : ThreeAddress.Method} {layout : Layout}
    {result : Option ThreeAddress.Value} (lastEq : method.body.getLast? = some (.ret result)) :
    method.endsWithReturn = true ∧
      ∃ category, (generatedMethod linkage method counts).EndsWith layout
        (.instr (.ret category)) := by
  obtain ⟨category, lineEq⟩ := exists_getLast?_instrCode_ret result
  constructor
  · unfold ThreeAddress.Method.endsWithReturn
    rw [lastEq]
    rfl
  · exact ⟨category, MethodCode.endsWith_of_getLast? (getLast?_bodyCode lastEq lineEq)⟩

/-- The code of a method whose body ends with a label ends with that label. -/
theorem endsWith_label {method : ThreeAddress.Method} {layout : Layout} {name : String}
    (lastEq : method.body.getLast? = some (.label name)) :
    method.endsWithReturn = false ∧
      (generatedMethod linkage method counts).EndsWith layout (.label name) := by
  constructor
  · unfold ThreeAddress.Method.endsWithReturn
    rw [lastEq]
    rfl
  · exact MethodCode.endsWith_of_getLast? (getLast?_bodyCode lastEq fun _ => rfl)

end StackCode

/-! ## Compiled methods -/

/-- Every method that is void, is the entry point, or returns on all paths ends in a
return, unless it has a result and its last statement is a conditional. Then its code
ends with the label behind the conditional. -/
theorem ends_in_return_of_compile {options : Options} {table : SymbolTable} {program : Program}
    {compiled : Compiled} (run : compile options table program = .ok compiled) :
    ∃ file, compiled.IsWritten options file ∧
      ∀ index decl, program.decl.methods[index]? = some decl →
        ∃ method code, compiled.unit.methods[index + 1]? = some method ∧
          file.methods[index + 1]? = some code ∧
          (method.returnTy.isVoid = true ∨ method.isMain = true ∨
              (bodyReturns decl.body = true ∧ endsInConditional decl.body = false) →
            method.endsWithReturn = true ∧
              ∃ category, code.EndsWith options.layout (.instr (.ret category))) ∧
          (method.returnTy.isVoid = false → method.isMain = false →
              bodyReturns decl.body = true → endsInConditional decl.body = true →
            method.endsWithReturn = false ∧
              ∃ name, code.EndsWith options.layout (.label name)) := by
  obtain ⟨unit, assembly⟩ := compiled
  obtain ⟨lowered, file, ⟨last, generated⟩, assemblyEq⟩ := compile_eq_ok_iff.mp run
  obtain ⟨_, lowersProgram⟩ := ThreeAddress.lowerFresh_eq_ok_iff.mp lowered
  obtain ⟨_, codes, generates, rfl⟩ := StackCode.generateClass_eq_ok_iff.mp generated
  refine ⟨_, ⟨⟨last, generated⟩, assemblyEq⟩, ?_⟩
  intro index decl declared
  obtain ⟨_, method, _, atIndex, lowers⟩ :=
    ThreeAddress.lowersMethod_of_lowerProgram lowersProgram declared
  obtain ⟨start, codeEq⟩ := generates.getElem? atIndex
  obtain ⟨returns, leaves⟩ := lowers.getLast?_body
  refine ⟨method, _, atIndex, codeEq, ?_, ?_⟩
  · intro ends
    have bodyEnds : (method.isMain || method.returnTy.isVoid) = true ∨
        bodyReturns decl.body = true ∧ endsInConditional decl.body = false := by
      rcases ends with isVoid | isMain | onAllPaths
      · exact .inl (by rw [isVoid, Bool.or_true])
      · exact .inl (by rw [isMain, Bool.true_or])
      · exact .inr onAllPaths
    obtain ⟨result, lastEq⟩ := returns bodyEnds
    exact StackCode.exists_endsWith_ret lastEq
  · intro hasResult notMain onAllPaths conditional
    have bodyHasResult : (method.isMain || method.returnTy.isVoid) = false := by
      rw [notMain, hasResult]
      rfl
    obtain ⟨name, lastEq⟩ := leaves bodyHasResult onAllPaths conditional
    obtain ⟨notReturn, endsWith⟩ := StackCode.endsWith_label lastEq
    exact ⟨notReturn, name, endsWith⟩

/-- A method with a result that ends in a return, and an entry point that ends in a
loop. -/
theorem ends_in_return_ledgerProgram :
    (bodyReturns addMethod.body = true ∧ endsInConditional addMethod.body = false) ∧
      bodyReturns showMethod.body = false ∧
      ∃ compiled, compile {} (.ofProgram ledgerProgram) ledgerProgram = .ok compiled ∧
        ∃ file, compiled.IsWritten {} file ∧ ∃ method code,
          compiled.unit.methods[1]? = some method ∧ file.methods[1]? = some code ∧
            method.endsWithReturn = true ∧
            ∃ category, code.EndsWith (Options.layout {}) (.instr (.ret category)) := by
  have onAllPaths : bodyReturns addMethod.body = true ∧
      endsInConditional addMethod.body = false := by
    decide
  obtain ⟨compiled, run⟩ := exists_compile_ledgerProgram {}
  obtain ⟨file, isWritten, ends⟩ := ends_in_return_of_compile run
  obtain ⟨method, code, atIndex, codeEq, returns, _⟩ := ends 0 addMethod rfl
  exact ⟨onAllPaths, by decide, compiled, run, file, isWritten, method, code, atIndex, codeEq,
    returns (.inr (.inr onAllPaths))⟩

/-- A class with a method that returns one number or the other. -/
def choiceProgram : Program where
  imports := []
  decl := {
    name := "Choice"
    superClass := none
    fields := []
    methods := [{
      name := "pick"
      returnTy := Ty.int
      params := [⟨"first", Ty.boolean⟩]
      locals := []
      body := [.ifElse (.var "first") (.ret (some (.int 1))) (.ret (some (.int 2)))]
      isStatic := false
      isPublic := true }] }

/-- The method of the class in three-address code. -/
def choicePickMethod : ThreeAddress.Method where
  name := "pick"
  returnTy := Ty.int
  params := [⟨"first", Ty.boolean⟩]
  body := [.branch (.var "first" Ty.boolean) "ifThen0", .ret (some (.int 2)), .goto "ifEnd0",
    .label "ifThen0", .ret (some (.int 1)), .label "ifEnd0"]
  labels := [("ifEnd0", 5), ("ifThen0", 3)]

/-- Both branches return, and still the code of the method ends with the label behind
them. -/
theorem not_ends_in_return_choiceProgram :
    (∀ decl ∈ choiceProgram.decl.methods, bodyReturns decl.body = true) ∧
      ∃ compiled, compile {} (.ofProgram choiceProgram) choiceProgram = .ok compiled ∧
        ∀ file, compiled.IsWritten {} file → ∃ method code,
          compiled.unit.methods[1]? = some method ∧ file.methods[1]? = some code ∧
            method.endsWithReturn = false ∧
            code.EndsWith (Options.layout {}) (.label "ifEnd0") := by
  have compilable : IsCompilable (.ofProgram choiceProgram) choiceProgram := by decide +kernel
  obtain ⟨compiled, run⟩ := exists_compile_iff.mpr compilable
  refine ⟨by decide, compiled, run, ?_⟩
  rintro file ⟨⟨after, generated⟩, _⟩
  have lowered := (compile_eq_ok_iff.mp run).1
  have unitEq : compiled.unit =
      ThreeAddress.classOf (.ofProgram choiceProgram) [choicePickMethod] :=
    (Except.ok.inj lowered).symm
  obtain ⟨_, codes, generates, rfl⟩ := StackCode.generateClass_eq_ok_iff.mp generated
  have atIndex : compiled.unit.methods[1]? = some choicePickMethod := by
    rw [unitEq]
    rfl
  obtain ⟨start, codeEq⟩ := generates.getElem? atIndex
  exact ⟨_, _, atIndex, codeEq, StackCode.endsWith_label rfl⟩

end ClassCompiler
