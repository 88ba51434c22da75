import ClassCompiler.Proofs.Lowering.Correctness

/-!
# Lowered classes

The methods of a class are lowered one after the other, each from the state in which
the one before ended. Temporaries are counted anew for each method, while the counters
of names go on, so no label is defined in two methods of a class. A jump always goes to
a label of the method in which it stands.
-/

namespace ClassCompiler.ThreeAddress

open Effects LoweringState

variable {table : SymbolTable}

/-! ## Methods in order -/

/-- Methods are lowered in declaration order. -/
inductive LowersMethods (table : SymbolTable) :
    List MethodDecl → LoweringState → List Method → LoweringState → Prop where
  | nil (state : LoweringState) : LowersMethods table [] state [] state
  | cons {decl : MethodDecl} {rest : List MethodDecl} {state middle after : LoweringState}
      {method : Method} {methods : List Method}
      (lowersFirst : LowersMethod table decl state method middle)
      (lowersRest : LowersMethods table rest middle methods after) :
      LowersMethods table (decl :: rest) state (method :: methods) after

theorem lowersMethods_of_eq_ok {decls : List MethodDecl} {state after : LoweringState}
    {methods : List Method} (run : lowerMethods table decls state = .ok methods after) :
    LowersMethods table decls state methods after := by
  induction decls generalizing state methods with
  | nil =>
      cases run
      exact .nil _
  | cons decl rest ih =>
      rw [lowerMethods] at run
      obtain ⟨method, middle, lowersFirst, others⟩ := bind_eq_ok_iff.mp run
      obtain ⟨restMethods, last, lowersRest, taken⟩ := bind_eq_ok_iff.mp others
      cases taken
      exact .cons (lowersMethod_of_eq_ok lowersFirst) (ih lowersRest)

theorem LowersMethods.length_eq {decls : List MethodDecl} {state after : LoweringState}
    {methods : List Method} (lowers : LowersMethods table decls state methods after) :
    methods.length = decls.length := by
  induction lowers with
  | nil _ => rfl
  | cons _ _ ih => exact congrArg (· + 1) ih

/-- The class of a symbol table with lowered methods. -/
def classOf (table : SymbolTable) (methods : List Method) : ClassUnit where
  name := table.className
  superClass := table.superClass
  imports := table.imports
  fields := table.fields
  methods := constructorOf table :: methods

theorem lowerProgram_eq_ok_iff {program : Program} {state after : LoweringState}
    {unit : ClassUnit} :
    lowerProgram table program state = .ok unit after ↔
      ∃ methods, lowerMethods table program.decl.methods state = .ok methods after ∧
        unit = classOf table methods := by
  rw [lowerProgram, bind_eq_ok_iff]
  constructor
  · rintro ⟨methods, middle, lowers, taken⟩
    cases taken
    exact ⟨methods, lowers, rfl⟩
  · rintro ⟨methods, lowers, rfl⟩
    exact ⟨methods, after, lowers, rfl⟩

theorem lowerFresh_eq_ok_iff {program : Program} {unit : ClassUnit} :
    lowerFresh table program = .ok unit ↔
      ∃ after, lowerProgram table program {} = .ok unit after := by
  unfold lowerFresh
  cases lowerProgram table program {} with
  | ok found after => simp
  | error error after => simp

theorem LowersMethods.exists_decl {decls : List MethodDecl} {state after : LoweringState}
    {methods : List Method} (lowers : LowersMethods table decls state methods after)
    {method : Method} (member : method ∈ methods) :
    ∃ decl ∈ decls, ∃ start last, LowersMethod table decl start method last := by
  induction lowers with
  | nil _ => cases member
  | cons lowersFirst _ ih =>
      rcases List.mem_cons.mp member with rfl | later
      · exact ⟨_, List.mem_cons_self, _, _, lowersFirst⟩
      · obtain ⟨decl, declMember, found⟩ := ih later
        exact ⟨decl, List.mem_cons_of_mem _ declMember, found⟩

/-- A lowered class consists of the constructor and the lowered methods. -/
theorem exists_lowersMethods_of_lowerFresh {program : Program} {unit : ClassUnit}
    (lowered : lowerFresh table program = .ok unit) :
    ∃ methods after, LowersMethods table program.decl.methods {} methods after ∧
      unit = classOf table methods := by
  obtain ⟨after, run⟩ := lowerFresh_eq_ok_iff.mp lowered
  obtain ⟨methods, lowers, unitEq⟩ := lowerProgram_eq_ok_iff.mp run
  exact ⟨methods, after, lowersMethods_of_eq_ok lowers, unitEq⟩

/-! ## Labels -/

theorem LowersMethod.labelled {decl : MethodDecl} {state after : LoweringState} {method : Method}
    (lowers : LowersMethod table decl state method after) :
    Labelled state after (definedLabels method.body) ∧ TakesLabels state after := by
  cases lowers with
  | @intro signature _ last code found lowersBody =>
      have labelled := lowersBody.labelled
      rw [← definedLabels_completeBody signature code] at labelled
      exact ⟨⟨labelled.distinct, labelled.taken⟩, lowersBody.extends.labels⟩

/-- No label is defined twice in the methods of a class. -/
theorem LowersMethods.labelled {decls : List MethodDecl} {state after : LoweringState}
    {methods : List Method} (lowers : LowersMethods table decls state methods after) :
    Labelled state after (methods.flatMap fun method => definedLabels method.body) ∧
      TakesLabels state after := by
  induction lowers with
  | nil state => exact ⟨.nil _ _, fun _ => Nat.le_refl _⟩
  | cons lowersFirst _ ih =>
      obtain ⟨labelledFirst, takesFirst⟩ := lowersFirst.labelled
      obtain ⟨labelledRest, takesRest⟩ := ih
      constructor
      · rw [List.flatMap_cons]
        exact labelledFirst.append labelledRest takesFirst takesRest
      · intro kind
        exact (takesFirst kind).trans (takesRest kind)

theorem definedLabels_classOf (table : SymbolTable) (methods : List Method) :
    definedLabels ((classOf table methods).methods.flatMap Method.body) =
      methods.flatMap fun method => definedLabels method.body := by
  change definedLabels (_ ++ methods.flatMap Method.body) = _
  rw [definedLabels_append, definedLabels, definedLabels, List.filterMap_flatMap]
  rfl

/-! ## Jumps -/

/-- Every jump of the code goes to a label that the code defines. -/
def JumpsInside (code : Code) : Prop :=
  ∀ instr ∈ code, ∀ target ∈ instr.target?, target ∈ definedLabels code

theorem target?_of_isStraight {instr : Instr} (straight : instr.IsStraight) :
    instr.target? = none := by
  cases instr with
  | goto target | branch cond target => exact straight.elim
  | _ => rfl

theorem jumpsInside_of_isStraight {code : Code} (straight : ∀ instr ∈ code, instr.IsStraight) :
    JumpsInside code := by
  intro instr member target jumps
  rw [target?_of_isStraight (straight instr member)] at jumps
  cases jumps

theorem jumpsInside_nil : JumpsInside [] := nofun

theorem JumpsInside.append {first second : Code} (firstInside : JumpsInside first)
    (secondInside : JumpsInside second) : JumpsInside (first ++ second) := by
  intro instr member target jumps
  rw [definedLabels_append, List.mem_append]
  rcases List.mem_append.mp member with inFirst | inSecond
  · exact .inl (firstInside instr inFirst target jumps)
  · exact .inr (secondInside instr inSecond target jumps)

theorem JumpsInside.concat {code : Code} {instr : Instr} (inside : JumpsInside code)
    (noJump : instr.target? = none) : JumpsInside (code ++ [instr]) := by
  apply inside.append
  intro other member target jumps
  rw [List.mem_singleton.mp member, noJump] at jumps
  cases jumps

/-- The jumps of a conditional go to its two labels. -/
theorem jumpsInside_if {condCode elseCode thenCode : Code} {value : Value}
    {thenLabel endLabel : String} (condInside : JumpsInside condCode)
    (elseInside : JumpsInside elseCode) (thenInside : JumpsInside thenCode) :
    JumpsInside (condCode ++ [.branch value thenLabel] ++ elseCode ++
      [.goto endLabel, .label thenLabel] ++ thenCode ++ [.label endLabel]) := by
  intro instr member target jumps
  simp only [List.mem_append, List.mem_cons, List.not_mem_nil, or_false] at member
  simp only [definedLabels_append, definedLabels_cons, definedLabels_nil, Instr.label?,
    Option.toList, List.mem_append, List.mem_cons, List.not_mem_nil, or_false, false_or]
  rcases member with ((((inCond | rfl) | inElse) | rfl | rfl) | inThen) | rfl
  · have defined := condInside instr inCond target jumps
    tauto
  · cases jumps
    tauto
  · have defined := elseInside instr inElse target jumps
    tauto
  · cases jumps
    tauto
  · cases jumps
  · have defined := thenInside instr inThen target jumps
    tauto
  · cases jumps

/-- The jumps of a loop go to its two labels. -/
theorem jumpsInside_while {condCode bodyCode : Code} {dest value : Value}
    {condLabel endLabel : String} (condInside : JumpsInside condCode)
    (bodyInside : JumpsInside bodyCode) :
    JumpsInside ([.label condLabel] ++ condCode ++ [.not dest value] ++
      [.branch dest endLabel] ++ bodyCode ++ [.goto condLabel, .label endLabel]) := by
  intro instr member target jumps
  simp only [List.mem_append, List.mem_cons, List.not_mem_nil, or_false] at member
  simp only [definedLabels_append, definedLabels_cons, definedLabels_nil, Instr.label?,
    Option.toList, List.mem_append, List.mem_cons, List.not_mem_nil, or_false, false_or]
  rcases member with ((((rfl | inCond) | rfl) | rfl) | inBody) | rfl | rfl
  · cases jumps
  · have defined := condInside instr inCond target jumps
    tauto
  · cases jumps
  · cases jumps
    tauto
  · have defined := bodyInside instr inBody target jumps
    tauto
  · cases jumps
    tauto
  · cases jumps

/-- The jumps of a statement stay inside its code. -/
theorem LowersStmt.jumpsInside {stmt : Stmt} {state after : LoweringState} {code : Code}
    (lowers : LowersStmt table stmt state code after) : JumpsInside code := by
  induction lowers with
  | assignOperator _ _ _ lowersLeft lowersRight =>
      have left := jumpsInside_of_isStraight lowersLeft.isStraight
      exact (left.append (jumpsInside_of_isStraight lowersRight.isStraight)).concat rfl
  | assignCall _ _ lowers | assignValue _ _ _ lowers | assignField _ _ lowers | exprCall lowers
  | returnValue _ lowers =>
      exact (jumpsInside_of_isStraight lowers.isStraight).concat rfl
  | assignElement _ lowers lowersArray lowersPosition =>
      have value := jumpsInside_of_isStraight lowers.isStraight
      have array := value.append (jumpsInside_of_isStraight lowersArray.isStraight)
      exact (array.append (jumpsInside_of_isStraight lowersPosition.isStraight)).concat rfl
  | exprValue _ _ lowers => exact jumpsInside_of_isStraight lowers.isStraight
  | returnNothing _ => exact jumpsInside_nil.concat rfl
  | ifElse lowersCond _ _ elseInside thenInside =>
      exact jumpsInside_if (jumpsInside_of_isStraight lowersCond.isStraight) elseInside thenInside
  | whileLoop lowersCond _ bodyInside =>
      exact jumpsInside_while (jumpsInside_of_isStraight lowersCond.isStraight) bodyInside
  | blockNil _ => exact jumpsInside_nil
  | blockCons _ _ firstInside restInside => exact firstInside.append restInside

theorem LowersMethod.jumpsInside {decl : MethodDecl} {state after : LoweringState} {method : Method}
    (lowers : LowersMethod table decl state method after) : JumpsInside method.body := by
  cases lowers with
  | @intro signature _ last code found lowersBody =>
      change JumpsInside (completeBody signature code)
      rw [completeBody_eq]
      split
      · exact lowersBody.jumpsInside.concat rfl
      · exact lowersBody.jumpsInside

end ClassCompiler.ThreeAddress
