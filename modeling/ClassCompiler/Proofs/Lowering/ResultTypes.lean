import ClassCompiler.Proofs.Lowering.Programs
import ClassCompiler.Proofs.Lowering.Rendering

/-!
# Types of destinations and operands

Lowered code carries the types of declarations and of operators, whether the program is
well typed or not. A result goes into a temporary of its type, or straight into a variable
that has been declared with it; an element has the element type of its array; and a
variable has the type under which its name is declared in the method.

Operands and destinations of a block are known from the occurrence in the source. What has
to be added is that an array is never filled with arrays.
-/

namespace ClassCompiler

/-- The declaration of a name in a method: the first local, or else the first parameter. -/
def MethodSignature.declared? (signature : MethodSignature) (name : String) : Option Symbol :=
  (signature.locals.find? fun symbol => symbol.name == name).or
    (signature.params.find? fun symbol => symbol.name == name)

/-! ## Operations in the source -/

namespace Semantics

/-- An array whose elements are no arrays, or any other operation. -/
def Occurrence.HasSingleElements : Occurrence → Prop
  | .array elem _ => elem.element = elem
  | _ => True

/-- An operation as source has it: the elements of an array are no arrays, and a call that is
made on a class names one. -/
def Occurrence.IsFormed (table : SymbolTable) : Occurrence → Prop
  | .array elem _ => elem.element = elem
  | .call _ (.onClass className) _ _ _ _ => table.isClassName className = true
  | _ => True

namespace Context

variable (context : Context)

theorem isClassName_of_resolve {context : Context} {name : String}
    (resolves : context.resolve? name = some .className) :
    context.table.isClassName name = true := by
  unfold resolve? at resolves
  dsimp only at resolves
  split at resolves
  · cases resolves
  · split at resolves
    · cases resolves
    · split at resolves
      · assumption
      · cases resolves

/-- A receiver that names a class resolves as one. -/
theorem isClassName_of_classNamed? {context : Context} {receiver : Expr} {className : String}
    (named : context.classNamed? receiver = some className) :
    context.table.isClassName className = true := by
  unfold classNamed? at named
  split at named
  · split at named
    · next resolves =>
        cases named
        exact isClassName_of_resolve resolves
    · cases named
  · cases named

theorem isClassName_className (table : SymbolTable) :
    table.isClassName table.className = true := by
  simp [SymbolTable.isClassName]

theorem formed_selfCall (own : Option MethodSignature) (called name : String) (passed : List Ty)
    (result : Ty) (dest : Dest) :
    (Occurrence.call own (context.selfTarget called) name passed result dest).IsFormed
      context.table := by
  unfold selfTarget
  split
  · exact isClassName_className context.table
  · trivial

theorem formed_objectCall (own : Option MethodSignature) (ty : Ty) (name : String)
    (passed : List Ty) (result : Ty) (dest : Dest) :
    (Occurrence.call own (context.objectTarget own ty) name passed result dest).IsFormed
      context.table := by
  unfold objectTarget
  split
  · exact isClassName_className context.table
  · trivial

theorem formed_collectedArray (own : Option MethodSignature) (tys : List Ty) :
    AllOf (Occurrence.IsFormed context.table) (collectedArray own tys) := by
  unfold collectedArray
  split
  · next fixed elem collects =>
      exact List.forall_mem_singleton.mpr (ThreeAddress.element_of_collected collects)
  · exact List.forall_mem_nil _

mutual

/-- No expression fills an array with arrays, or calls on a class that is none. -/
theorem formed_occurrences : (expr : Expr) → ∀ expected dest,
    AllOf (Occurrence.IsFormed context.table) (context.occurrences expr expected dest)
  | .int _, _, _ | .bool _, _, _ | .string _, _, _ => by
      rw [occurrences]
      exact List.forall_mem_nil _
  | .self, _, _ | .var _, _, _ | .newObject _, _, _ => by
      rw [occurrences]
      exact List.forall_mem_singleton.mpr trivial
  | .paren inner, _, _ => by
      rw [occurrences]
      exact formed_occurrences inner _ _
  | .not operand, _, _ | .length operand, _, _ | .newArray _ operand, _, _ => by
      rw [occurrences, AllOf, List.forall_mem_append]
      exact ⟨formed_occurrences operand _ _, List.forall_mem_singleton.mpr trivial⟩
  | .binary _ left right, _, _ | .index left right, _, _ => by
      rw [occurrences, AllOf, List.forall_mem_append, List.forall_mem_append]
      exact ⟨⟨formed_occurrences left _ _, formed_occurrences right _ _⟩,
        List.forall_mem_singleton.mpr trivial⟩
  | .arrayInit elements, expected, _ => by
      rw [occurrences, AllOf, List.forall_mem_append]
      exact ⟨formed_occurrencesAll elements _,
        List.forall_mem_singleton.mpr (ThreeAddress.element_literalElement expected)⟩
  | .selfCall _ args, _, _ => by
      simp only [occurrences, AllOf, List.forall_mem_append]
      exact ⟨⟨formed_occurrencesAll args _, context.formed_collectedArray _ _⟩,
        List.forall_mem_singleton.mpr (context.formed_selfCall _ _ _ _ _ _)⟩
  | .call receiver _ args, _, _ => by
      rw [occurrences]
      cases named : context.classNamed? receiver with
      | some className =>
          simp only [AllOf, List.forall_mem_append]
          exact ⟨⟨formed_occurrencesAll args _, context.formed_collectedArray _ _⟩,
            List.forall_mem_singleton.mpr (isClassName_of_classNamed? named)⟩
      | none =>
          simp only [AllOf, List.forall_mem_append]
          exact ⟨⟨⟨formed_occurrences receiver _ _, formed_occurrencesAll args _⟩,
            context.formed_collectedArray _ _⟩,
            List.forall_mem_singleton.mpr (context.formed_objectCall _ _ _ _ _ _)⟩

theorem formed_occurrencesAll : (exprs : List Expr) → ∀ expectedAt,
    AllOf (Occurrence.IsFormed context.table) (context.occurrencesAll expectedAt exprs)
  | [], _ => by
      rw [occurrencesAll]
      exact List.forall_mem_nil _
  | expr :: rest, _ => by
      rw [occurrencesAll, AllOf, List.forall_mem_append]
      exact ⟨formed_occurrences expr _ _, formed_occurrencesAll rest _⟩

end

theorem formed_assignOccurrences (target value : Expr) :
    AllOf (Occurrence.IsFormed context.table) (context.assignOccurrences target value) := by
  unfold assignOccurrences
  split
  · split
    · unfold variableOccurrences
      split
      · exact context.formed_occurrences _ _ _
      · rw [AllOf, List.forall_mem_append]
        exact ⟨context.formed_occurrences _ _ _, List.forall_mem_singleton.mpr trivial⟩
    · rw [AllOf, List.forall_mem_append]
      exact ⟨context.formed_occurrences _ _ _, List.forall_mem_singleton.mpr trivial⟩
    · exact List.forall_mem_singleton.mpr trivial
  · simp only [AllOf, List.forall_mem_append]
    exact ⟨⟨⟨context.formed_occurrences _ _ _, context.formed_occurrences _ _ _⟩,
      context.formed_occurrences _ _ _⟩, List.forall_mem_singleton.mpr trivial⟩
  · exact List.forall_mem_singleton.mpr trivial

theorem formed_returnOccurrences (value : Option Expr) :
    AllOf (Occurrence.IsFormed context.table) (context.returnOccurrences value) := by
  unfold returnOccurrences
  split
  · exact List.forall_mem_singleton.mpr trivial
  · split
    · exact List.forall_mem_singleton.mpr trivial
    · rw [AllOf, List.forall_mem_append]
      exact ⟨context.formed_occurrences _ _ _, List.forall_mem_singleton.mpr trivial⟩

mutual

theorem formed_stmtOccurrences : (stmt : Stmt) →
    AllOf (Occurrence.IsFormed context.table) (context.stmtOccurrences stmt)
  | .assign target value => by
      rw [stmtOccurrences]
      exact context.formed_assignOccurrences target value
  | .expr value => by
      rw [stmtOccurrences]
      exact context.formed_occurrences value _ _
  | .ret value => by
      rw [stmtOccurrences]
      exact context.formed_returnOccurrences value
  | .ifElse cond thenBranch elseBranch => by
      simp only [stmtOccurrences, AllOf, List.forall_mem_append]
      exact ⟨⟨⟨context.formed_occurrences cond _ _, List.forall_mem_singleton.mpr trivial⟩,
        formed_stmtOccurrences elseBranch⟩, formed_stmtOccurrences thenBranch⟩
  | .whileLoop cond body => by
      simp only [stmtOccurrences, AllOf, List.forall_mem_append]
      exact ⟨⟨context.formed_occurrences cond _ _,
        List.forall_mem_cons.mpr ⟨trivial, List.forall_mem_singleton.mpr trivial⟩⟩,
        formed_stmtOccurrences body⟩
  | .block body => by
      rw [stmtOccurrences]
      exact formed_bodyOccurrences body

/-- No method fills an array with arrays, or calls on a class that is none. -/
theorem formed_bodyOccurrences : (body : List Stmt) →
    AllOf (Occurrence.IsFormed context.table) (context.bodyOccurrences body)
  | [] => by
      rw [bodyOccurrences]
      exact List.forall_mem_nil _
  | stmt :: rest => by
      rw [bodyOccurrences, AllOf, List.forall_mem_append]
      exact ⟨formed_stmtOccurrences stmt, formed_bodyOccurrences rest⟩

end

theorem single_bodyOccurrences (body : List Stmt) :
    AllOf Occurrence.HasSingleElements (context.bodyOccurrences body) := by
  intro occurrence occurs
  have formed := context.formed_bodyOccurrences body occurrence occurs
  cases occurrence with
  | array elem tys => exact formed
  | _ => trivial

end Context

end Semantics

/-! ## Types in lowered code -/

namespace ThreeAddress

open Semantics (AllOf Context Dest Target Occurrence)

/-- A value carries the types of declarations: an element that of its array, and a variable
that of its name in a method of the class. -/
def Value.CarriesTy (table : SymbolTable) (method : String) : Value → Prop
  | .element array position ty =>
      ty = array.ty.element ∧ array.CarriesTy table method ∧ position.CarriesTy table method
  | .var name ty =>
      ∃ signature ∈ table.method? method, ∃ symbol ∈ signature.declared? name, symbol.ty = ty
  | .temp _ _ | .const _ | .self _ | .classRef _ => True

/-- The destination of an instruction has the type of what goes into it. A call may store
into a declared variable of another type than its result. -/
def Instr.FitsDest (table : SymbolTable) : Instr → Prop
  | .binary dest op _ _ => dest.ty = op.resultTy
  | .not dest _ => dest.ty = Ty.boolean
  | .getField dest _ field ty => dest.ty = ty ∧ ∃ symbol ∈ table.field? field, symbol.ty = ty
  | .call dest site =>
      (∀ name ty, dest = some (.temp name ty) → ty = site.returnTy) ∧
        (site.invocation = .arrayLength → ∃ value, dest = some value ∧ value.ty = Ty.int)
  | _ => True

/-- All values that stand in an instruction carry the types of declarations. -/
def Instr.CarriesTys (table : SymbolTable) (method : String) (instr : Instr) : Prop :=
  ∀ value ∈ instr.dest?.toList ++ instr.sources, value.CarriesTy table method

section

variable {context : Context} {hasSelf : Prop} {method : String}

theorem carriesTy_of_resolve (found : context.table.method? method = some context.signature)
    {name : String} {ty : Ty} (resolves : context.resolve? name = some (.declared ty)) :
    (Value.var name ty).CarriesTy context.table method := by
  refine ⟨context.signature, found, ?_⟩
  unfold Context.resolve? at resolves
  dsimp only at resolves
  rw [List.find?_append] at resolves
  split at resolves
  · next symbol declared =>
      cases resolves
      exact ⟨symbol, declared, rfl⟩
  · split at resolves
    · cases resolves
    · split at resolves <;> cases resolves

theorem IsOperand.carriesTy (found : context.table.method? method = some context.signature)
    {value : Value} (isOperand : IsOperand context hasSelf value) :
    value.CarriesTy context.table method := by
  cases value with
  | var name ty => exact carriesTy_of_resolve found isOperand
  | element array position ty => exact isOperand.elim
  | _ => trivial

theorem IsDest.carriesTy (found : context.table.method? method = some context.signature)
    {ty : Ty} {dest : Dest} {value : Option Value} (isDest : IsDest context ty dest value) :
    ∀ stored ∈ value.toList, stored.CarriesTy context.table method := by
  cases dest with
  | temporary =>
      obtain ⟨name, rfl⟩ := isDest
      exact List.forall_mem_singleton.mpr trivial
  | into declared =>
      obtain ⟨name, rfl, resolves⟩ := isDest
      exact List.forall_mem_singleton.mpr (carriesTy_of_resolve found resolves)
  | dropped =>
      cases isDest
      exact List.forall_mem_nil _

theorem IsReceiver.carriesTy (found : context.table.method? method = some context.signature)
    {target : Target} {mode : InvokeMode} {object : Value}
    (isReceiver : IsReceiver context hasSelf target mode object) :
    object.CarriesTy context.table method := by
  cases target with
  | onClass className =>
      obtain ⟨_, rfl⟩ := isReceiver
      trivial
  | onObject ty => exact isReceiver.2.isOperand.carriesTy found

theorem fitsDest_call {table : SymbolTable} (dest : String) {ty : Ty} {site : Call}
    (tyEq : ty = site.returnTy) (isInt : site.invocation = .arrayLength → ty = Ty.int) :
    (Instr.call (some (.temp dest ty)) site).FitsDest table := by
  constructor
  · rintro name other ⟨⟩
    exact tyEq
  · intro isLength
    exact ⟨_, rfl, isInt isLength⟩

theorem fitsDest_of_mem_elementStores {table : SymbolTable} {array : Value} {elem : Ty}
    {values : List Value} {instr : Instr} (member : instr ∈ elementStores array elem values) :
    instr.FitsDest table := by
  obtain ⟨_, _, rfl⟩ := List.mem_map.mp member
  trivial

/-- The destinations of a block have the types of its results. -/
theorem Block.fitsDest {occurrence : Occurrence} {code : Code}
    (isBlock : Block context hasSelf occurrence code) {instr : Instr} (member : instr ∈ code) :
    instr.FitsDest context.table := by
  cases isBlock with
  | self | declared => cases member
  | field dest resolves =>
      obtain ⟨_, symbol, found, tyEq⟩ := Context.exists_field_of_resolve resolves
      cases List.mem_singleton.mp member
      exact ⟨rfl, symbol, found, tyEq⟩
  | operator _ _ _ tyEq =>
      cases List.mem_singleton.mp member
      exact tyEq
  | negation dest _ =>
      cases List.mem_singleton.mp member
      rfl
  | length dest _ =>
      cases List.mem_singleton.mp member
      exact fitsDest_call dest rfl fun _ => rfl
  | newArray dest _ =>
      cases List.mem_singleton.mp member
      exact fitsDest_call dest rfl fun isLength => by cases isLength
  | array dest _ =>
      rcases List.mem_cons.mp member with rfl | later
      · exact fitsDest_call dest rfl fun isLength => by cases isLength
      · exact fitsDest_of_mem_elementStores later
  | newObject className dest =>
      rcases List.mem_cons.mp member with rfl | later
      · exact fitsDest_call dest rfl fun isLength => by cases isLength
      · cases List.mem_singleton.mp later
        simp [Instr.FitsDest, Call.construct, Call.invoke]
  | @call _ _ _ _ result dest _ _ _ value _ _ isDest =>
      cases List.mem_singleton.mp member
      cases dest with
      | temporary =>
          obtain ⟨name, rfl⟩ := isDest
          exact fitsDest_call name rfl fun isLength => by cases isLength
      | into declared =>
          obtain ⟨name, rfl, _⟩ := isDest
          simp [Instr.FitsDest, Call.invoke]
      | dropped =>
          cases isDest
          simp [Instr.FitsDest, Call.invoke]
  | element | assign | assignField | assignElement | condition | returnsNothing | returns =>
      cases List.mem_singleton.mp member
      trivial

/-- The values of a block carry the types of declarations. -/
theorem Block.carriesTys {occurrence : Occurrence} {code : Code}
    (isBlock : Block context hasSelf occurrence code) (single : occurrence.HasSingleElements)
    (found : context.table.method? method = some context.signature) {instr : Instr}
    (member : instr ∈ code) : instr.CarriesTys context.table method := by
  have carries {ty : Ty} {value : Value} (hasValue : Operand context hasSelf ty value) :
      value.CarriesTy context.table method := hasValue.isOperand.carriesTy found
  cases isBlock with
  | self | declared => cases member
  | field dest resolves =>
      cases List.mem_singleton.mp member
      exact List.forall_mem_cons.mpr ⟨trivial, List.forall_mem_singleton.mpr trivial⟩
  | operator hasLeft hasRight isDest _ =>
      cases List.mem_singleton.mp member
      rw [Instr.CarriesTys, List.forall_mem_append]
      exact ⟨isDest.carriesTy found, by simp [Instr.sources, carries hasLeft, carries hasRight]⟩
  | negation dest hasOperand =>
      cases List.mem_singleton.mp member
      simp [Instr.CarriesTys, Instr.dest?, Instr.sources, carries hasOperand, Value.CarriesTy]
  | element dest hasArray hasPosition =>
      cases List.mem_singleton.mp member
      simp [Instr.CarriesTys, Instr.dest?, Instr.sources, carries hasArray, carries hasPosition,
        Value.CarriesTy, hasArray.ty_eq]
  | length dest hasArray =>
      cases List.mem_singleton.mp member
      simp [Instr.CarriesTys, Instr.dest?, Instr.sources, Call.arrayLength, carries hasArray,
        Value.CarriesTy]
  | newArray dest hasSize =>
      cases List.mem_singleton.mp member
      simp [Instr.CarriesTys, Instr.dest?, Instr.sources, Call.newArray, carries hasSize,
        Value.CarriesTy]
  | array dest hasValues =>
      rcases List.mem_cons.mp member with rfl | later
      · simp [Instr.CarriesTys, Instr.dest?, Instr.sources, Call.newArray, Value.CarriesTy,
          Value.int]
      · obtain ⟨⟨value, position⟩, valueMember, rfl⟩ := List.mem_map.mp later
        have isOperand := hasValues.isOperand value (List.fst_mem_of_mem_zipIdx valueMember)
        simp only [Instr.CarriesTys, Instr.dest?, Instr.sources, Option.toList_some,
          List.singleton_append, List.forall_mem_cons]
        exact ⟨⟨Eq.symm single, trivial, trivial⟩, trivial, trivial, isOperand.carriesTy found,
          List.forall_mem_nil _⟩
  | newObject className dest =>
      rcases List.mem_cons.mp member with rfl | later
      · simp [Instr.CarriesTys, Instr.dest?, Instr.sources, Call.newObject, Value.CarriesTy]
      · cases List.mem_singleton.mp later
        simp [Instr.CarriesTys, Instr.dest?, Instr.sources, Call.construct, Call.invoke,
          Value.CarriesTy]
  | call isReceiver hasValues isDest =>
      cases List.mem_singleton.mp member
      rw [Instr.CarriesTys, List.forall_mem_append]
      refine ⟨isDest.carriesTy found, List.forall_mem_cons.mpr ⟨isReceiver.carriesTy found, ?_⟩⟩
      exact fun value argument => (hasValues.isOperand value argument).carriesTy found
  | assign resolves hasValue =>
      cases List.mem_singleton.mp member
      exact List.forall_mem_cons.mpr ⟨carriesTy_of_resolve found resolves,
        List.forall_mem_singleton.mpr (carries hasValue)⟩
  | assignField resolves hasValue =>
      cases List.mem_singleton.mp member
      exact List.forall_mem_cons.mpr ⟨trivial, List.forall_mem_singleton.mpr (carries hasValue)⟩
  | assignElement hasArray hasPosition hasValue =>
      cases List.mem_singleton.mp member
      simp [Instr.CarriesTys, Instr.dest?, Instr.sources, carries hasArray, carries hasPosition,
        carries hasValue, Value.CarriesTy, hasArray.ty_eq]
  | condition label hasCond =>
      cases List.mem_singleton.mp member
      exact List.forall_mem_singleton.mpr (carries hasCond)
  | returnsNothing =>
      cases List.mem_singleton.mp member
      exact List.forall_mem_nil _
  | returns hasValue =>
      cases List.mem_singleton.mp member
      exact List.forall_mem_singleton.mpr (carries hasValue)

theorem Instr.IsControl.fits {table : SymbolTable} {instr : Instr} (isControl : instr.IsControl) :
    instr.FitsDest table ∧ instr.CarriesTys table method := by
  cases instr with
  | label _ | goto _ => exact ⟨trivial, List.forall_mem_nil _⟩
  | _ => exact isControl.elim

end

/-! ## Lowered classes -/

variable {table : SymbolTable}

theorem LowersMethod.fits {decl : MethodDecl} {state after : LoweringState} {method : Method}
    (lowers : LowersMethod table decl state method after) {instr : Instr}
    (member : instr ∈ method.body) :
    instr.FitsDest table ∧ instr.CarriesTys table method.name := by
  obtain ⟨signature, code, found, rfl, _, renders⟩ :=
    @LowersMethod.exists_renders _ _ _ _ _ (fun _ => True) lowers fun _ _ _ => trivial
  have nameEq : signature.name = decl.name := by
    simpa using List.find?_some found
  have foundByName : table.method? signature.name = some signature := by
    rw [nameEq, found]
  rcases mem_of_mem_completeBody member with inCode | ⟨rfl, _⟩
  · rcases renders.exists_block_of_mem inCode with
      isControl | ⟨occurrence, occurs, block, _, isBlock, inBlock⟩
    · exact isControl.fits
    · have single := Context.single_bodyOccurrences ⟨table, signature⟩ decl.body occurrence occurs
      exact ⟨isBlock.fitsDest inBlock, isBlock.carriesTys single foundByName inBlock⟩
  · exact ⟨trivial, List.forall_mem_nil _⟩

theorem fits_constructorOf {method : String} {instr : Instr}
    (member : instr ∈ (constructorOf table).body) :
    instr.FitsDest table ∧ instr.CarriesTys table method := by
  rcases List.mem_cons.mp member with rfl | later
  · simp [Instr.FitsDest, Instr.CarriesTys, Instr.dest?, Instr.sources, Call.construct,
      Call.invoke, selfValue, Value.CarriesTy]
  · cases List.mem_singleton.mp later
    exact ⟨trivial, List.forall_mem_nil _⟩

/-- In a lowered class every destination has the type of what goes into it, and every value
carries the types of declarations, whatever the types in the program. -/
theorem result_types_of_lowerProgram {program : Program} {state after : LoweringState}
    {unit : ClassUnit} (run : lowerProgram table program state = .ok unit after) :
    ∀ method ∈ unit.methods, ∀ instr ∈ method.body,
      instr.FitsDest table ∧ instr.CarriesTys table method.name := by
  obtain ⟨methods, lowers, rfl⟩ := lowerProgram_eq_ok_iff.mp run
  intro method isMethod instr member
  rcases List.mem_cons.mp isMethod with rfl | lowered
  · exact fits_constructorOf member
  · obtain ⟨_, _, _, _, lowersMethod⟩ := (lowersMethods_of_eq_ok lowers).exists_decl lowered
    exact lowersMethod.fits member

/-- A program that is far from well typed. The method has a parameter and a local of one name
and does with it `level = marks[level] + this;`, `level = Clock.now() && !level;`,
`marks = ["low", marks];`, `marks[true] = rest.length;` and `return this.read(level, marks, 1);`. -/
def gaugeProgram : Program where
  imports := ["time.Clock"]
  decl := {
    name := "Gauge"
    superClass := none
    fields := [⟨"marks", Ty.arrayOf "boolean"⟩, ⟨"marks", Ty.int⟩]
    methods := [{
      name := "read"
      returnTy := Ty.int
      params := [⟨"level", Ty.string⟩, ⟨"rest", Ty.varargOf "int"⟩]
      locals := [⟨"level", Ty.boolean⟩, ⟨"level", Ty.int⟩]
      body := [
        .assign (.var "level") (.binary (.arith .add) (.index (.var "marks") (.var "level")) .self),
        .assign (.var "level") (.binary .and (.call (.var "Clock") "now" []) (.not (.var "level"))),
        .assign (.var "marks") (.arrayInit [.string "low", .var "marks"]),
        .assign (.index (.var "marks") (.bool true)) (.length (.var "rest")),
        .ret (some (.call .self "read" [.var "level", .var "marks", .int 1]))]
      isStatic := false
      isPublic := true }] }

theorem result_types_gaugeProgram :
    ∃ unit after, lowerProgram (.ofProgram gaugeProgram) gaugeProgram {} = .ok unit after ∧
      unit.methods.map (fun method => method.body.length) = [2, 21] ∧
      ∀ method ∈ unit.methods, ∀ instr ∈ method.body,
        instr.FitsDest (.ofProgram gaugeProgram) ∧
          instr.CarriesTys (.ofProgram gaugeProgram) method.name := by
  have lowers : ((lowerProgram (.ofProgram gaugeProgram) gaugeProgram).run' {}).map
      (fun unit => unit.methods.map fun method => method.body.length) = some [2, 21] := by
    decide +kernel
  delta EStateM.run' EStateM.run at lowers
  cases run : lowerProgram (.ofProgram gaugeProgram) gaugeProgram {} with
  | error error after =>
      rw [run] at lowers
      cases lowers
  | ok unit after =>
      rw [run] at lowers
      exact ⟨unit, after, rfl, Option.some.inj lowers, result_types_of_lowerProgram run⟩

end ThreeAddress

end ClassCompiler
