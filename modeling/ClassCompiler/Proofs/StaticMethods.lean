import ClassCompiler.Proofs.Categories.Safety
import ClassCompiler.Proofs.Lowering.Simple
import ClassCompiler.Proofs.Members

/-!
# Static methods have no current object

Lowering uses the current object where the source names it, and on its own account for
fields and for calls without a receiver. A static scope sees no fields, and its calls
without a receiver go to the class. So a static method whose source does not name the
current object never uses it: its code reads and writes no field, and loads variables of
the method only. In particular slot 0 is loaded for the variable that is kept there.
-/

namespace ClassCompiler

/-! ## Sources -/

mutual

/-- Whether an expression names the current object. -/
def Expr.namesSelf : Expr → Bool
  | .self => true
  | .int _ | .bool _ | .string _ | .var _ | .newObject _ => false
  | .not inner | .paren inner | .length inner | .newArray _ inner => inner.namesSelf
  | .binary _ left right | .index left right => left.namesSelf || right.namesSelf
  | .arrayInit exprs | .selfCall _ exprs => Expr.anyNamesSelf exprs
  | .call receiver _ args => receiver.namesSelf || Expr.anyNamesSelf args

/-- Whether one of several expressions names the current object. -/
def Expr.anyNamesSelf : List Expr → Bool
  | [] => false
  | expr :: rest => expr.namesSelf || Expr.anyNamesSelf rest

end

mutual

/-- Whether a statement names the current object. -/
def Stmt.namesSelf : Stmt → Bool
  | .assign target value => target.namesSelf || value.namesSelf
  | .expr expr => expr.namesSelf
  | .ret value => value.any Expr.namesSelf
  | .ifElse cond thenBranch elseBranch =>
      cond.namesSelf || thenBranch.namesSelf || elseBranch.namesSelf
  | .whileLoop cond body => cond.namesSelf || body.namesSelf
  | .block body => bodyNamesSelf body

/-- Whether a body names the current object. -/
def bodyNamesSelf : List Stmt → Bool
  | [] => false
  | stmt :: rest => stmt.namesSelf || bodyNamesSelf rest

end

theorem Expr.namesSelf_unparen (expr : Expr) : expr.unparen.namesSelf = expr.namesSelf := by
  fun_induction Expr.unparen expr with
  | case1 inner ih => rw [ih, Expr.namesSelf]
  | case2 => rfl

namespace Semantics.Context

variable (context : Context)

theorem self_notMem_collectedArray (own : Option MethodSignature) (tys : List Ty) :
    .self ∉ collectedArray own tys := by
  unfold collectedArray
  split
  · simp
  · exact List.not_mem_nil

mutual

/-- The current object occurs in an expression only if it is named there. -/
theorem namesSelf_of_mem_occurrences : (expr : Expr) → ∀ {expected dest},
    .self ∈ context.occurrences expr expected dest → expr.namesSelf = true
  | .self, _, _, _ => rfl
  | .int _, _, _, member | .bool _, _, _, member | .string _, _, _, member => by
      rw [occurrences] at member
      cases member
  | .var _, _, _, member | .newObject _, _, _, member => by
      rw [occurrences] at member
      cases List.mem_singleton.mp member
  | .paren inner, _, _, member => by
      rw [occurrences] at member
      exact namesSelf_of_mem_occurrences inner member
  | .not inner, _, _, member | .length inner, _, _, member | .newArray _ inner, _, _, member => by
      simp only [occurrences, List.mem_append, List.mem_singleton, reduceCtorEq, or_false]
        at member
      exact namesSelf_of_mem_occurrences inner member
  | .binary _ left right, _, _, member | .index left right, _, _, member => by
      simp only [occurrences, List.mem_append, List.mem_singleton, reduceCtorEq, or_false]
        at member
      rw [Expr.namesSelf, Bool.or_eq_true]
      exact member.imp (namesSelf_of_mem_occurrences left) (namesSelf_of_mem_occurrences right)
  | .arrayInit elements, _, _, member => by
      simp only [occurrences, List.mem_append, List.mem_singleton, reduceCtorEq, or_false]
        at member
      exact anyNamesSelf_of_mem_occurrencesAll elements member
  | .selfCall _ args, _, _, member => by
      simp only [occurrences, List.mem_append, List.mem_singleton, reduceCtorEq, or_false,
        self_notMem_collectedArray] at member
      exact anyNamesSelf_of_mem_occurrencesAll args member
  | .call receiver _ args, _, _, member => by
      rw [Expr.namesSelf, Bool.or_eq_true]
      rw [occurrences] at member
      cases named : context.classNamed? receiver with
      | some className =>
          simp only [named, List.mem_append, List.mem_singleton, reduceCtorEq, or_false,
            self_notMem_collectedArray] at member
          exact .inr (anyNamesSelf_of_mem_occurrencesAll args member)
      | none =>
          simp only [named, List.mem_append, List.mem_singleton, reduceCtorEq, or_false,
            self_notMem_collectedArray] at member
          exact member.imp (namesSelf_of_mem_occurrences receiver)
            (anyNamesSelf_of_mem_occurrencesAll args)

theorem anyNamesSelf_of_mem_occurrencesAll : (exprs : List Expr) → ∀ {expectedAt},
    .self ∈ context.occurrencesAll expectedAt exprs → Expr.anyNamesSelf exprs = true
  | [], _, member => by
      rw [occurrencesAll] at member
      cases member
  | expr :: rest, _, member => by
      rw [occurrencesAll, List.mem_append] at member
      rw [Expr.anyNamesSelf, Bool.or_eq_true]
      exact member.imp (namesSelf_of_mem_occurrences expr) (anyNamesSelf_of_mem_occurrencesAll rest)

end

theorem namesSelf_of_mem_variableOccurrences {declared : Ty} {value : Expr}
    (member : .self ∈ context.variableOccurrences declared value) : value.namesSelf = true := by
  unfold variableOccurrences at member
  split at member
  · exact context.namesSelf_of_mem_occurrences value member
  · simp only [List.mem_append, List.mem_singleton, reduceCtorEq, or_false] at member
    exact context.namesSelf_of_mem_occurrences value member

theorem namesSelf_of_mem_assignOccurrences {target value : Expr}
    (member : .self ∈ context.assignOccurrences target value) :
    (target.namesSelf || value.namesSelf) = true := by
  rw [Bool.or_eq_true]
  unfold assignOccurrences at member
  split at member
  · right
    split at member
    · exact context.namesSelf_of_mem_variableOccurrences member
    · simp only [List.mem_append, List.mem_singleton, reduceCtorEq, or_false] at member
      exact context.namesSelf_of_mem_occurrences value member
    · cases List.mem_singleton.mp member
  · next array position targetEq =>
      simp only [List.mem_append, List.mem_singleton, reduceCtorEq, or_false] at member
      rw [← Expr.namesSelf_unparen, targetEq, Expr.namesSelf, Bool.or_eq_true]
      rcases member with (inValue | inArray) | inPosition
      · exact .inr (context.namesSelf_of_mem_occurrences value inValue)
      · exact .inl (.inl (context.namesSelf_of_mem_occurrences array inArray))
      · exact .inl (.inr (context.namesSelf_of_mem_occurrences position inPosition))
  · cases List.mem_singleton.mp member

theorem namesSelf_of_mem_returnOccurrences {value : Option Expr}
    (member : .self ∈ context.returnOccurrences value) : value.any Expr.namesSelf = true := by
  cases value with
  | none => cases List.mem_singleton.mp member
  | some value =>
      rw [returnOccurrences] at member
      split at member
      · cases List.mem_singleton.mp member
      · simp only [List.mem_append, List.mem_singleton, reduceCtorEq, or_false] at member
        exact context.namesSelf_of_mem_occurrences value member

mutual

theorem namesSelf_of_mem_stmtOccurrences : (stmt : Stmt) →
    .self ∈ context.stmtOccurrences stmt → stmt.namesSelf = true
  | .assign _ _, member => by
      rw [stmtOccurrences] at member
      exact context.namesSelf_of_mem_assignOccurrences member
  | .expr expr, member => by
      rw [stmtOccurrences] at member
      exact context.namesSelf_of_mem_occurrences expr member
  | .ret _, member => by
      rw [stmtOccurrences] at member
      exact context.namesSelf_of_mem_returnOccurrences member
  | .ifElse cond thenBranch elseBranch, member => by
      simp only [stmtOccurrences, List.mem_append, List.mem_singleton, reduceCtorEq, or_false]
        at member
      simp only [Stmt.namesSelf, Bool.or_eq_true]
      rcases member with (inCond | inElse) | inThen
      · exact .inl (.inl (context.namesSelf_of_mem_occurrences cond inCond))
      · exact .inr (namesSelf_of_mem_stmtOccurrences elseBranch inElse)
      · exact .inl (.inr (namesSelf_of_mem_stmtOccurrences thenBranch inThen))
  | .whileLoop cond body, member => by
      simp only [stmtOccurrences, List.mem_append, List.mem_cons, List.not_mem_nil, reduceCtorEq,
        or_false] at member
      rw [Stmt.namesSelf, Bool.or_eq_true]
      exact member.imp (context.namesSelf_of_mem_occurrences cond)
        (namesSelf_of_mem_stmtOccurrences body)
  | .block body, member => by
      rw [stmtOccurrences] at member
      exact namesSelf_of_mem_bodyOccurrences body member

/-- The current object occurs in a body only if it is named there. -/
theorem namesSelf_of_mem_bodyOccurrences : (body : List Stmt) →
    .self ∈ context.bodyOccurrences body → bodyNamesSelf body = true
  | [], member => by
      rw [bodyOccurrences] at member
      cases member
  | stmt :: rest, member => by
      rw [bodyOccurrences, List.mem_append] at member
      rw [bodyNamesSelf, Bool.or_eq_true]
      exact member.imp (namesSelf_of_mem_stmtOccurrences stmt)
        (namesSelf_of_mem_bodyOccurrences rest)

end

end Semantics.Context

namespace ThreeAddress

open Semantics (Context Occurrence)

/-! ## Operands -/

/-- Whether an operand is the current object, or has it in an element. -/
def Value.namesSelf : Value → Bool
  | .self _ => true
  | .element array position _ => array.namesSelf || position.namesSelf
  | .temp _ _ | .var _ _ | .const _ | .classRef _ => false

/-- The temporaries and declared variables in an operand. -/
def Value.symbols : Value → List Symbol
  | .temp name ty | .var name ty => [⟨name, ty⟩]
  | .element array position _ => array.symbols ++ position.symbols
  | .const _ | .self _ | .classRef _ => []

/-- What an instruction reads and writes. -/
def Instr.values (instr : Instr) : List Value := instr.dest?.toList ++ instr.sources

/-- Whether an instruction reads or writes a field. -/
def Instr.accessesField : Instr → Bool
  | .getField _ _ _ _ | .putField _ _ _ => true
  | _ => false

section

variable {context : Context} {value : Value}

theorem IsOperand.namesSelf_eq_false (isOperand : IsOperand context False value) :
    value.namesSelf = false := by
  cases value with
  | self ty => exact isOperand.2.elim
  | element array position ty => exact isOperand.elim
  | _ => rfl

theorem IsNamed.namesSelf_eq_false (isNamed : IsNamed context False value) :
    value.namesSelf = false := by
  cases value with
  | self ty => exact isNamed.2.elim
  | element array position ty =>
      rw [Value.namesSelf, isNamed.1.namesSelf_eq_false, isNamed.2.namesSelf_eq_false]
      rfl
  | _ => rfl

/-- A method keeps the variables of a context and the temporaries of an operand. -/
theorem IsOperand.symbols_subset {symbols : List Symbol}
    (isOperand : IsOperand context False value)
    (declared : context.signature.params ++ context.signature.locals ⊆ symbols)
    (temps : value.temps ⊆ symbols) : value.symbols ⊆ symbols := by
  cases value with
  | temp name ty => exact temps
  | var name ty =>
      obtain ⟨symbol, member, rfl, rfl⟩ := Context.exists_symbol_of_resolve isOperand
      exact List.cons_subset.mpr ⟨declared member, List.nil_subset _⟩
  | element array position ty => exact isOperand.elim
  | _ => exact List.nil_subset _

theorem IsNamed.symbols_subset {symbols : List Symbol} (isNamed : IsNamed context False value)
    (declared : context.signature.params ++ context.signature.locals ⊆ symbols)
    (temps : value.temps ⊆ symbols) : value.symbols ⊆ symbols := by
  cases value with
  | element array position ty =>
      obtain ⟨arrayTemps, positionTemps⟩ := List.append_subset.mp temps
      exact List.append_subset.mpr ⟨isNamed.1.symbols_subset declared arrayTemps,
        isNamed.2.symbols_subset declared positionTemps⟩
  | classRef name => exact List.nil_subset _
  | _ => exact IsOperand.symbols_subset isNamed declared temps

end

/-- Fields are accessed in instance methods only. -/
theorem Block.accessesField_eq_false {context : Context} {hasSelf : Prop}
    {occurrence : Occurrence} {code : Code} (isBlock : Block context hasSelf occurrence code)
    (isStatic : context.signature.isStatic = true) :
    ∀ instr ∈ code, instr.accessesField = false := by
  have noField {name : String} {ty : Ty}
      (resolves : context.resolve? name = some (.field ty)) : False := by
    have isInstance := (Context.exists_field_of_resolve resolves).1
    rw [isStatic] at isInstance
    cases isInstance
  cases isBlock with
  | self | declared => exact List.forall_mem_nil _
  | field _ resolves | assignField resolves _ => exact (noField resolves).elim
  | array =>
      refine List.forall_mem_cons.mpr ⟨rfl, fun instr member => ?_⟩
      obtain ⟨_, _, rfl⟩ := List.mem_map.mp member
      rfl
  | newObject => exact List.forall_mem_cons.mpr ⟨rfl, List.forall_mem_singleton.mpr rfl⟩
  | _ => exact List.forall_mem_singleton.mpr rfl

/-! ## Methods -/

/-- What an instruction of a method without current object uses. -/
structure Instr.HasNoSelf (method : Method) (instr : Instr) : Prop where
  namesSelf : ∀ value ∈ instr.values, value.namesSelf = false
  accessesField : instr.accessesField = false
  symbols_subset : ∀ value ∈ instr.sources, value.symbols ⊆ method.allVariables

theorem Instr.IsControl.hasNoSelf {instr : Instr} (isControl : instr.IsControl)
    (method : Method) : instr.HasNoSelf method := by
  cases instr with
  | label name | goto target => exact ⟨List.forall_mem_nil _, rfl, List.forall_mem_nil _⟩
  | _ => exact isControl.elim

/-- A static method whose source does not name the current object does not use it. -/
theorem LowersMethod.hasNoSelf {table : SymbolTable} {decl : MethodDecl}
    {signature : MethodSignature} {state after : LoweringState} {method : Method}
    (lowers : LowersMethod table decl state method after)
    (found : table.method? decl.name = some signature) (isStatic : signature.isStatic = true)
    (unnamed : bodyNamesSelf decl.body = false) :
    method.isStatic = true ∧ ∀ instr ∈ method.body, instr.HasNoSelf method := by
  have allows (other : MethodSignature) (otherFound : other ∈ table.method? decl.name) :
      AllowsSelf ⟨table, other⟩ False
        ((Context.mk table other).bodyOccurrences decl.body) := by
    cases found.symm.trans otherFound
    rintro (isInstance | occurs)
    · exact Bool.false_ne_true (isInstance.symm.trans isStatic)
    · exact Bool.false_ne_true
        (unnamed.symm.trans (Context.namesSelf_of_mem_bodyOccurrences _ _ occurs))
  obtain ⟨other, code, otherFound, rfl, covered, renders⟩ :=
    @LowersMethod.exists_renders _ _ _ _ _ (fun _ => False) lowers allows
  cases found.symm.trans otherFound
  refine ⟨isStatic, ?_⟩
  intro instr member
  rcases mem_of_mem_completeBody member with inCode | ⟨rfl, _⟩
  · rcases renders.exists_block_of_mem inCode with
      isControl | ⟨occurrence, _, block, _, isBlock, inBlock⟩
    · exact isControl.hasNoSelf _
    · have isInstance : (Context.mk table signature).signature.isStatic = false → False :=
        fun isFalse => Bool.false_ne_true (isFalse.symm.trans isStatic)
      obtain ⟨sourcesNamed, destNamed⟩ := isBlock.isNamed isInstance instr inBlock
      constructor
      · intro value used
        rcases List.mem_append.mp used with isDest | isSource
        · exact (destNamed value (Option.mem_toList.mp isDest)).namesSelf_eq_false
        · exact (sourcesNamed value isSource).namesSelf_eq_false
      · exact isBlock.accessesField_eq_false isStatic instr inBlock
      · intro value isSource
        apply (sourcesNamed value isSource).symbols_subset (List.subset_append_left _ _)
        intro temp used
        exact List.mem_append_right _
          (covered.usedTemps_subset inCode (Instr.temps_subset isSource used))
  · exact ⟨List.forall_mem_nil _, rfl, List.forall_mem_nil _⟩

end ThreeAddress

namespace StackCode

open ThreeAddress (Method Value)

/-! ## Loads -/

section

variable {names : List String}

/-- The code of an instruction loads nothing but the operands that the instruction reads. -/
theorem Part.exists_source_of_load {linkage : Linkage} {isMain : Bool} {counts : ComparisonCounts}
    {instr : ThreeAddress.Instr} {category : Category} {slot : Nat}
    (part : Part linkage isMain names counts instr (.instr (.load category slot))) :
    ∃ value ∈ instr.sources, .instr (.load category slot) ∈ loadCode names value := by
  cases part with
  | plain isPlain => exact isPlain.elim
  | load source loads => exact ⟨_, source, loads⟩

/-- An operand without the current object is loaded from the slots of its variables. -/
theorem exists_symbol_of_load {value : Value} (unnamed : value.namesSelf = false)
    {category : Category} {slot : Nat}
    (member : .instr (.load category slot) ∈ loadCode names value) :
    ∃ symbol ∈ value.symbols, category = valueCategory symbol.ty ∧
      slot = names.idxOf symbol.name := by
  induction value with
  | temp name ty | var name ty =>
      cases List.mem_singleton.mp member
      exact ⟨⟨name, ty⟩, List.mem_singleton_self _, rfl, rfl⟩
  | const constant => cases constant <;> cases List.mem_singleton.mp member
  | self ty => cases unnamed
  | classRef name => cases member
  | element array position ty arrayLoads positionLoads =>
      obtain ⟨arrayUnnamed, positionUnnamed⟩ := Bool.or_eq_false_iff.mp unnamed
      rcases List.mem_append.mp member with inOperands | isLast
      · rcases List.mem_append.mp inOperands with inArray | inPosition
        · obtain ⟨symbol, found, loads⟩ := arrayLoads arrayUnnamed inArray
          exact ⟨symbol, List.mem_append_left _ found, loads⟩
        · obtain ⟨symbol, found, loads⟩ := positionLoads positionUnnamed inPosition
          exact ⟨symbol, List.mem_append_right _ found, loads⟩
      · cases List.mem_singleton.mp isLast

end

/-- The slots of a static method are those of its variables. -/
theorem getElem?_allVariables {method : Method} (isStatic : method.isStatic = true)
    (distinct : (slotNames method).Nodup) {symbol : Symbol}
    (member : symbol ∈ method.allVariables) :
    method.allVariables[(slotNames method).idxOf symbol.name]? = some symbol := by
  have namesEq : slotNames method = method.allVariables.map Symbol.name := by
    rw [slotNames, isStatic]
    rfl
  rw [namesEq] at distinct ⊢
  obtain ⟨place, inside, rfl⟩ := List.mem_iff_getElem.mp member
  have placeEq := distinct.idxOf_getElem place (by rwa [List.length_map])
  rw [List.getElem_map] at placeEq
  rw [placeEq]
  exact List.getElem?_eq_getElem inside

/-! ## Methods of stack code -/

/-- The code of a method loads variables of the method for its operands, and neither
reads nor writes fields. -/
structure UsesVariablesOnly (method : Method) (code : MethodCode) : Prop where
  loads : ∀ category slot, .instr (.load category slot) ∈ code.lines →
    ∃ instr ∈ method.body, ∃ value ∈ instr.sources, ∃ symbol ∈ value.symbols,
      method.allVariables[slot]? = some symbol ∧ category = valueCategory symbol.ty
  getField : ∀ owner field descriptor, .instr (.getField owner field descriptor) ∉ code.lines
  putField : ∀ owner field descriptor, .instr (.putField owner field descriptor) ∉ code.lines

/-- Code names a field only for an access to it. -/
theorem Part.accessesField_eq_true {linkage : Linkage} {isMain : Bool} {names : List String}
    {counts : ComparisonCounts} {instr : ThreeAddress.Instr} {op : Instr}
    (part : Part linkage isMain names counts instr (.instr op))
    {owner field : String} {descriptor : Descriptor}
    (isField : op.member? = some (.field owner field descriptor)) :
    instr.accessesField = true := by
  cases part with
  | getField | putField => rfl
  | plain isPlain =>
      rw [isPlain.member?_eq_none] at isField
      cases isField
  | _ => cases isField

theorem usesVariablesOnly_generatedMethod {method : Method} (isStatic : method.isStatic = true)
    (hasNoSelf : ∀ instr ∈ method.body, instr.HasNoSelf method) (isEmittable : IsEmittable method)
    (linkage : Linkage) (counts : ComparisonCounts) :
    UsesVariablesOnly method (generatedMethod linkage method counts) := by
  have noField (op : Instr) (member : .instr op ∈ (generatedMethod linkage method counts).lines)
      {owner field : String} {descriptor : Descriptor} :
      op.member? ≠ some (.field owner field descriptor) := by
    intro isField
    obtain ⟨instr, inBody, before, part⟩ := exists_part_of_mem_bodyCode member
    have accesses := part.accessesField_eq_true isField
    exact Bool.false_ne_true ((hasNoSelf instr inBody).accessesField.symm.trans accesses)
  constructor
  · intro category slot member
    obtain ⟨instr, inBody, before, part⟩ := exists_part_of_mem_bodyCode member
    obtain ⟨value, isSource, inLoad⟩ := part.exists_source_of_load
    have unnamed := (hasNoSelf instr inBody).namesSelf value (List.mem_append_right _ isSource)
    obtain ⟨symbol, found, categoryEq, rfl⟩ := exists_symbol_of_load unnamed inLoad
    refine ⟨instr, inBody, value, isSource, symbol, found, ?_, categoryEq⟩
    exact getElem?_allVariables isStatic isEmittable.distinct
      ((hasNoSelf instr inBody).symbols_subset value isSource found)
  · intro owner field descriptor member
    exact noField _ member rfl
  · intro owner field descriptor member
    exact noField _ member rfl

end StackCode

open StackCode (HasHeader IsEmittable UsesVariablesOnly generateMethod
  generateMethod_eq_ok_iff_generatedMethod generatedMethod)
open ThreeAddress (LoweringState Method lowerMethod)

/-- No instruction of a static method whose source does not name the current object has
it as an operand, and none accesses a field. The code of the method loads slots for the
variables that are kept there, and gets and puts no field. -/
theorem static_methods_have_no_self {table : SymbolTable} {decl : MethodDecl}
    {signature : MethodSignature} {state after : LoweringState} {method : Method}
    (found : table.method? decl.name = some signature) (isStatic : signature.isStatic = true)
    (unnamed : bodyNamesSelf decl.body = false)
    (run : lowerMethod table decl state = .ok method after) :
    (∀ instr ∈ method.body, (∀ value ∈ instr.values, value.namesSelf = false) ∧
      instr.accessesField = false) ∧
    ∀ linkage counts code last, generateMethod linkage method counts = .ok code last →
      UsesVariablesOnly method code := by
  obtain ⟨staticMethod, hasNoSelf⟩ :=
    (ThreeAddress.lowersMethod_of_eq_ok run).hasNoSelf found isStatic unnamed
  constructor
  · intro instr member
    exact ⟨(hasNoSelf instr member).namesSelf, (hasNoSelf instr member).accessesField⟩
  · intro linkage counts code last generated
    obtain ⟨⟨isEmittable, _⟩, rfl, _⟩ := generateMethod_eq_ok_iff_generatedMethod.mp generated
    exact StackCode.usesVariablesOnly_generatedMethod staticMethod hasNoSelf isEmittable _ _

/-- A class with a field and two static methods, one with a local variable of the same
name as the field. -/
def scoreTable : SymbolTable where
  className := "Score"
  fields := [⟨"total", Ty.int⟩]
  methods := [
    { name := "last"
      returnTy := Ty.int
      params := [⟨"scores", Ty.arrayOf "int"⟩, ⟨"count", Ty.int⟩]
      locals := [⟨"total", Ty.int⟩]
      isStatic := true },
    { name := "twice", returnTy := Ty.int, params := [⟨"score", Ty.int⟩], isStatic := true }]

/-- A static method that reads an element of its first parameter, writes a local variable
and calls the other static method without naming the class. -/
def lastMethod : MethodDecl where
  name := "last"
  returnTy := Ty.int
  params := [⟨"scores", Ty.arrayOf "int"⟩, ⟨"count", Ty.int⟩]
  locals := [⟨"total", Ty.int⟩]
  body := [
    .assign (.var "total") (.selfCall "twice"
      [.index (.var "scores") (.binary (.arith .sub) (.var "count") (.int 1))]),
    .ret (some (.var "total"))]
  isStatic := true
  isPublic := true

/-- The method in three-address code. -/
def lastCode : Method where
  name := "last"
  returnTy := Ty.int
  params := [⟨"scores", Ty.arrayOf "int"⟩, ⟨"count", Ty.int⟩]
  locals := [⟨"total", Ty.int⟩]
  temps := [⟨"tmp0", Ty.int⟩, ⟨"tmp1", Ty.int⟩]
  isStatic := true
  body := [
    .binary (.temp "tmp0" Ty.int) (.arith .sub) (.var "count" Ty.int) (.int 1),
    .assign (.temp "tmp1" Ty.int)
      (.element (.var "scores" (Ty.arrayOf "int")) (.temp "tmp0" Ty.int) Ty.int),
    .call (some (.var "total" Ty.int))
      (.invoke .static (.classRef "Score") "twice" [.temp "tmp1" Ty.int] Ty.int),
    .ret (some (.var "total" Ty.int))]

/-- The first parameter is an array and stands in slot 0, where an instance method has
its object. -/
theorem static_methods_have_no_self_lastMethod :
    ∃ signature, scoreTable.method? lastMethod.name = some signature ∧
      signature.isStatic = true ∧ bodyNamesSelf lastMethod.body = false ∧
      (∃ after, lowerMethod scoreTable lastMethod {} = .ok lastCode after) ∧
      (∀ instr ∈ lastCode.body, (∀ value ∈ instr.values, value.namesSelf = false) ∧
        instr.accessesField = false) ∧
      ∀ linkage counts, ∃ code last, generateMethod linkage lastCode counts = .ok code last ∧
        UsesVariablesOnly lastCode code := by
  have unnamed : bodyNamesSelf lastMethod.body = false := by decide
  have run : lowerMethod scoreTable lastMethod {} = .ok lastCode _ := rfl
  have accepted : IsEmittable lastCode ∧ HasHeader lastCode := by decide +kernel
  obtain ⟨hasNoSelf, usesVariables⟩ := static_methods_have_no_self rfl rfl unnamed run
  refine ⟨_, rfl, rfl, unnamed, ⟨_, run⟩, hasNoSelf, fun linkage counts => ?_⟩
  have generated := generateMethod_eq_ok_iff_generatedMethod.mpr
    ⟨accepted, @rfl _ (generatedMethod linkage lastCode counts), rfl⟩
  exact ⟨_, _, generated, usesVariables _ _ _ _ generated⟩

end ClassCompiler
